import RichTable.Tree.Document

/-!
# Text below a node

`plainText` joins the runs below a node, one line per block. `hasContent` tells whether there is
anything to keep below a node: a run with text, or a nested table.
-/

namespace RichTable.Document

variable {L : Type}

/-- Starts a new line, unless the text is at the start of one. -/
def freshLine (out : List Char) : List Char :=
  if out = [] ∨ out.getLast? = some '\n' then out else out ++ ['\n']

/-- Appends the text below `id` to `out`, down to `fuel` levels. -/
def appendText (d : Document L) : (fuel : Nat) → NodeId → List Char → List Char
  | 0, _, out => out
  | fuel + 1, id, out =>
    match d.payload? id with
    | some (.inline text) => out ++ text.toList
    | some .block => (d.children id).foldl (fun out c => d.appendText fuel c out) (freshLine out)
    | some _ => (d.children id).foldl (fun out c => d.appendText fuel c out) out
    | none => out

/-- The text of all runs below a node, one line per block. -/
def plainText (d : Document L) (id : NodeId) : String := String.ofList (d.appendText d.size id [])

/-- Whether there is a text or a table at or below `id`, down to `fuel` levels. -/
def contentBelow (d : Document L) : (fuel : Nat) → NodeId → Bool
  | 0, _ => false
  | fuel + 1, id =>
    match d.payload? id with
    | some (.inline text) => text != ""
    | some (.table _) => true
    | some _ => (d.children id).any (d.contentBelow fuel)
    | none => false

/-- Whether a node holds any text or nested table. -/
def hasContent (d : Document L) (id : NodeId) : Bool := d.contentBelow d.size id

end RichTable.Document
