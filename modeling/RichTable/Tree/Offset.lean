import RichTable.Tree.Document

/-!
# Symbol offsets

Reading a document from left to right gives a sequence of symbols: the start and the end of every
element, and each character of a run. The root contributes none of its own, so offsets run from 0 to
the content length of the root. Only attached nodes have offsets.
-/

namespace RichTable.Document

variable {L : Type}

/-- The offset of `id` among `siblings`, of which the first one starts at `offset`. -/
def startAmong (d : Document L) (id : NodeId) :
    (siblings : List NodeId) → (offset : Nat) → Option Nat
  | [], _ => none
  | s :: siblings, offset =>
    if s = id then some offset else d.startAmong id siblings (offset + d.symbolLength s)

/-- The offset at which `id` starts, for nodes at most `fuel` levels below the root. -/
def startWithin (d : Document L) : (fuel : Nat) → NodeId → Option Nat
  | 0, _ => none
  | fuel + 1, id =>
    match d.parent? id with
    | none => none
    | some p =>
      let first := if p = root then some 0 else (d.startWithin fuel p).map (· + 1)
      first.bind (d.startAmong id (d.children p))

/-- The offset just before a node; `none` for the root and for detached nodes. -/
def elementStart? (d : Document L) (id : NodeId) : Option Nat := d.startWithin d.size id

/-- The offset just behind a node. -/
def elementEnd? (d : Document L) (id : NodeId) : Option Nat :=
  (d.elementStart? id).map (· + d.symbolLength id)

/-- The first offset in the content of a node. -/
def contentStart? (d : Document L) (id : NodeId) : Option Nat :=
  if id = root then some 0 else (d.elementStart? id).map (· + 1)

/-- The last offset in the content of a node. -/
def contentEnd? (d : Document L) (id : NodeId) : Option Nat :=
  (d.contentStart? id).map (· + d.contentLength id)

/-- The last offset of the document. -/
def lastOffset (d : Document L) : Nat := d.contentLength root

end RichTable.Document
