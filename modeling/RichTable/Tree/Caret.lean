import RichTable.Tree.Offset
import RichTable.Tree.Position

/-!
# Places for the caret

A caret may stand inside a run, or inside a block that holds no run. `nearestCaret` moves a position
to such a place, first in a given direction, then in the other one. `firstCaret?` and `lastCaret?`
find the outermost such places of an element by walking down the tree.
-/

namespace RichTable.Document

variable {L : Type}

/-- The child whose content holds offset `p`, and where its content starts, when the first of
`siblings` starts at `offset`. -/
def childAt (d : Document L) (p : Nat) :
    (siblings : List NodeId) → (offset : Nat) → Option (NodeId × Nat)
  | [], _ => none
  | s :: siblings, offset =>
    let next := offset + d.symbolLength s
    if offset < p ∧ p < next then some (s, offset + 1) else d.childAt p siblings next

/-- Walks down from `id`, whose content starts at `base`, towards offset `p`. -/
def descend (d : Document L) (p : Nat) : (fuel : Nat) → (id : NodeId) → (base : Nat) → NodeId
  | 0, id, _ => id
  | fuel + 1, id, base =>
    if d.isKind id .inline then id
    else
      match d.childAt p (d.children id) base with
      | some (child, start) => d.descend p fuel child start
      | none => id

/-- The innermost element whose content holds an offset. -/
def elementAt (d : Document L) (p : Nat) : NodeId := d.descend p d.size root 0

/-- The innermost element whose content holds a position. -/
def holder (d : Document L) (p : Position) : NodeId := d.elementAt p.offset

/-- The kind of the innermost element that holds a position. -/
def holderKind (d : Document L) (p : Position) : Kind := (d.kind? (d.holder p)).getD .other

/-- Whether two positions lie in the same element. -/
def sameHolder (d : Document L) (a b : Position) : Bool := d.holder a == d.holder b

/-- The position at an edge of an element. -/
def edgePosition? (d : Document L) (id : NodeId) : Edge → Option Position
  | .beforeStart => (d.elementStart? id).map (⟨·, .forward⟩)
  | .afterStart => (d.contentStart? id).map (⟨·, .forward⟩)
  | .beforeEnd => (d.contentEnd? id).map (⟨·, .backward⟩)
  | .afterEnd => (d.elementEnd? id).map (⟨·, .backward⟩)

/-- Whether a caret may stand in the content of a node. -/
def hostsCaret (d : Document L) (id : NodeId) : Bool :=
  match d.kind? id with
  | some .inline => true
  | some .block => (d.children id).isEmpty
  | _ => false

/-- Whether a caret may stand at an offset. -/
def isCaretOffset (d : Document L) (p : Nat) : Bool :=
  p ≤ d.lastOffset && d.hostsCaret (d.elementAt p)

/-- Whether a caret may stand at a position. -/
def isCaret (d : Document L) (p : Position) : Bool := d.isCaretOffset p.offset

/-- The closest caret position strictly behind or before `p`. -/
def nextCaret? (d : Document L) (p : Position) (direction : Direction) : Option Position :=
  let offsets :=
    match direction with
    | .forward => List.range' (p.offset + 1) (d.lastOffset - p.offset)
    | .backward => (List.range (min p.offset (d.lastOffset + 1))).reverse
  (offsets.find? d.isCaretOffset).map fun o => { p with offset := o }

/-- The position itself if a caret may stand there, otherwise the closest caret position in
`direction`, otherwise the closest one in the other direction. -/
def nearestCaret (d : Document L) (p : Position) (direction : Direction) : Position :=
  if d.isCaret p then p
  else ((d.nextCaret? p direction).or (d.nextCaret? p direction.reverse)).getD p

/-- The first node at or below `id`, in the order that `visit` gives to children, that may hold the
caret. -/
def caretHost (d : Document L) (visit : List NodeId → List NodeId) :
    (fuel : Nat) → NodeId → Option NodeId
  | 0, _ => none
  | fuel + 1, id =>
    if d.hostsCaret id then some id
    else (visit (d.children id)).findSome? (d.caretHost visit fuel)

/-- The first caret position in an element. -/
def firstCaret? (d : Document L) (id : NodeId) : Option Position :=
  ((d.caretHost (fun cs => cs) d.size id).bind d.contentStart?).map (⟨·, .forward⟩)

/-- The last caret position in an element. -/
def lastCaret? (d : Document L) (id : NodeId) : Option Position :=
  ((d.caretHost List.reverse d.size id).bind d.contentEnd?).map (⟨·, .backward⟩)

end RichTable.Document
