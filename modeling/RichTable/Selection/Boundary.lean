import RichTable.Grid.Query
import RichTable.Tree.Caret

/-!
# What a selection crosses

A selection runs from an anchor to a moving position. Both are moved to places for the caret, and
then each side walks up to the common ancestor and records the cell, row, row group and table that
it leaves on the way.

Moving to a caret place can push a position over the edge of a cell into a cell that the selection
did not reach. Such a position is folded back: the later end into the last caret place of the cell
before, the earlier end into the first caret place of the cell behind.
-/

namespace RichTable

/-- What one end of a selection leaves on the way to the common ancestor. -/
structure BoundarySide where
  /-- The end itself, moved to a place for the caret. -/
  position : Position
  cell : Option NodeId := none
  row : Option NodeId := none
  rowGroup : Option NodeId := none
  table : Option NodeId := none
deriving Repr, DecidableEq

namespace BoundarySide

/-- Whether no part of a table was left. -/
def isEmpty (s : BoundarySide) : Bool :=
  s.cell.isNone && s.row.isNone && s.rowGroup.isNone && s.table.isNone

/-- Records that a node of the given kind was left. What was recorded before a cell is inside it and
no longer counts. -/
def record (s : BoundarySide) (id : NodeId) : Kind → BoundarySide
  | .cell => { position := s.position, cell := some id }
  | .row => { s with row := some id }
  | .rowGroup => { s with rowGroup := some id }
  | .table => { s with table := some id }
  | _ => s

/-- The row that was left, if its table was left too. -/
def crossedRow? (s : BoundarySide) : Option NodeId := if s.table.isSome then s.row else none

end BoundarySide

/-- Both ends of a selection, and the lowest element that holds them. -/
structure Boundaries where
  anchor : BoundarySide
  moving : BoundarySide
  commonAncestor : NodeId
deriving Repr, DecidableEq

namespace Boundaries

/-- Whether neither end left any part of a table. -/
def isNone (b : Boundaries) : Bool := b.anchor.isEmpty && b.moving.isEmpty

/-- Whether an end left a table. -/
def crossesTable (b : Boundaries) : Bool := b.anchor.table.isSome || b.moving.table.isSome

/-- The cells of the two ends, if both are in cells of one table. -/
def cells? (b : Boundaries) : Option (NodeId × NodeId) :=
  if b.crossesTable then none
  else
    match b.anchor.cell, b.moving.cell with
    | some a, some m => some (a, m)
    | _, _ => none

end Boundaries

namespace Document

variable {L : Type}

/-- The outermost cell around `normalized` that, like all cells inside it, starts at or behind the
raw position. -/
def enteredCell? (d : Document L) (raw normalized : Position) : Option NodeId :=
  (((d.ancestors (d.holder normalized)).filter (d.isKind · .cell)).takeWhile fun c =>
    (d.elementStart? c).any (raw.offset ≤ ·)).getLast?

/-- The outermost cell around `normalized` that, like all cells inside it, ends at or before the raw
position. -/
def exitedCell? (d : Document L) (raw normalized : Position) : Option NodeId :=
  (((d.ancestors (d.holder normalized)).filter (d.isKind · .cell)).takeWhile fun c =>
    (d.elementEnd? c).any (· ≤ raw.offset)).getLast?

/-- The later end of a selection: taken back out of a cell that the raw position was before. -/
def foldBackward (d : Document L) (raw normalized : Position) : Position :=
  (((d.enteredCell? raw normalized).bind d.previousCell?).bind d.lastCaret?).getD normalized

/-- The earlier end of a selection: taken back out of a cell that the raw position was behind. -/
def foldForward (d : Document L) (raw normalized : Position) : Position :=
  (((d.exitedCell? raw normalized).bind d.nextCell?).bind d.firstCaret?).getD normalized

/-- The two ends of a selection at places for the caret. -/
def normalizedEnds (d : Document L) (anchor moving : Position) : Position × Position :=
  let a := d.nearestCaret anchor anchor.direction
  let m := d.nearestCaret moving moving.direction
  if anchor.offset < moving.offset then (d.foldForward anchor a, d.foldBackward moving m)
  else if moving.offset < anchor.offset then (d.foldBackward anchor a, d.foldForward moving m)
  else (a, m)

/-- Whether a position lies in the content of an attached element. -/
def holds (d : Document L) (p : Position) (id : NodeId) : Bool :=
  id == root ||
    match d.contentStart? id, d.contentEnd? id with
    | some first, some last => first ≤ p.offset && p.offset ≤ last
    | _, _ => false

/-- Walks from `id` up to, and not including, `common`, recording what is left. -/
def walkUp (d : Document L) (id common : NodeId) (side : BoundarySide) : BoundarySide :=
  ((d.ancestors id).takeWhile (· != common)).foldl
    (fun side n => ((d.kind? n).map (side.record n)).getD side) side

/-- What a selection crosses. -/
def boundaries (d : Document L) (anchor moving : Position) : Boundaries :=
  let (a, m) := d.normalizedEnds anchor moving
  let source := d.holder a
  let target := d.holder m
  if source = target then
    { anchor := { position := a }, moving := { position := m }, commonAncestor := source }
  else
    let common := ((d.ancestors source).find? (d.holds m)).getD root
    let result : Boundaries :=
      { anchor := d.walkUp source common { position := a }
        moving := d.walkUp target common { position := m }
        commonAncestor := common }
    if result.crossesTable then
      { result with
        anchor := { result.anchor with cell := none }
        moving := { result.moving with cell := none } }
    else result

/-- The cells at the two ends of a selection, on the same level of one table. A selection inside one
cell gives that cell twice, and one that leaves a table gives none. -/
def boundaryCells? (d : Document L) (start stop : Position) : Option (NodeId × NodeId) :=
  let b := d.boundaries start stop
  if b.crossesTable then none
  else
    match b.anchor.cell, b.moving.cell with
    | some x, some y => some (x, y)
    | none, none =>
      (d.enclosing? (d.holder b.anchor.position) .cell).map fun cell => (cell, cell)
    | _, _ => none

end Document

end RichTable
