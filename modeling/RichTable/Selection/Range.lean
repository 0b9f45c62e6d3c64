import RichTable.Selection.Boundary

/-!
# Ranges of cells

A selection between two cells of one table covers a rectangle of the grid: the rows from the higher
cell down to the lowest row that either cell occupies, and the columns of both cells. In every row
the cells that lie inside the columns make up one segment. A selection that leaves a table is one
segment, which takes in the whole row on the side where a table was left.
-/

namespace RichTable

/-- The columns of a range of cells. -/
inductive ColumnBounds where
  /-- The columns are unknown, and whole rows are selected. -/
  | all
  | range (columns : ColumnRange)
deriving Repr, DecidableEq

/-- A rectangle of cells, with one segment for each row that has selected cells. -/
structure CellRange where
  table : NodeId
  columns : ColumnBounds
  segments : List Segment
deriving Repr, DecidableEq

namespace CellRange

/-- Whether no row has selected cells. -/
def isEmpty (r : CellRange) : Bool := r.segments.isEmpty

/-- From the start of the first segment to the end of the last. -/
def bounds? (r : CellRange) : Option Segment :=
  match r.segments.head?, r.segments.getLast? with
  | some first, some last => some (.between first.start last.stop)
  | _, _ => none

end CellRange

/-- What a selection covers. -/
inductive SelectedRange where
  | cells (range : CellRange)
  /-- The selection leaves a table. -/
  | crossTable (segment : Segment)
deriving Repr, DecidableEq

namespace Document

variable {L : Type}

/-- Whether a cell lies inside the columns of a range. -/
def admits (d : Document L) : ColumnBounds → NodeId → Bool
  | .all, _ => true
  | .range columns, cell => (d.columnRange? cell).any (·.within columns)

/-- The columns of two cells together. -/
def columnBounds? (d : Document L) (a b : NodeId) : Option ColumnRange :=
  match d.columnRange? a, d.columnRange? b with
  | some r, some s => some (r.join s)
  | _, _ => none

/-- From the first caret place of `first`, or the start of its content, to just behind `last`. -/
def cellSegment? (d : Document L) (first last : NodeId) : Option Segment :=
  let start := (d.firstCaret? first).or (d.edgePosition? first .afterStart)
  match start, d.edgePosition? last .afterEnd with
  | some start, some stop => some (.between start stop)
  | _, _ => none

/-- The segment from the first to the last of some cells. -/
def cellsSegment? (d : Document L) (cells : List NodeId) : Option Segment :=
  match cells.head?, cells.getLast? with
  | some first, some last => d.cellSegment? first last
  | _, _ => none

/-- The range of whole rows. -/
def wholeRows (d : Document L) (table : NodeId) (rows : List NodeId) : CellRange where
  table
  columns := .all
  segments := rows.filterMap fun row => d.cellsSegment? (d.children row)

/-- The first run of cells of a row that lie inside the columns. -/
def admittedRun (d : Document L) (columns : ColumnBounds) (row : NodeId) : List NodeId :=
  ((d.children row).dropWhile fun c => !d.admits columns c).takeWhile (d.admits columns)

/-- The place of the row of a cell among all rows of a table. -/
def tableRowIndex? (d : Document L) (table cell : NodeId) : Option Nat :=
  (d.rowOf? cell).bind fun row => (d.tableRows table).idxOf? row

/-- The rectangle between two cells of one table. -/
def cellRange? (d : Document L) (anchor moving : NodeId) : Option CellRange := do
  let table ← d.tableOfCell? anchor
  let other ← d.tableOfCell? moving
  if other ≠ table then none
  let a ← d.tableRowIndex? table anchor
  let m ← d.tableRowIndex? table moving
  let first := min a m
  let last :=
    max (a + max (d.effectiveRowSpan anchor) 1 - 1) (m + max (d.effectiveRowSpan moving) 1 - 1)
  let columns := ((d.columnBounds? anchor moving).map .range).getD .all
  let rows := ((d.tableRows table).take (last + 1)).drop first
  return {
    table, columns
    segments := rows.filterMap fun row => d.cellsSegment? (d.admittedRun columns row) }

/-- An edge of `row`, or `p` if there is no row or the row has no place in the document. -/
def widen (d : Document L) (p : Position) (row : Option NodeId) (edge : Edge) : Position :=
  (row.bind (d.edgePosition? · edge)).getD p

/-- The segment of a selection that leaves a table. An end with a row takes in the whole row. -/
def crossTableSegment (d : Document L) (anchor moving : Position)
    (anchorRow movingRow : Option NodeId) : Segment :=
  if anchor.offset ≤ moving.offset then
    .between (d.widen anchor anchorRow .beforeStart) (d.widen moving movingRow .afterEnd)
  else
    .between (d.widen moving movingRow .beforeStart) (d.widen anchor anchorRow .afterEnd)

/-- What a selection covers; `none` if no part of a table is involved. -/
def selectedRange? (d : Document L) (anchor moving : Position) : Option SelectedRange :=
  let b := d.boundaries anchor moving
  if b.isNone then none
  else if b.crossesTable then
    some <| .crossTable <| d.crossTableSegment b.anchor.position b.moving.position
      b.anchor.crossedRow? b.moving.crossedRow?
  else
    (b.cells?.bind fun (a, m) => d.cellRange? a m).map .cells

end Document

end RichTable
