import RichTable.Grid.Sorting
import RichTable.Tree.Document

/-!
# Tables, row groups, rows and cells

Questions about the structure of a table. A cell is stored in one row and reaches into the rows
below it by its row span, up to the end of its row group. Questions about columns read the column
index of the cells, so they mean something after the table has been placed.
-/

namespace RichTable

/-- An interval of grid columns, both ends included. -/
structure ColumnRange where
  first : Nat
  last : Nat
deriving Repr, DecidableEq

namespace ColumnRange

/-- Whether a column lies in the range. -/
def covers (r : ColumnRange) (column : Nat) : Bool := r.first ≤ column && column ≤ r.last

/-- Whether `r` lies inside `s`. -/
def within (r s : ColumnRange) : Bool := s.first ≤ r.first && r.last ≤ s.last

/-- Whether the ranges have a column in common. -/
def meets (r s : ColumnRange) : Bool := r.first ≤ s.last && s.first ≤ r.last

/-- The smallest range that holds both. -/
def join (r s : ColumnRange) : ColumnRange := ⟨min r.first s.first, max r.last s.last⟩

/-- The order by first column, then by last column. -/
def le (r s : ColumnRange) : Bool := r.first < s.first || (r.first == s.first && r.last ≤ s.last)

end ColumnRange

/-- The order of numbers of which some are missing: the missing ones come first. -/
def missingFirstLE : Option Nat → Option Nat → Bool
  | none, _ => true
  | some _, none => false
  | some a, some b => a ≤ b

namespace Document

variable {L : Type}

/-! ## Rows and cells -/

/-- All rows of a table, group by group. -/
def tableRows (d : Document L) (table : NodeId) : List NodeId :=
  (d.children table).flatMap d.children

/-- The row that stores a cell. -/
def rowOf? (d : Document L) (cell : NodeId) : Option NodeId := d.parentOfKind? cell .row

/-- The row group of a row. -/
def groupOf? (d : Document L) (row : NodeId) : Option NodeId := d.parentOfKind? row .rowGroup

/-- The table of a row group. -/
def tableOf? (d : Document L) (group : NodeId) : Option NodeId := d.parentOfKind? group .table

/-- The table of a cell. -/
def tableOfCell? (d : Document L) (cell : NodeId) : Option NodeId :=
  ((d.rowOf? cell).bind d.groupOf?).bind d.tableOf?

/-- The index of the row that stores a cell, within its group. -/
def originRow? (d : Document L) (cell : NodeId) : Option Nat := (d.rowOf? cell).bind d.childIndex?

/-! ## Columns -/

/-- The number of grid columns of a table, as of its last placement. -/
def columnCount (d : Document L) (table : NodeId) : Nat :=
  ((d.table? table).map (·.columnCount)).getD 0

/-- The first grid column of a cell. -/
def columnIndex? (d : Document L) (cell : NodeId) : Option Nat :=
  (d.cell? cell).bind (·.columnIndex)

/-- The grid columns of a cell that has been placed. -/
def columnRange? (d : Document L) (cell : NodeId) : Option ColumnRange :=
  (d.cell? cell).bind fun props =>
    props.columnIndex.map fun first => ⟨first, first + props.width - 1⟩

/-- Whether a cell occupies a grid column. -/
def covers (d : Document L) (column : Nat) (cell : NodeId) : Bool :=
  (d.columnRange? cell).any (·.covers column)

/-- Puts cells in the order of their columns. -/
def sortByColumn (d : Document L) (cells : List NodeId) : List NodeId :=
  sortBy (fun a b => missingFirstLE (d.columnIndex? a) (d.columnIndex? b)) cells

/-! ## Spans -/

/-- The number of rows that a cell occupies: its row span, cut at the end of the row group. -/
def effectiveRowSpan (d : Document L) (cell : NodeId) : Nat :=
  match d.cell? cell with
  | none => 0
  | some props =>
    let remaining := do
      let row ← d.rowOf? cell
      let index ← d.childIndex? row
      let group ← d.groupOf? row
      return (d.children group).length - index
    min props.height (max (remaining.getD props.height) 1)

/-- The cells of earlier rows of the group whose row span reaches `row`, in column order. -/
def spannedCells (d : Document L) (row : NodeId) : List NodeId :=
  match d.groupOf? row, d.childIndex? row with
  | some group, some index =>
    d.sortByColumn <|
      ((d.children group).take index).zipIdx.flatMap fun (above, r) =>
        (d.children above).filter fun cell =>
          (d.cell? cell).any fun props => index < r + props.height
  | _, _ => []

/-- The cells that occupy a row: those stored in it, then those that reach it from above. -/
def occupants (d : Document L) (row : NodeId) : List NodeId := d.children row ++ d.spannedCells row

/-- The cell that occupies a column in a row. -/
def coveringCell? (d : Document L) (row : NodeId) (column : Nat) : Option NodeId :=
  (d.occupants row).find? (d.covers column)

/-- The cell stored in a row that occupies a column. -/
def storedCell? (d : Document L) (row : NodeId) (column : Nat) : Option NodeId :=
  (d.children row).find? (d.covers column)

/-- The number of columns up to the last one that is occupied in a row. -/
def rowWidth (d : Document L) (row : NodeId) : Nat :=
  ((d.occupants row).filterMap d.columnRange?).foldl (fun width r => max width (r.last + 1)) 0

/-- Whether a cell occupies a row of its own group. -/
def coversRow (d : Document L) (cell row : NodeId) : Bool :=
  match d.originRow? cell, d.childIndex? row with
  | some origin, some index => origin ≤ index && index < origin + d.effectiveRowSpan cell
  | _, _ => false

/-! ## Reading order -/

/-- The cell before `cell` in its row group, row by row. -/
def previousCell? (d : Document L) (cell : NodeId) : Option NodeId := do
  let row ← d.rowOf? cell
  match ← d.childIndex? cell with
  | index + 1 => (d.children row)[index]?
  | 0 =>
    let group ← d.groupOf? row
    let r ← d.childIndex? row
    ((d.children group).take r).reverse.findSome? fun above => (d.children above).getLast?

/-- The cell behind `cell` in its row group, row by row. -/
def nextCell? (d : Document L) (cell : NodeId) : Option NodeId := do
  let row ← d.rowOf? cell
  let index ← d.childIndex? cell
  match (d.children row)[index + 1]? with
  | some next => some next
  | none =>
    let group ← d.groupOf? row
    let r ← d.childIndex? row
    ((d.children group).drop (r + 1)).findSome? fun below => (d.children below).head?

end Document

/-- Creates a detached cell with the format and the spans of `source` and one empty paragraph. The
copy is unplaced. -/
def Action.copyCell {L : Type} (source : NodeId) : Action L NodeId := do
  let props ← requireCell source
  let cell ← create (.cell { props with columnIndex := none })
  let _ ← appendParagraph cell ""
  return cell

end RichTable
