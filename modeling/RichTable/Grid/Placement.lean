import RichTable.Grid.Query

/-!
# Placing cells on the grid

Cells are placed row by row and from left to right, each at the first column that no cell from above
still occupies. Row spans end with their row group. The work is done on the extents of the cells
alone: `Placement.groupStarts` computes the first columns, `Placement.tableWidth` the number of
columns, and `Action.place` writes both into the document.
-/

namespace RichTable

/-- The columns and rows that a cell asks for. -/
structure Extent where
  width : Nat
  height : Nat
deriving Repr, DecidableEq, Inhabited

/-- The extent of a cell; spans of zero count as one. -/
def CellProps.extent {L : Type} (c : CellProps L) : Extent := ⟨c.width, c.height⟩

/-!
Below, `cover` holds for each column how many rows, counted from the row being placed, are still
occupied from above. Columns behind its end are free.
-/

namespace Placement

/-- The first free column from `column` on. -/
def firstFree (cover : List Nat) (column : Nat) : Nat :=
  column + ((cover.drop column).takeWhile (0 < ·)).length

/-- The first columns of the cells of a row, placed from `column` on. -/
def starts (cover : List Nat) : (column : Nat) → List Extent → List Nat
  | _, [] => []
  | column, e :: es =>
    let start := firstFree cover column
    start :: starts cover (start + e.width) es

/-- The column behind the last cell of a row, placed from `column` on. -/
def rowEnd (cover : List Nat) : (column : Nat) → List Extent → Nat
  | column, [] => column
  | column, e :: es => rowEnd cover (firstFree cover column + e.width) es

/-- The column behind the last one that is occupied from above. -/
def coverEnd (cover : List Nat) : Nat := (cover.reverse.dropWhile (· == 0)).length

/-- Records that a cell occupies its columns for the rows below the one it is stored in. -/
def occupy (cover : List Nat) (start : Nat) (e : Extent) : List Nat :=
  let padded := cover ++ List.replicate (start + e.width - cover.length) 0
  padded.take start ++ List.replicate e.width (e.height - 1) ++ padded.drop (start + e.width)

/-- What is occupied in the row below one whose cells start at `starts`. -/
def coverBelow (cover : List Nat) (starts : List Nat) (row : List Extent) : List Nat :=
  (starts.zip row).foldl (fun cover (start, e) => occupy cover start e) (cover.map (· - 1))

/-- The first columns of all cells of a row group. -/
def groupStarts : (cover : List Nat) → List (List Extent) → List (List Nat)
  | _, [] => []
  | cover, row :: rows =>
    let s := starts cover 0 row
    s :: groupStarts (coverBelow cover s row) rows

/-- The number of columns that a row group needs. -/
def groupWidth : (cover : List Nat) → List (List Extent) → Nat
  | _, [] => 0
  | cover, row :: rows =>
    max (max (rowEnd cover 0 row) (coverEnd cover))
      (groupWidth (coverBelow cover (starts cover 0 row) row) rows)

/-- The number of columns that a table needs. -/
def tableWidth (groups : List (List (List Extent))) : Nat :=
  groups.foldl (fun width group => max width (groupWidth [] group)) 0

end Placement

namespace Document

variable {L : Type}

/-- The cells of a table, by row group and row. -/
def cellGrid (d : Document L) (table : NodeId) : List (List (List NodeId)) :=
  (d.children table).map fun group => (d.children group).map d.children

/-- The extent of a cell; other nodes have none. -/
def extent (d : Document L) (cell : NodeId) : Extent :=
  ((d.cell? cell).map (·.extent)).getD ⟨0, 0⟩

/-- The extents of the cells of a table, by row group and row. -/
def extents (d : Document L) (table : NodeId) : List (List (List Extent)) :=
  (d.cellGrid table).map (·.map (·.map d.extent))

/-- Cells of a table and the columns they are to start at, in reading order. -/
def placement (d : Document L) (table : NodeId) : List (NodeId × Nat) :=
  (d.cellGrid table).flatten.flatten.zip
    ((d.extents table).map (Placement.groupStarts [])).flatten.flatten

/-- Writes the column index of cells. -/
def writeColumns (d : Document L) (placed : List (NodeId × Nat)) : Document L :=
  placed.foldl
    (fun d (cell, column) =>
      d.modifyCell cell fun props => { props with columnIndex := some column })
    d

/-- The document with a table placed on its grid. -/
def placed (d : Document L) (table : NodeId) : Document L :=
  (d.writeColumns (d.placement table)).modifyTable table fun props =>
    { props with columnCount := Placement.tableWidth (d.extents table) }

end Document

/-- Places a table on its grid and returns the number of its columns. Fails if `table` is not a
table or one of its rows holds anything but cells. -/
def Action.place {L : Type} (table : NodeId) : Action L Nat := do
  let _ ← requireTable table
  let d ← get
  match (d.cellGrid table).flatten.flatten.find? (fun c => !d.isKind c .cell) with
  | some c => throw (.unexpectedElement c .cell)
  | none =>
    set (d.placed table)
    return Placement.tableWidth (d.extents table)

end RichTable
