import RichTable.Grid.Query

/-!
# Regular grids

A grid is regular if the cells of every row, together with those that reach it from above, cover
each column of the table exactly once. `gridFault?` names the first row that does not; it expects
the table to have been placed since its last change.
-/

namespace RichTable

/-- Follows ranges from column `next` on, each starting where the one before has ended. Gives the
column behind the last range, or the first range that does not fit with the column it should have
started at. -/
def followRanges : (next : Nat) → List ColumnRange → Except (ColumnRange × Nat) Nat
  | next, [] => .ok next
  | next, r :: rs => if r.first = next then followRanges (r.last + 1) rs else .error (r, next)

namespace Document

variable {L : Type}

/-- The first cell without a column. -/
def unplaced? (d : Document L) (cells : List NodeId) : Option NodeId :=
  cells.find? fun c => (d.columnRange? c).isNone

/-- The column ranges of cells, from left to right; unplaced cells have none. -/
def sortedRanges (d : Document L) (cells : List NodeId) : List ColumnRange :=
  sortBy ColumnRange.le (cells.filterMap d.columnRange?)

/-- What is wrong with a row that should cover columns `0` to `count - 1`. -/
def rowFault? (d : Document L) (count group index : Nat) (row : NodeId) : Option GridFault :=
  match d.unplaced? (d.occupants row) with
  | some cell => some (.unplaced cell index group)
  | none =>
    match followRanges 0 (d.sortedRanges (d.occupants row)) with
    | .error (r, next) =>
      if r.first < next then some (.overlap index group r.first)
      else some (.hole index group next)
    | .ok width => if width = count then none else some (.width index group width count)

/-- What is wrong with the first row of a table that does not tile. -/
def gridFault? (d : Document L) (table : NodeId) : Option GridFault :=
  (d.children table).zipIdx.findSome? fun (group, g) =>
    (d.children group).zipIdx.findSome? fun (row, r) => d.rowFault? (d.columnCount table) g r row

/-- Whether the placed cells of every row cover each column of the table exactly once. -/
def isRegular (d : Document L) (table : NodeId) : Bool :=
  (d.tableRows table).all fun row =>
    match followRanges 0 (d.sortedRanges (d.occupants row)) with
    | .ok width => width == d.columnCount table
    | .error _ => false

end Document

/-- Fails if the grid of a table is not regular. -/
def Action.checkGrid {L : Type} (table : NodeId) : Action L Unit := do
  match (← get).gridFault? table with
  | some fault => throw (.invariant fault)
  | none => return ()

end RichTable
