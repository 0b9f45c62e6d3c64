import RichTable.Edit.Row

/-!
# Inserting and deleting columns

Columns are not stored: they are the union of the column ranges of cells. Inserting a column makes
the wide cells at its place grow and copies the narrow ones; deleting a column makes wide cells
shrink and removes narrow ones. A cell that reaches down from an earlier row is dealt with once, in
the row that stores it.
-/

namespace RichTable

variable {L : Type}

/-- The column widths after inserting a column behind column `after`, or before the first one: the
new column has the width of its neighbour. Widths behind the end are not recorded. -/
def insertWidth (after : Option Nat) (columns : List (ColumnWidth L)) : List (ColumnWidth L) :=
  let index := (after.map (· + 1)).getD 0
  if index ≤ columns.length ∧ columns ≠ [] then
    columns.insertIdx index
      ((columns[min (after.getD 0) (columns.length - 1)]?).getD .auto)
  else columns

namespace Action

/-- Inserts a column into one row, at the stored cell that occupies column `target`. -/
def widenRow (target : Nat) (behind : Bool) (row : NodeId) : Action L Unit := do
  match (← get).storedCell? row target with
  | none => return ()
  | some cell =>
    let props ← requireCell cell
    if 1 < props.columnSpan then
      updateCell cell fun props => { props with columnSpan := props.columnSpan + 1 }
    else
      let copy ← copyCell cell
      let index := ((← get).childIndex? cell).getD 0
      insertChild row (if behind then index + 1 else index) copy

/-- Removes a column from one row, at the stored cell that occupies it. -/
def narrowRow (column : Nat) (row : NodeId) : Action L Unit := do
  match (← get).storedCell? row column with
  | none => return ()
  | some cell =>
    let props ← requireCell cell
    if 1 < props.columnSpan then
      updateCell cell fun props => { props with columnSpan := props.columnSpan - 1 }
    else detach cell

variable [Length L]

/-- Inserts a column behind column `after`, or before the first one. -/
def insertColumn (table : NodeId) (after : Option Nat) : Action L Unit := do
  let count ← place table
  let target := (after.map (min · (count - 1))).getD 0
  ((← get).tableRows table).forM (widenRow target after.isSome)
  modify (·.modifyTable table fun props =>
    { props with columns := insertWidth after props.columns })
  let _ ← place table
  checkGrid table
  correctBorders table

/-- Deletes a column. The answer is `false` for a column that is not there and for the only one. -/
def deleteColumn (table : NodeId) (column : Nat) : Action L Bool := do
  let count ← place table
  if count ≤ 1 ∨ count ≤ column then return false
  ((← get).tableRows table).forM (narrowRow column)
  modify (·.modifyTable table fun props => { props with columns := props.columns.eraseIdx column })
  let _ ← place table
  checkGrid table
  correctBorders table
  return true

/-- The table of a selection and its columns, after placing the table. -/
def selectedColumns (selection : Segment) : Action L (Option (NodeId × ColumnRange)) := do
  let d ← get
  match d.boundaryCells? selection.start selection.stop with
  | none => return none
  | some (a, b) =>
    match d.tableOfCell? a with
    | none => return none
    | some table =>
      let _ ← place table
      return ((← get).columnBounds? a b).map (table, ·)

/-- Inserts `count` columns, each behind column `after` or before the first one. -/
def insertColumnTimes (table : NodeId) (after : Option Nat) : (count : Nat) → Action L Unit
  | 0 => return ()
  | count + 1 => do
    insertColumn table after
    insertColumnTimes table after count

/-- Deletes column `column` up to `count` times, and tells whether it could be done each time. -/
def deleteColumnTimes (table : NodeId) (column : Nat) : (count : Nat) → Action L Bool
  | 0 => return true
  | count + 1 => do
    if ← deleteColumn table column then deleteColumnTimes table column count else return false

/-- Inserts `count` columns next to the selected ones. The answer is `false` if there is nothing to
insert or the selection has no columns. -/
def insertColumns (selection : Segment) (count : Nat) (side : Side) : Action L Bool := do
  if count = 0 then return false
  match ← selectedColumns selection with
  | none => return false
  | some (table, columns) =>
    let after := match side with
      | .before => if columns.first = 0 then none else some (columns.first - 1)
      | .after => some columns.last
    insertColumnTimes table after count
    return true

/-- Deletes `count` columns from the first selected one on. The answer is `false` if there are not
so many, or none would be left or deleted. -/
def deleteColumns (selection : Segment) (count : Nat) : Action L Bool := do
  match ← selectedColumns selection with
  | none => return false
  | some (table, columns) =>
    let total := (← get).columnCount table
    if count = 0 ∨ total ≤ count ∨ total < columns.first + count then return false
    deleteColumnTimes table columns.first count

end Action

end RichTable
