import RichTable.Edit.Row

/-!
# Splitting cells

A cell that spans several columns can give away columns on its right, each to a new cell with an
empty paragraph. Cells are not split into rows.
-/

namespace RichTable.Action

variable {L : Type}

/-- Takes the last column of a cell away and gives it to a new cell behind it, `count` times. -/
def carve (row cell : NodeId) : (count : Nat) → Action L Unit
  | 0 => return ()
  | count + 1 => do
    let copy ← copyCell cell
    updateCell copy ({ · with columnSpan := 1 })
    insertChild row ((((← get).childIndex? cell).map (· + 1)).getD 0) copy
    updateCell cell fun props => { props with columnSpan := max (props.columnSpan - 1) 1 }
    carve row cell count

/-- Splits up to `horizontal` columns off the single selected cell, and returns a caret in it;
`none` if the selection is not one merged cell or nothing is split off. A vertical count is not
used. -/
def splitCell [Length L] (selection : Segment) (horizontal : Nat) (_vertical : Nat) :
    Action L (Option Segment) := do
  match (← get).boundaryCells? selection.start selection.stop with
  | none => return none
  | some (cell, other) =>
    if cell ≠ other then return none
    let props ← requireCell cell
    if props.columnSpan ≤ 1 ∧ props.rowSpan ≤ 1 then return none
    let count := min horizontal (props.columnSpan - 1)
    if count = 0 then return none
    let row ← requireParent cell .row
    let group ← requireParent row .rowGroup
    let table ← requireParent group .table
    carve row cell count
    let _ ← place table
    checkGrid table
    correctGroupBorders table group
    return ((← get).firstCaret? cell).map .collapsed

end RichTable.Action
