import RichTable.Grid.Border
import RichTable.Grid.Placement
import RichTable.Grid.Tiling
import RichTable.Selection.Range

/-!
# Inserting and deleting rows

New rows copy the structure of a reference row. A cell that spans over the gap grows instead of
being copied. When rows are deleted, a cell that reaches into them from above shrinks, and a cell
that starts in them and reaches past them is recreated, empty, in the row that follows. A row group
without rows is removed, and so is a table that has lost its only row group.
-/

namespace RichTable

/-- On which side of a reference new rows or columns go. -/
inductive Side where
  | before
  | after
deriving Repr, DecidableEq, Inhabited

namespace Document

variable {L : Type}

/-- Cuts the row span of every cell of a group to the rows that the cell occupies. -/
def clampRowSpans (d : Document L) (group : NodeId) : Document L :=
  ((d.children group).flatMap d.children).foldl
    (fun d cell =>
      let span := d.effectiveRowSpan cell
      d.modifyCell cell fun props => { props with rowSpan := max span 1 })
    d

/-- The row next to row `index` of a group, on the side where new rows go. -/
def neighbourRow? (d : Document L) (group : NodeId) (index : Nat) : Side → Option NodeId
  | .before => if index = 0 then none else (d.children group)[index - 1]?
  | .after => (d.children group)[index + 1]?

/-- The cells stored in some rows of a group, each with the first and the last row that it
occupies. -/
def rowIntervals (d : Document L) (rows : List NodeId) : List (NodeId × Nat × Nat) :=
  rows.zipIdx.flatMap fun (row, r) =>
    (d.children row).map fun cell => (cell, r, r + max (d.effectiveRowSpan cell) 1 - 1)

end Document

namespace Action

variable {L : Type}

/-- Brings borders and placement up to date and fails if the grid is not regular. -/
def settle [Length L] (table : NodeId) : Action L Unit := do
  correctBorders table
  let _ ← place table
  checkGrid table

/-- Creates a row with an unspanned copy of each template and inserts it into a group. -/
def insertRowOf (templates : List NodeId) (group : NodeId) (index : Nat) : Action L NodeId := do
  let row ← create .row
  templates.forM fun template => do
    let copy ← copyCell template
    updateCell copy ({ · with rowSpan := 1 })
    appendChild row copy
  insertChild group index row
  return row

/-- Inserts `count` rows next to a reference row and returns the range of the new rows; `none` if
there is nothing to insert. -/
def insertRows [Length L] (reference : NodeId) (count : Nat) (side : Side) :
    Action L (Option CellRange) := do
  if count = 0 then return none
  let group ← requireParent reference .rowGroup
  let table ← requireParent group .table
  let _ ← place table
  modify (·.clampRowSpans group)
  let d ← get
  match d.childIndex? reference with
  | none => throw (.unknownNode reference)
  | some index =>
    let neighbour := d.neighbourRow? group index side
    let bridges := fun cell => neighbour.any (d.coversRow cell)
    let occupants := d.sortByColumn (d.occupants reference)
    (occupants.filter bridges).forM fun cell =>
      updateCell cell fun props => { props with rowSpan := props.rowSpan + count }
    let first := match side with
      | .before => index
      | .after => index + 1
    let rows ← (List.range count).mapM fun i =>
      insertRowOf (occupants.filter (!bridges ·)) group (first + i)
    settle table
    return some ((← get).wholeRows table rows)

/-- Recreates a cell, empty, in row `next`, left of the cells that come behind it by column. -/
def recreateIn (next : NodeId) (cell : NodeId) (rowSpan : Nat) : Action L Unit := do
  let column := (← requireCell cell).columnIndex
  let copy ← copyCell cell
  updateCell copy ({ · with rowSpan, columnIndex := column })
  let d ← get
  let earlier := (d.children next).takeWhile fun c => !missingFirstLE column (d.columnIndex? c)
  insertChild next earlier.length copy

/-- Deletes rows `first` to `last` of a row group. The answer is `false`, and nothing is done, if
there are no such rows. -/
def deleteRowInterval [Length L] (group : NodeId) (first last : Nat) : Action L Bool := do
  let table ← requireParent group .table
  let rows := (← get).children group
  if last < first ∨ rows.length ≤ last then return false
  if first = 0 ∧ last + 1 = rows.length then
    if ((← get).children table).length = 1 then
      detach table
      return true
    detach group
    settle table
    return true
  let _ ← place table
  modify (·.clampRowSpans group)
  let intervals := (← get).rowIntervals (rows.take (last + 1))
  (intervals.filter fun (_, top, bottom) => top < first && first ≤ bottom).forM
    fun (cell, top, bottom) =>
      updateCell cell ({ · with rowSpan := bottom - top + 1 - (min bottom last - first + 1) })
  match rows[last + 1]? with
  | some next =>
    (intervals.filter fun (_, top, bottom) => first ≤ top && last < bottom).forM
      fun (cell, _, bottom) => recreateIn next cell (bottom - last)
  | none => pure ()
  ((rows.take (last + 1)).drop first).forM detach
  settle table
  return true

/-- Deletes the rows that a selection touches, and collapses the selection to its start. The answer
is `false`, and the selection is kept, if its ends are not cells of one row group. -/
def deleteRows [Length L] (selection : Segment) : Action L (Bool × Segment) := do
  match (← get).boundaryCells? selection.start selection.stop with
  | none => return (false, selection)
  | some (x, y) =>
    let xRow ← requireParent x .row
    let yRow ← requireParent y .row
    let group ← requireParent xRow .rowGroup
    let d ← get
    if d.parent? yRow ≠ some group then return (false, selection)
    match d.childIndex? xRow, d.childIndex? yRow with
    | some a, some b =>
      let bottom :=
        max (a + max (d.effectiveRowSpan x) 1 - 1) (b + max (d.effectiveRowSpan y) 1 - 1)
      if ← deleteRowInterval group (min a b) bottom then
        return (true, .collapsed selection.start)
      return (false, selection)
    | _, _ => return (false, selection)

end Action

end RichTable
