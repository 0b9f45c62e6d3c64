import RichTable.Grid.Query

/-!
# Borders

In a table without cell spacing the borders of neighbouring cells would be drawn twice. There every
cell keeps its right and bottom border, and its left and top border only at the outer edge of the
table. With spacing every cell has all four.
-/

namespace RichTable

variable {L : Type} [Length L]

/-- Gives a cell the borders that belong to its place. All sides are as wide as the widest was. -/
def CellProps.withCorrectBorders (spacing : L) (topEdge : Bool) (c : CellProps L) : CellProps L :=
  let width := c.borders.widest
  let borders :=
    if 0 < spacing then .uniform width
    else
      { left := if c.columnIndex = some 0 then width else 0
        top := if topEdge then width else 0
        right := width
        bottom := width }
  { c with borders }

namespace Action

/-- Corrects the borders of the cells stored in a row group. -/
def correctGroupBorders (table group : NodeId) : Action L Unit := do
  let props ← requireTable table
  let d ← get
  let top := (d.tableRows table).head?
  (d.children group).forM fun row =>
    (d.children row).forM fun cell =>
      updateCell cell (·.withCorrectBorders props.cellSpacing (some row == top))

/-- Corrects the borders of all cells of a table. -/
def correctBorders (table : NodeId) : Action L Unit := do
  ((← get).children table).forM (correctGroupBorders table)

end Action

end RichTable
