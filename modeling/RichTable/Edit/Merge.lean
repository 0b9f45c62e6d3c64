import RichTable.Edit.Row
import RichTable.Tree.Text

/-!
# Merging cells

A rectangle of one row group is merged into its top left cell if every cell that reaches into the
rectangle lies wholly inside it. The merged cell takes over the content of the others. Rows that are
left without cells of their own are deleted.
-/

namespace RichTable

/-- Rows `top` to `bottom` of a row group and columns `left` to `right`. -/
structure CellRect where
  top : Nat
  bottom : Nat
  left : Nat
  right : Nat
deriving Repr, DecidableEq

/-- The columns of a rectangle. -/
def CellRect.columns (r : CellRect) : ColumnRange := ⟨r.left, r.right⟩

/-- The rows of a group that lie in a rectangle. -/
def CellRect.rowsOf (r : CellRect) (rows : List NodeId) : List NodeId :=
  (rows.take (r.bottom + 1)).drop r.top

namespace Document

variable {L : Type}

/-- Whether a cell occupies one of some columns. -/
def meetsColumns (d : Document L) (columns : ColumnRange) (cell : NodeId) : Bool :=
  (d.columnRange? cell).any (·.meets columns)

/-- Whether a cell lies wholly inside a rectangle of its row group. -/
def inRect (d : Document L) (rect : CellRect) (cell : NodeId) : Bool :=
  (d.columnRange? cell).any (·.within rect.columns) &&
    (d.originRow? cell).any fun top =>
      rect.top ≤ top && top + d.effectiveRowSpan cell - 1 ≤ rect.bottom

/-- The cell at every place of a rectangle, in reading order; `none` if there is a hole or a cell
that does not lie wholly inside. -/
def cellsOfRect? (d : Document L) (rect : CellRect) (rows : List NodeId) : Option (List NodeId) :=
  let places := (rect.rowsOf rows).flatMap fun row =>
    (List.range' rect.left (rect.right + 1 - rect.left)).map fun column => (row, column)
  places.mapM fun (row, column) => (d.coveringCell? row column).filter (d.inRect rect)

/-- The cells to be merged for a rectangle, each once and in reading order; `none` if the rectangle
is out of range or cuts a cell. -/
def mergeCandidates? (d : Document L) (table : NodeId) (rect : CellRect) (rows : List NodeId) :
    Option (List NodeId) :=
  match rows[rect.top]?, rows[rect.bottom]? with
  | some topRow, some bottomRow =>
    if rect.bottom < rect.top ∨ rect.right < rect.left ∨ d.columnCount table ≤ rect.right then none
    else if d.rowWidth topRow ≠ d.rowWidth bottomRow then none
    else if (d.spannedCells topRow).any (d.meetsColumns rect.columns) then none
    else (d.cellsOfRect? rect rows).map List.eraseDups
  | _, _ => none

end Document

namespace Action

variable {L : Type}

/-- Moves a child of another cell into `survivor`, if there is anything in it. -/
def moveContent (survivor child : NodeId) : Action L Unit := do
  if (← get).hasContent child then
    detach child
    appendChild survivor child

/-- Moves the content of the other cells into `survivor`, in order. An empty survivor loses its
placeholder paragraphs if there is anything to take over. -/
def absorbContent (survivor : NodeId) (cells : List NodeId) : Action L Unit := do
  let d ← get
  let donors := cells.filter fun c => c != survivor && d.hasContent c
  if donors.isEmpty then return ()
  if !d.hasContent survivor then
    (d.children survivor).forM detach
  donors.forM fun donor => do
    ((← get).children donor).forM (moveContent survivor)

/-- Removes merged cells from a row below the top row. A row that holds no other cell is deleted,
and cells that reach it from above and are not merged lose a row. The answer tells whether the row
was deleted. -/
def clearRow (survivor : NodeId) (merged : List NodeId) (row : NodeId) : Action L Bool := do
  let d ← get
  let stored := d.children row
  let inner := stored.filter merged.contains
  if inner.length = stored.length then
    ((d.spannedCells row).filter fun c => !(merged.contains c || c == survivor)).forM fun c =>
      updateCell c fun props => { props with rowSpan := max (props.rowSpan - 1) 1 }
    detach row
    return true
  inner.forM detach
  return false

/-- Merges a rectangle of a row group into its top left cell, and returns a caret in the merged
cell; `none`, and nothing is done, if the rectangle is out of range or cuts a cell. -/
def mergeRect [Length L] (group : NodeId) (rect : CellRect) : Action L (Option Segment) := do
  let table ← requireParent group .table
  let _ ← place table
  let d ← get
  let rows := d.children group
  match d.mergeCandidates? table rect rows with
  | none => return none
  | some merged =>
    let topCells := ((rows[rect.top]?).map d.children).getD []
    match topCells.find? fun c => (d.columnRange? c).any (·.first == rect.left) with
    | none => throw (.invariant (.noCellAt rect.left))
    | some survivor =>
      absorbContent survivor merged
      updateCell survivor
        ({ · with rowSpan := rect.bottom - rect.top + 1, columnSpan := rect.right - rect.left + 1 })
      let cleared ← ((rect.rowsOf rows).drop 1).reverse.mapM (clearRow survivor merged)
      (merged.filter (· != survivor)).forM detach
      if rect.bottom + 1 < rows.length then
        updateCell survivor fun props =>
          { props with rowSpan := props.rowSpan - cleared.count true }
      let _ ← place table
      checkGrid table
      correctGroupBorders table group
      return ((← get).firstCaret? survivor).map .collapsed

/-- The row group of a cell, or an error that names the first node out of place. -/
def requireGroup (cell : NodeId) : Action L NodeId := do
  requireParent (← requireParent cell .row) .rowGroup

/-- Merges the rectangle between the cells at the ends of a selection. -/
def mergeCells [Length L] (selection : Segment) : Action L (Option Segment) := do
  match (← get).boundaryCells? selection.start selection.stop with
  | none => return none
  | some (a, b) =>
    let group ← requireGroup a
    let other ← requireGroup b
    if group ≠ other then return none
    let table ← requireParent group .table
    let _ ← place table
    let d ← get
    match d.originRow? a, d.originRow? b, d.columnBounds? a b with
    | some ra, some rb, some columns =>
      mergeRect group
        { top := min ra rb
          bottom := max (ra + d.effectiveRowSpan a - 1) (rb + d.effectiveRowSpan b - 1)
          left := columns.first
          right := columns.last }
    | _, _, _ => return none

end Action

end RichTable
