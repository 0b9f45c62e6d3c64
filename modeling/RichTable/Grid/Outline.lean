import RichTable.Config
import RichTable.Grid.Query
import RichTable.Tree.Text

/-!
# Outlines of tables

An outline describes a table by its row groups, rows and cells, with one text per cell. A table can
be built from an outline and described by one. Building ignores the column indices of an outline;
describing fills them in.
-/

namespace RichTable

/-- The description of a cell. -/
structure CellOutline where
  columnSpan : Nat := 1
  rowSpan : Nat := 1
  text : String := ""
  background : Option String := none
  columnIndex : Option Nat := none
deriving Repr, DecidableEq

/-- The description of a table. -/
structure TableOutline (L : Type) where
  /-- The cell spacing; without one the settings of the editor decide. -/
  cellSpacing : Option L := none
  columns : List (ColumnWidth L) := []
  /-- Row groups of rows of cells. -/
  groups : List (List (List CellOutline))
deriving Repr, DecidableEq

namespace TableOutline

variable {L : Type}

/-- All rows, group by group. -/
def rows (t : TableOutline L) : List (List CellOutline) := t.groups.flatten

/-- One row group of `rows` times `columns` unspanned cells, each with its place as its text. -/
def grid (rows columns : Nat) : TableOutline L where
  groups := [(List.range rows).map fun r =>
    (List.range columns).map fun c => { text := s!"r{r}c{c}" }]

end TableOutline

namespace Action

variable {L : Type}

/-- Builds a cell at the end of a row. -/
def buildCell (config : Config L) (row : NodeId) (c : CellOutline) : Action L Unit := do
  let cell ← create <| .cell
    { columnSpan := max c.columnSpan 1
      rowSpan := max c.rowSpan 1
      borders := .uniform config.borderThickness
      background := c.background }
  let _ ← appendParagraph cell c.text
  appendChild row cell

/-- Builds a row at the end of a row group. -/
def buildRow (config : Config L) (group : NodeId) (cells : List CellOutline) : Action L Unit := do
  let row ← create .row
  cells.forM (buildCell config row)
  appendChild group row

/-- Builds a row group at the end of a table. -/
def buildGroup (config : Config L) (table : NodeId) (rows : List (List CellOutline)) :
    Action L Unit := do
  let group ← create .rowGroup
  rows.forM (buildRow config group)
  appendChild table group

/-- Builds a table at the end of `parent` and returns its id. The table is not placed yet. -/
def buildTable (config : Config L) (parent : NodeId) (outline : TableOutline L) :
    Action L NodeId := do
  let table ← create <| .table
    { cellSpacing := outline.cellSpacing.getD config.cellSpacing
      columns := outline.columns }
  outline.groups.forM (buildGroup config table)
  appendChild parent table
  return table

end Action

namespace Document

variable {L : Type}

/-- The description of a cell. -/
def cellOutline? (d : Document L) (cell : NodeId) : Option CellOutline :=
  (d.cell? cell).map fun props =>
    { columnSpan := props.columnSpan
      rowSpan := props.rowSpan
      text := d.plainText cell
      background := props.background
      columnIndex := props.columnIndex }

/-- The description of a table. -/
def outline? (d : Document L) (table : NodeId) : Option (TableOutline L) :=
  (d.table? table).map fun props =>
    { cellSpacing := some props.cellSpacing
      columns := props.columns
      groups := (d.children table).map fun group =>
        (d.children group).map fun row => (d.children row).filterMap d.cellOutline? }

end Document

end RichTable
