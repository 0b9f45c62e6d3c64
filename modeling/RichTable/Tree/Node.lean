import RichTable.Length
import RichTable.Error

/-!
# Nodes

The data of a node: what its kind carries (`Payload`), its place in the tree, and the cached length
of its content. Tables carry their spacing and column widths, cells their spans, borders and
background. The fields `TableProps.columnCount` and `CellProps.columnIndex` belong to placement:
they mean something only after the table has been placed on its grid.
-/

namespace RichTable

/-- The widths of the four borders of a cell. -/
structure Thickness (L : Type) where
  left : L
  top : L
  right : L
  bottom : L
deriving Repr, DecidableEq

namespace Thickness

variable {L : Type}

/-- The same width on all sides. -/
def uniform (width : L) : Thickness L := ⟨width, width, width, width⟩

/-- The width of the widest side. -/
def widest [Length L] (t : Thickness L) : L :=
  Length.max (Length.max (Length.max t.left t.top) t.right) t.bottom

end Thickness

/-- The width of a table column. -/
inductive ColumnWidth (L : Type) where
  /-- An equal share of the width that the fixed columns leave. -/
  | auto
  /-- A width of its own. -/
  | fixed (width : L)
deriving Repr, DecidableEq

/-- What a table carries. -/
structure TableProps (L : Type) where
  /-- The gap between neighbouring cells; with none, neighbouring borders collapse. -/
  cellSpacing : L
  /-- Column widths, left to right; columns behind the last one are `auto`. -/
  columns : List (ColumnWidth L)
  /-- The number of grid columns, as of the last placement. -/
  columnCount : Nat := 0
deriving Repr, DecidableEq

/-- What a cell carries. -/
structure CellProps (L : Type) where
  columnSpan : Nat := 1
  rowSpan : Nat := 1
  /-- The first grid column of the cell, as of the last placement. -/
  columnIndex : Option Nat := none
  borders : Thickness L
  background : Option String := none
deriving Repr, DecidableEq

/-- What a node holds, by kind. -/
inductive Payload (L : Type) where
  | table (props : TableProps L)
  | rowGroup
  | row
  | cell (props : CellProps L)
  | block
  | inline (text : String)
  | other
deriving Repr, DecidableEq

namespace Payload

variable {L : Type}

/-- The kind of a payload. -/
def kind : Payload L → Kind
  | table _ => .table
  | rowGroup => .rowGroup
  | row => .row
  | cell _ => .cell
  | block => .block
  | inline _ => .inline
  | other => .other

/-- The number of symbols that a payload contributes by itself: one per character of a run. -/
def ownLength : Payload L → Nat
  | inline text => text.length
  | _ => 0

end Payload

/-- A table without spacing and column widths. -/
def TableProps.plain {L : Type} [Length L] : TableProps L := { cellSpacing := 0, columns := [] }

/-- An unspanned cell without borders and background. -/
def CellProps.plain {L : Type} [Length L] : CellProps L := { borders := .uniform 0 }

/-- An entry of the arena. A detached node keeps its entry and has no parent. -/
structure Node (L : Type) where
  payload : Payload L
  parent : Option NodeId := none
  children : List NodeId := []
  /-- The number of symbols between the start and the end of the node. -/
  contentLength : Nat := 0
deriving Repr, DecidableEq

/-- The number of grid columns that a cell takes up, at least one. -/
def CellProps.width {L : Type} (c : CellProps L) : Nat := max c.columnSpan 1

/-- The number of rows that a cell asks for, at least one. -/
def CellProps.height {L : Type} (c : CellProps L) : Nat := max c.rowSpan 1

end RichTable
