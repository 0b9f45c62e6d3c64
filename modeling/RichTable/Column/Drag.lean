import RichTable.Column.Layout

/-!
# Dragging a column border

A drag remembers the layout it started with. Moving the pointer previews the new width of the
dragged column; dropping it writes the widths of all columns at once. The right border of a column
can move left by the width of the column, and right by the width of the next column, or by the slack
of the table if there is none.
-/

namespace RichTable

/-- A column border being dragged. -/
structure ColumnDrag (L : Type) where
  table : NodeId
  column : Nat
  /-- The column when the drag started. -/
  initial : ColumnRect L
  /-- The column as it is shown. -/
  rect : ColumnRect L
  /-- The widths of all columns when the drag started. -/
  widths : List L
  slack : L
  /-- Where the drag started. -/
  originX : L
deriving Repr, DecidableEq

namespace ColumnDrag

variable {L : Type} [Length L]

/-- Starts a drag of the right border of a column at `originX`. -/
def ofLayout? (table : NodeId) (column : Nat) (layout : ColumnLayout L) (originX : L) :
    Option (ColumnDrag L) :=
  (layout.rect? column).map fun rect =>
    { table, column, initial := rect, rect, originX
      widths := layout.widths
      slack := layout.slack }

/-- Starts a drag of the column border closest to `x`, if there is one within `tolerance`. -/
def start? (d : Document L) (table : NodeId) (x autofitWidth tolerance : L) :
    Option (ColumnDrag L) := do
  let layout ← ColumnLayout.compute? d table autofitWidth
  let column ← layout.borderAt? x tolerance
  ofLayout? table column layout x

/-- How far the border can move to the left. -/
def leftMax (s : ColumnDrag L) : L := s.initial.width

/-- How far the border can move to the right. -/
def rightMax (s : ColumnDrag L) : L :=
  match s.widths[s.column + 1]? with
  | some next => next
  | none => Length.max s.slack 0

/-- How far the border has moved when the pointer is at `x`. -/
def delta (s : ColumnDrag L) (x : L) : L := Length.clamp (x - s.originX) (-s.leftMax) s.rightMax

/-- Shows the dragged column as it would be with the pointer at `x`. -/
def preview (s : ColumnDrag L) (x : L) : ColumnDrag L :=
  { s with rect := { s.rect with width := s.initial.width + s.delta x } }

/-- The widths of all columns after dropping the border at `x`: what the column gains, its right
neighbour loses. -/
def widthsAt (s : ColumnDrag L) (x : L) : List L :=
  (s.widths.modify s.column (· + s.delta x)).modify (s.column + 1) (· - s.delta x)

/-- Drops the border at `x`: every column becomes fixed. Nothing happens, and the answer is `false`,
if the number of columns has changed since the drag started. -/
def commit (s : ColumnDrag L) (d : Document L) (x : L) : Bool × Document L :=
  if d.columnCount s.table ≠ s.widths.length then (false, d)
  else if (d.table? s.table).isNone then (false, d)
  else
    (true, d.modifyTable s.table fun props =>
      { props with columns := (s.widthsAt x).map fun w => .fixed (Length.max w 0) })

end ColumnDrag

end RichTable
