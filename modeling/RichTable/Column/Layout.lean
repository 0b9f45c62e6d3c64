import RichTable.Tree.Document
import RichTable.Grid.Query

/-!
# Layout of columns

Fixed columns have their own width, and the others share what the fixed widths and the gaps leave of
the available width. A gap as wide as the cell spacing stands before, between and behind the
columns. The layout finds the column and the column border near a point.
-/

namespace RichTable

/-- Left edges and widths of the columns of a table. -/
structure ColumnLayout (L : Type) where
  positions : List L
  widths : List L
  cellSpacing : L
  /-- The width that the table may take up. -/
  autofitWidth : L
deriving Repr, DecidableEq

/-- The left edge and the width of one column. -/
structure ColumnRect (L : Type) where
  x : L
  width : L
deriving Repr, DecidableEq

namespace ColumnWidth

variable {L : Type} [Length L]

/-- The width that a column has by itself, never negative. -/
def ownWidth : ColumnWidth L → L
  | fixed width => Length.max width 0
  | auto => 0

/-- The width of a column when each automatic one gets `share`. -/
def resolve (share : L) : ColumnWidth L → L
  | fixed width => Length.max width 0
  | auto => share

/-- Whether a column takes its share of what is left. -/
def isAuto : ColumnWidth L → Bool
  | auto => true
  | fixed _ => false

end ColumnWidth

/-- The widths of `count` columns; those that are not given are automatic. -/
def TableProps.effectiveColumns {L : Type} (props : TableProps L) (count : Nat) :
    List (ColumnWidth L) :=
  (List.range count).map fun i => (props.columns[i]?).getD .auto

namespace ColumnLayout

variable {L : Type} [Length L]

/-- The share of each automatic column. -/
def autoShare (columns : List (ColumnWidth L)) (gaps autofitWidth : L) : L :=
  let autos := (columns.filter ColumnWidth.isAuto).length
  if 0 < autos then
    let fixedWidth := Length.sum (columns.map ColumnWidth.ownWidth)
    Length.max (autofitWidth - fixedWidth - gaps) 0 / Nat.cast autos
  else 0

/-- The left edges of columns, the first one at `x`. -/
def edges (spacing : L) : (x : L) → (widths : List L) → List L
  | _, [] => []
  | x, w :: ws => x :: edges spacing (x + (w + spacing)) ws

/-- Lays out the columns of a table; `none` before the table has been placed. -/
def compute? (d : Document L) (table : NodeId) (autofitWidth : L) : Option (ColumnLayout L) :=
  match d.table? table with
  | none => none
  | some props =>
    let count := props.columnCount
    if count = 0 then none
    else
      let spacing := Length.max props.cellSpacing 0
      let columns := props.effectiveColumns count
      let share := autoShare columns (spacing * Nat.cast (count + 1)) autofitWidth
      let widths := columns.map (ColumnWidth.resolve share)
      some
        { positions := edges spacing spacing widths
          widths
          cellSpacing := spacing
          autofitWidth }

/-- The width of all gaps. -/
def totalSpacing (l : ColumnLayout L) : L := l.cellSpacing * Nat.cast (l.widths.length + 1)

/-- The width of all columns and gaps. -/
def totalWidth (l : ColumnLayout L) : L := Length.sum l.widths + l.totalSpacing

/-- The width by which the table could still grow. -/
def slack (l : ColumnLayout L) : L := Length.max (l.autofitWidth - l.totalWidth) 0

/-- Where a column stands. -/
def rect? (l : ColumnLayout L) (column : Nat) : Option (ColumnRect L) :=
  match l.positions[column]?, l.widths[column]? with
  | some x, some width => some { x, width }
  | _, _ => none

/-- The last column that does not start behind `x`; the first one if all do. -/
def columnAt? (l : ColumnLayout L) (x : L) : Option Nat :=
  if l.positions.isEmpty then none
  else some ((l.positions.takeWhile fun p => ¬ x < p).length - 1)

/-- The distance of `x` from the right border of a column, if it is at most `tolerance`. -/
def borderDistance? (l : ColumnLayout L) (x tolerance : L) (column : Nat) : Option L :=
  (l.rect? column).bind fun r =>
    let distance := Length.abs (r.x + r.width - x)
    if distance ≤ tolerance then some distance else none

/-- The column whose right border is closest to `x`, if it lies within `tolerance`. Only the column
at `x` and the one to its left need to be looked at; on a tie the left one is taken. -/
def borderAt? (l : ColumnLayout L) (x tolerance : L) : Option Nat :=
  (l.columnAt? x).bind fun near =>
    let left := if near = 0 then none else l.borderDistance? x tolerance (near - 1)
    match left, l.borderDistance? x tolerance near with
    | none, none => none
    | some _, none => some (near - 1)
    | none, some _ => some near
    | some a, some b => if b < a then some near else some (near - 1)

end ColumnLayout

end RichTable
