import RichTable.Length

/-!
# Settings

What table construction, border correction, column layout and column dragging can be tuned by.
-/

namespace RichTable

/-- The settings of an editor. -/
structure Config (L : Type) where
  /-- The border width of new cells. -/
  borderThickness : L
  /-- The cell spacing of new tables that do not say. -/
  cellSpacing : L
  /-- The width that a table may take up. -/
  autofitWidth : L
  /-- How far from a column border a drag may start. -/
  resizeTolerance : L
deriving Repr, DecidableEq

/-- The settings that hold where nothing else is said. -/
def Config.standard {L : Type} [Length L] : Config L where
  borderThickness := Nat.cast 1
  cellSpacing := 0
  autofitWidth := Nat.cast 600
  resizeTolerance := Nat.cast 4

end RichTable
