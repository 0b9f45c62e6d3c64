/-!
# Lengths

Widths, spacings and border thicknesses are lengths. The library is polymorphic in the type of
lengths `L`. `Length L` asks for the arithmetic and the comparisons that layout needs, and nothing
of their laws: documents on a screen use `Float`, and rounding breaks most of them.
-/

namespace RichTable

/-- Arithmetic and decidable comparisons of lengths. -/
class Length (L : Type) extends
    Zero L, Neg L, Add L, Sub L, Mul L, Div L, NatCast L, LT L, LE L where
  /-- Strict comparison is decidable. -/
  decLT (a b : L) : Decidable (a < b)
  /-- Comparison is decidable. -/
  decLE (a b : L) : Decidable (a ≤ b)

instance Length.decidableLT {L : Type} [Length L] (a b : L) : Decidable (a < b) := Length.decLT a b

instance Length.decidableLE {L : Type} [Length L] (a b : L) : Decidable (a ≤ b) := Length.decLE a b

instance : Length Float where
  zero := 0
  natCast := Float.ofNat
  decLT _ _ := inferInstance
  decLE _ _ := inferInstance

namespace Length

variable {L : Type} [Length L]

/-- The larger of two lengths. A value that is not comparable to itself loses to any other, and of
two equivalent values the right one is taken. -/
def max (a b : L) : L := if b < a ∨ ¬ b ≤ b then a else b

/-- The distance of a length from zero. -/
def abs (a : L) : L := if a < 0 then -a else a

/-- The nearest length between `lo` and `hi`. -/
def clamp (a lo hi : L) : L :=
  let raised := if a < lo then lo else a
  if hi < raised then hi else raised

/-- The sum of a list, added up from the left. -/
def sum (as : List L) : L := as.foldl (· + ·) 0

end Length

end RichTable
