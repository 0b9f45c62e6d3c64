import RichTable.Json.Numeral

/-!
# Shortest decimals

The shortest decimal that reads back as a given binary number. A binary number `m * 2 ^ q` is what
all reals between its two neighbours' midpoints round to; the midpoints themselves do if `m` is
even. Of the decimals in this interval we take the one with the fewest digits, and among those the
one closest to the number. All comparisons are exact.
-/

namespace RichTable

/-- A decimal number `digits * 10 ^ exponent`. -/
structure Decimal where
  digits : Nat
  exponent : Int
deriving Repr, DecidableEq

namespace Decimal

/-- A positive binary number `mantissa * 2 ^ exponent`. Its lower neighbour is at half the distance
of the upper one if the mantissa is the least of its binade. -/
structure Binary where
  mantissa : Nat
  exponent : Int
  leastOfBinade : Bool
deriving Repr, DecidableEq

/-- `a * 2 ^ e` as the numerator of a fraction whose denominator is `twoDen e`. -/
def twoNum (a : Nat) (e : Int) : Nat := a * Nat.pow 2 e.toNat

/-- The denominator of `2 ^ e`. -/
def twoDen (e : Int) : Nat := Nat.pow 2 (-e).toNat

/-- Compares `c * 10 ^ k` with `a * 2 ^ e`. -/
def compareDecimal (c : Nat) (k : Int) (a : Nat) (e : Int) : Ordering :=
  compare (c * Nat.pow 10 k.toNat * twoDen e) (twoNum a e * Nat.pow 10 (-k).toNat)

namespace Binary

/-- Whether `c * 10 ^ k` rounds to `b`. Quarters of the last place serve as the unit. -/
def admits (b : Binary) (k : Int) (c : Nat) : Bool :=
  let low := compareDecimal c k (4 * b.mantissa - if b.leastOfBinade then 1 else 2) (b.exponent - 2)
  let high := compareDecimal c k (4 * b.mantissa + 2) (b.exponent - 2)
  let even := b.mantissa % 2 == 0
  (low == .gt || (even && low == .eq)) && (high == .lt || (even && high == .eq))

/-- The largest `c` with `c * 10 ^ k` not above `b`. -/
def floorAt (b : Binary) (k : Int) : Nat :=
  twoNum b.mantissa b.exponent * Nat.pow 10 (-k).toNat / (Nat.pow 10 k.toNat * twoDen b.exponent)

/-- Whether `c * 10 ^ k` is closer to `b` than `(c + 1) * 10 ^ k`, or as close and `c` is even. -/
def prefersLower (b : Binary) (k : Int) (c : Nat) : Bool :=
  match compareDecimal (2 * c + 1) k (2 * b.mantissa) b.exponent with
  | .gt => true
  | .eq => c % 2 == 0
  | .lt => false

/-- The decimal closest to `b` on the grid of multiples of `10 ^ k`, if it rounds to `b`. -/
def onGrid? (b : Binary) (k : Int) : Option Decimal :=
  let c := b.floorAt k
  match b.admits k c, b.admits k (c + 1) with
  | true, true => some ⟨if b.prefersLower k c then c else c + 1, k⟩
  | true, false => some ⟨c, k⟩
  | false, true => some ⟨c + 1, k⟩
  | false, false => none

/-- The first hit on the grids of `10 ^ k`, `10 ^ (k - 1)`, and so on. -/
def search (b : Binary) : (fuel : Nat) → (k : Int) → Decimal
  | 0, k => ⟨b.floorAt k, k⟩
  | fuel + 1, k =>
    match b.onGrid? k with
    | some d => d
    | none => b.search fuel (k - 1)

/-- The shortest decimal that rounds to `b`. The search starts above `b`; no double needs a grid
finer than `10 ^ -325`. -/
def shortest (b : Binary) : Decimal :=
  let start := (Digit.ofNat (b.floorAt 0)).length
  b.search (start + 330) start

end Binary

/-- The binary number of the bits of a double: `none` for zeros, infinities and values that are no
numbers. The sign is not looked at. -/
def binaryOfBits? (bits : UInt64) : Option Binary :=
  let n := bits.toNat
  let fraction : Nat := n % Nat.pow 2 52
  let biased : Nat := n / Nat.pow 2 52 % Nat.pow 2 11
  if biased = 2047 then none
  else if biased = 0 then
    if fraction = 0 then none else some ⟨fraction, -1074, false⟩
  else some ⟨fraction + Nat.pow 2 52, (biased : Int) - 1075, fraction == 0 && 1 < biased⟩

/-- How decimals are laid out. -/
structure Style where
  /-- The most digits before the point. -/
  wholeDigits : Nat
  /-- The most zeros between the point and the first digit. -/
  leadingZeros : Nat
deriving Repr, DecidableEq

/-- Lays out a positive decimal: with a point and at least one digit behind it where the style
allows, otherwise with one digit before the point and an exponent. -/
def layout (s : Style) (d : Decimal) : Numeral :=
  let digits := Digit.ofNat d.digits
  let point : Int := digits.length + d.exponent
  if 0 ≤ d.exponent ∧ point ≤ s.wholeDigits then
    { whole := digits ++ List.replicate d.exponent.toNat .zero, fraction := [.zero] }
  else if 0 < point ∧ point ≤ s.wholeDigits then
    { whole := digits.take point.toNat, fraction := digits.drop point.toNat }
  else if point ≤ 0 ∧ -point ≤ s.leadingZeros then
    { whole := [.zero], fraction := List.replicate (-point).toNat .zero ++ digits }
  else
    { whole := digits.take 1, fraction := digits.drop 1, exponent := some (point - 1) }

end Decimal

end RichTable
