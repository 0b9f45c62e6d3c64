import RichTable.Decimal.Shortest

/-!
# Doubles and numerals

Doubles are written by their shortest decimal. They are read with one rounding for the digits and
one for the power of ten: as many digits as fit into 64 bits make up an integer, further digits
before the point only count, further digits behind it are left out, and the integer is multiplied or
divided by a power of ten. Numbers too large for a double are refused.
-/

namespace RichTable.Decimal

/-- Appends digits to a number as long as the result fits into 64 bits, and returns what is left. -/
def takeDigits (n : Nat) : List Digit → Nat × List Digit
  | [] => (n, [])
  | d :: ds =>
    if Numeral.maxNat < 10 * n + d.val then (n, d :: ds) else takeDigits (10 * n + d.val) ds

/-- The leading digits of a numeral and the power of ten that they are to be multiplied by. -/
def significand (n : Numeral) : Nat × Int :=
  let (whole, wholeRest) := takeDigits 0 n.whole
  let (digits, fractionRest) := takeDigits whole n.fraction
  let behindPoint : Nat := n.fraction.length - fractionRest.length
  (digits, wholeRest.length - behindPoint + n.exponent.getD 0)

/-- The double nearest to a power of ten. -/
def powerOfTen (k : Nat) : Float := Float.ofScientific 1 false k

/-- Multiplies a double, made of at most 64 bits, by a power of ten; `none` if the result is too
large. -/
def scale? (f : Float) (e : Int) : Option Float :=
  if 308 < e then if f == 0 then some f else none
  else if 0 ≤ e then
    let g := f * powerOfTen e.toNat
    if g.isInf then none else some g
  else if -308 ≤ e then some (f / powerOfTen (-e).toNat)
  else if -616 ≤ e then some (f / powerOfTen 308 / powerOfTen (-e - 308).toNat)
  else some 0

/-- The double of a numeral. -/
def toDouble? (n : Numeral) : Option Float :=
  let (digits, e) := significand n
  (scale? digits.toUInt64.toFloat e).map fun f => if n.negative then -f else f

/-- Up to sixteen digits before the point, and up to four zeros behind it. -/
def doubleStyle : Style where
  wholeDigits := 16
  leadingZeros := 4

/-- The numeral of a double; `none` for infinities and values that are no numbers. -/
def ofDouble? (f : Float) : Option Numeral :=
  let negative := f.toBits.toNat / Nat.pow 2 63 == 1
  match binaryOfBits? f.toBits with
  | some b => some { b.shortest.layout doubleStyle with negative }
  | none => if f == 0 then some { negative, whole := [.zero], fraction := [.zero] } else none

end RichTable.Decimal
