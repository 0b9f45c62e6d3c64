/-!
# Decimal numerals

A numeral is a number as it is written: a sign, digits before and behind the point, and an exponent.
Two numerals may stand for the same number.
-/

namespace RichTable

/-- A decimal digit. -/
abbrev Digit := Fin 10

namespace Digit

def zero : Digit := ⟨0, by decide⟩

/-- The character of a digit. -/
def toChar (d : Digit) : Char := Char.ofNat (d.val + 48)

/-- The digit of a character. -/
def ofChar? (c : Char) : Option Digit :=
  if h : 48 ≤ c.toNat ∧ c.toNat ≤ 57 then some ⟨c.toNat - 48, by omega⟩ else none

theorem ofChar?_toChar (d : Digit) : ofChar? d.toChar = some d := by
  revert d; decide

/-- The decimal digits of a number, with as many divisions by ten as `fuel` allows. -/
def ofNatWithin : (fuel : Nat) → Nat → List Digit
  | 0, n => [Fin.ofNat 10 n]
  | fuel + 1, n =>
    if n < 10 then [Fin.ofNat 10 n] else ofNatWithin fuel (n / 10) ++ [Fin.ofNat 10 n]

/-- The decimal digits of a number, without leading zeros. -/
def ofNat (n : Nat) : List Digit := ofNatWithin n n

/-- The number that digits stand for, when `n` stands before them. -/
def valueFrom (n : Nat) (digits : List Digit) : Nat := digits.foldl (fun n d => 10 * n + d.val) n

/-- The number that digits stand for. -/
def value (digits : List Digit) : Nat := valueFrom 0 digits

end Digit

/-- A number as it is written. -/
structure Numeral where
  negative : Bool := false
  /-- The digits before the point. -/
  whole : List Digit
  /-- The digits behind the point; there is no point if there are none. -/
  fraction : List Digit := []
  exponent : Option Int := none
deriving Repr, DecidableEq

namespace Numeral

/-- The numeral of a natural number. -/
def ofNat (n : Nat) : Numeral := { whole := Digit.ofNat n }

/-- The characters of digits. -/
def digitsText (digits : List Digit) : List Char := digits.map Digit.toChar

/-- The characters of an exponent, which is always written with its sign. -/
def exponentText : Int → List Char
  | .ofNat n => '+' :: digitsText (Digit.ofNat n)
  | .negSucc n => '-' :: digitsText (Digit.ofNat (n + 1))

/-- The characters of a numeral. -/
def text (n : Numeral) : List Char :=
  (if n.negative then ['-'] else []) ++ digitsText n.whole ++
    (if n.fraction = [] then [] else '.' :: digitsText n.fraction) ++
    (match n.exponent with
      | none => []
      | some e => 'e' :: exponentText e)

/-- The largest number that an integer field holds. -/
def maxNat : Nat := 18446744073709551615

/-- The natural number of a numeral that is written without sign, point and exponent. -/
def toNat? (n : Numeral) : Option Nat :=
  if n.negative = false ∧ n.fraction = [] ∧ n.exponent = none ∧ Digit.value n.whole ≤ maxNat then
    some (Digit.value n.whole)
  else none

end Numeral

end RichTable
