import RichTable.Decimal.Double
import RichTable.Json.Value

/-!
# Lengths and simple values in JSON

How single values are read from JSON and written to it. The type of lengths decides how lengths are
written: doubles are numbers, and `null` if they are not finite.
-/

namespace RichTable

/-- How lengths are read and written. -/
class LengthFormat (L : Type) where
  /-- The length of a numeral; `none` if there is none that large. -/
  ofNumeral? : Numeral → Option L
  /-- The JSON value of a length. -/
  toJson : L → Json

instance : LengthFormat Float where
  ofNumeral? := Decimal.toDouble?
  toJson f := .ofOption .number (Decimal.ofDouble? f)

namespace Json

/-- The natural number of a JSON value. -/
def toNat? : Json → Option Nat
  | .number n => n.toNat?
  | _ => none

/-- The length of a JSON value. -/
def toLength? {L : Type} [LengthFormat L] : Json → Option L
  | .number n => LengthFormat.ofNumeral? n
  | _ => none

/-- The truth value of a JSON value. -/
def toBool? : Json → Option Bool
  | .bool b => some b
  | _ => none

/-- The text of a JSON value. -/
def toText? : Json → Option String
  | .string s => s
  | _ => none

/-- The list of a JSON value. -/
def toList? {α : Type} (f : Json → Option α) : Json → Option (List α)
  | .array items => items.mapM f
  | _ => none

/-- A value that may be missing: `null` stands for a missing one. -/
def toOption? {α : Type} (f : Json → Option α) : Json → Option (Option α)
  | .null => some none
  | j => (f j).map some

def isNull : Json → Bool
  | .null => true
  | _ => false

/-- Whether a value is `null` or has no fields. -/
def isBlank : Json → Bool
  | .null => true
  | .object [] => true
  | _ => false

/-- One of finitely many values, given by its name, or by an object whose only field has that name
and a value that `blank` accepts. -/
def toNamed? {α : Type} (names : List (String × α)) (blank : Json → Bool) : Json → Option α
  | .string (some s) => names.lookup s
  | .object [(some s, j)] => if blank j then names.lookup s else none
  | _ => none

end Json

end RichTable
