import RichTable.Json.Numeral

/-!
# JSON values

The value of a JSON text, before anything is made of it. Numbers are kept as they are written, and
objects keep their fields in order, repeated ones included.
-/

namespace RichTable

/-- A JSON value. The text of a string, or of the name of a field, is missing if an escape in it
stands for half of a surrogate pair. -/
inductive Json where
  | null
  | bool (b : Bool)
  | number (n : Numeral)
  | string (s : Option String)
  | array (items : List Json)
  | object (fields : List (Option String × Json))
deriving Inhabited, Repr

namespace Json

/-- The JSON value of a text. -/
def text (s : String) : Json := .string (some s)

/-- The JSON value of a natural number. -/
def nat (n : Nat) : Json := .number (.ofNat n)

/-- An object with the given fields. -/
def record (fields : List (String × Json)) : Json := .object (fields.map fun (k, v) => (some k, v))

/-- The value, or `null` if it is missing. -/
def ofOption {α : Type} (f : α → Json) : Option α → Json
  | some a => f a
  | none => .null

/-- An array of values. -/
def ofList {α : Type} (f : α → Json) (as : List α) : Json := .array (as.map f)

end Json

end RichTable
