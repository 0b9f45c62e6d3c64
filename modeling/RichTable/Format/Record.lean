import RichTable.Format.Length

/-!
# Records in JSON

A record is written as an object. It may also be read from an array of its fields in order. In an
object unknown fields are skipped and known ones may stand only once. Fields that have a default may
be left out; from an array only at the end.
-/

namespace RichTable

/-- The known fields of a record. -/
structure Record where
  /-- Whether the record was given as an array. -/
  positional : Bool
  fields : List (String × Json)

namespace Record

/-- Whether no name stands twice. -/
def distinct : List (String × Json) → Bool
  | [] => true
  | (k, _) :: fs => !fs.any (·.1 == k) && distinct fs

/-- The names of the fields of an object, if they can be read. -/
def named? (fields : List (Option String × Json)) : Option (List (String × Json)) :=
  fields.mapM fun (k, j) => k.map (·, j)

/-- The record with the given field names. -/
def ofJson? (names : List String) : Json → Option Record
  | .object fields => do
    let fields ← named? fields
    let known := fields.filter fun (k, _) => names.contains k
    if distinct known then some ⟨false, known⟩ else none
  | .array items => if items.length ≤ names.length then some ⟨true, names.zip items⟩ else none
  | _ => none

variable {α : Type}

/-- The value of a field. -/
def get? (r : Record) (name : String) : Option Json := r.fields.lookup name

/-- A field that must be there. -/
def required (r : Record) (name : String) (f : Json → Option α) : Option α := (r.get? name).bind f

/-- A field with a default. -/
def withDefault (r : Record) (name : String) (f : Json → Option α) (default : α) : Option α :=
  match r.get? name with
  | some j => f j
  | none => some default

/-- A field that may be missing in an object and may be `null`. -/
def optional (r : Record) (name : String) (f : Json → Option α) : Option (Option α) :=
  match r.get? name with
  | some j => j.toOption? f
  | none => if r.positional then none else some none

end Record

/-- A field that is left out if its value is missing. -/
def Json.fieldOf {α : Type} (name : String) (f : α → Json) : Option α → List (String × Json)
  | some a => [(name, f a)]
  | none => []

end RichTable
