import RichTable.Format.Table
import RichTable.Json.Printer
import RichTable.Json.Reader
import RichTable.Script

/-!
# Scripts in JSON

The written forms of edits, scripts and outcomes. An edit names its kind in the field `op`, which
may stand anywhere in the object. Since the kind of an edit may come last, all fields of an edit
have to be sound, also those that it does not know: its strings have text, its numbers fit an integer
field or a length, and it is not nested too deeply.
-/

namespace RichTable

namespace Side

def toJson : Side → Json
  | before => .text "before"
  | after => .text "after"

def names : List (String × Side) := [("before", before), ("after", after)]

def ofJson? : Json → Option Side := Json.toNamed? names Json.isNull

end Side

namespace Json

variable (L : Type) [LengthFormat L]

mutual

/-- Whether a value can be kept for later, with at most `room` arrays and objects in each other. -/
def isSound (room : Nat) : Json → Bool
  | .null => true
  | .bool _ => true
  | .number n => n.toNat?.isSome || (LengthFormat.ofNumeral? n : Option L).isSome
  | .string s => s.isSome
  | .array items => 0 < room && allSound (room - 1) items
  | .object fields => 0 < room && fieldsSound (room - 1) fields

/-- Whether all values of a list can be kept. -/
def allSound (room : Nat) : List Json → Bool
  | [] => true
  | j :: js => isSound room j && allSound room js

/-- Whether all fields of an object can be kept. -/
def fieldsSound (room : Nat) : List (Option String × Json) → Bool
  | [] => true
  | (k, j) :: fs => k.isSome && isSound room j && fieldsSound room fs

end

/-- The most arrays and objects inside each other in a JSON text. -/
def maxDepth : Nat := 127

end Json

namespace Edit

variable {L : Type} [LengthFormat L]

def toJson : Edit L → Json
  | insertRows row count side =>
    .record
      [("op", .text "insertRows"), ("row", .nat row), ("count", .nat count),
       ("side", side.toJson)]
  | deleteRows first last =>
    .record [("op", .text "deleteRows"), ("first", .nat first), ("last", .nat last)]
  | insertColumns column count side =>
    .record
      [("op", .text "insertColumns"), ("column", .nat column), ("count", .nat count),
       ("side", side.toJson)]
  | deleteColumns first last =>
    .record [("op", .text "deleteColumns"), ("first", .nat first), ("last", .nat last)]
  | merge rect =>
    .record
      [("op", .text "merge"), ("top", .nat rect.top), ("bottom", .nat rect.bottom),
       ("left", .nat rect.left), ("right", .nat rect.right)]
  | split row column horizontal vertical =>
    .record
      [("op", .text "split"), ("row", .nat row), ("column", .nat column),
       ("horizontal", .nat horizontal), ("vertical", .nat vertical)]
  | resizeColumn column delta =>
    .record
      [("op", .text "resizeColumn"), ("column", .nat column), ("delta", LengthFormat.toJson delta)]

/-- The side of an edit. -/
def sideOfJson? : Json → Option Side := Json.toNamed? Side.names Json.isBlank

/-- An edit of the kind `op` from its other fields, which are an object or an array. -/
def ofFields? (op : String) (fields : Json) : Option (Edit L) :=
  match op with
  | "insertRows" => do
    let r ← Record.ofJson? ["row", "count", "side"] fields
    return .insertRows (← r.required "row" Json.toNat?) (← r.withDefault "count" Json.toNat? 1)
      (← r.required "side" sideOfJson?)
  | "deleteRows" => do
    let r ← Record.ofJson? ["first", "last"] fields
    return .deleteRows (← r.required "first" Json.toNat?) (← r.required "last" Json.toNat?)
  | "insertColumns" => do
    let r ← Record.ofJson? ["column", "count", "side"] fields
    return .insertColumns (← r.required "column" Json.toNat?)
      (← r.withDefault "count" Json.toNat? 1) (← r.required "side" sideOfJson?)
  | "deleteColumns" => do
    let r ← Record.ofJson? ["first", "last"] fields
    return .deleteColumns (← r.required "first" Json.toNat?) (← r.required "last" Json.toNat?)
  | "merge" => do
    let r ← Record.ofJson? ["top", "bottom", "left", "right"] fields
    return .merge {
      top := ← r.required "top" Json.toNat?
      bottom := ← r.required "bottom" Json.toNat?
      left := ← r.required "left" Json.toNat?
      right := ← r.required "right" Json.toNat? }
  | "split" => do
    let r ← Record.ofJson? ["row", "column", "horizontal", "vertical"] fields
    return .split (← r.required "row" Json.toNat?) (← r.required "column" Json.toNat?)
      (← r.withDefault "horizontal" Json.toNat? 0) (← r.withDefault "vertical" Json.toNat? 0)
  | "resizeColumn" => do
    let r ← Record.ofJson? ["column", "delta"] fields
    return .resizeColumn (← r.required "column" Json.toNat?) (← r.required "delta" Json.toLength?)
  | _ => none

/-- An edit, inside of which there is `room` for arrays and objects. -/
def ofJsonWithin? (room : Nat) (j : Json) : Option (Edit L) :=
  if !Json.isSound L room j then none
  else
    match j with
    | .object fields =>
      match fields.partition fun (k, _) => k == some "op" with
      | ([(_, .string (some op))], rest) => ofFields? op (.object rest)
      | _ => none
    | .array (.string (some op) :: items) => ofFields? op (.array items)
    | _ => none

def ofJson? (j : Json) : Option (Edit L) := ofJsonWithin? Json.maxDepth j

end Edit

namespace Script

variable {L : Type} [LengthFormat L]

def toJson (s : Script L) : Json :=
  .record
    [("config", s.config.toJson), ("table", s.table.toJson), ("ops", .ofList Edit.toJson s.edits)]

/-- Edits stand two levels below the top of a script. -/
def ofJson? [Length L] (j : Json) : Option (Script L) := do
  let r ← Record.ofJson? ["config", "table", "ops"] j
  return {
    config := ← r.withDefault "config" Config.ofJson? .standard
    table := ← r.required "table" TableOutline.ofJson?
    edits := ← r.withDefault "ops" (Json.toList? (Edit.ofJsonWithin? (Json.maxDepth - 2))) [] }

/-- The script of a JSON text. -/
def parse? [Length L] (s : String) : Option (Script L) := (Json.parse? s).bind ofJson?

end Script

namespace Outcome

variable {L : Type} [LengthFormat L]

def toJson (o : Outcome L) : Json :=
  .record
    [("applied", .ofList .bool o.applied), ("revision", .nat o.revision),
     ("table", .ofOption TableOutline.toJson o.table)]

def ofJson? (j : Json) : Option (Outcome L) := do
  let r ← Record.ofJson? ["applied", "revision", "table"] j
  return {
    applied := ← r.required "applied" (Json.toList? Json.toBool?)
    revision := ← r.required "revision" Json.toNat?
    table := ← r.optional "table" TableOutline.ofJson? }

/-- The JSON text of an outcome. -/
def render (style : Json.Style) (o : Outcome L) : String := o.toJson.render style

end Outcome

/-- The settings of a JSON text. -/
def Config.parse? {L : Type} [Length L] [LengthFormat L] (s : String) : Option (Config L) :=
  (Json.parse? s).bind Config.ofJson?

/-- Why the text of a script gave no outcome. -/
inductive ScriptError where
  /-- The text is no script. -/
  | malformed
  /-- The script failed. -/
  | failed (error : EditError)
deriving Repr, DecidableEq

/-- The text of a script error. -/
def ScriptError.message : ScriptError → String
  | malformed => "Configuration: the text is not an edit script"
  | failed error => error.message

/-- Runs the script of a JSON text. -/
def Script.runText {L : Type} [Length L] [LengthFormat L] (s : String) :
    Except ScriptError (Outcome L) :=
  match Script.parse? (L := L) s with
  | none => .error .malformed
  | some script =>
    match script.run with
    | .ok outcome => .ok outcome
    | .error e => .error (.failed e)

/-- Runs the script of a JSON text and answers with the JSON text of the outcome, without blanks. -/
def Script.answer (L : Type) [Length L] [LengthFormat L] (s : String) : Except ScriptError String :=
  (Script.runText (L := L) s).map (Outcome.render .compact)

end RichTable
