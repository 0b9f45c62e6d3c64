import RichTable.Config
import RichTable.Format.Record
import RichTable.Grid.Outline

/-!
# Settings and tables in JSON

The written forms of settings, column widths, outlines of tables, and the properties of tables and
cells. Outlines are written without the fields that have their default value.
-/

namespace RichTable

variable {L : Type} [LengthFormat L]

/-! ## Settings -/

namespace Config

def toJson (c : Config L) : Json :=
  .record
    [("borderThickness", LengthFormat.toJson c.borderThickness),
     ("cellSpacing", LengthFormat.toJson c.cellSpacing),
     ("autofitWidth", LengthFormat.toJson c.autofitWidth),
     ("resizeTolerance", LengthFormat.toJson c.resizeTolerance)]

/-- Settings that are not given are the standard ones. -/
def ofJson? [Length L] (j : Json) : Option (Config L) := do
  let r ← Record.ofJson? ["borderThickness", "cellSpacing", "autofitWidth", "resizeTolerance"] j
  return {
    borderThickness := ← r.withDefault "borderThickness" Json.toLength? standard.borderThickness
    cellSpacing := ← r.withDefault "cellSpacing" Json.toLength? standard.cellSpacing
    autofitWidth := ← r.withDefault "autofitWidth" Json.toLength? standard.autofitWidth
    resizeTolerance := ← r.withDefault "resizeTolerance" Json.toLength? standard.resizeTolerance }

end Config

/-! ## Column widths -/

namespace ColumnWidth

def toJson : ColumnWidth L → Json
  | auto => .record [("type", .text "auto")]
  | fixed width => .record [("type", .text "fixed"), ("value", LengthFormat.toJson width)]

/-- Whether a tag names the fixed type. In an array of parts the tag is a plain name. -/
def isFixed? (positional : Bool) (tag : Json) : Option Bool :=
  let names := [("auto", false), ("fixed", true)]
  if positional then tag.toText?.bind (names.lookup ·) else tag.toNamed? names Json.isNull

/-- The type and the value of a column width may come in any order, or as an array of both. -/
def ofJson? (j : Json) : Option (ColumnWidth L) := do
  let r ← Record.ofJson? ["type", "value"] j
  let isFixed ← isFixed? r.positional (← r.get? "type")
  let value := r.get? "value"
  if r.positional ∧ value.isNone then none
  if isFixed then return .fixed (← value.bind Json.toLength?)
  if value.all Json.isNull then return .auto else none

end ColumnWidth

/-! ## Outlines -/

namespace CellOutline

def toJson (c : CellOutline) : Json :=
  .record <|
    (if c.columnSpan = 1 then [] else [("columnSpan", .nat c.columnSpan)]) ++
    (if c.rowSpan = 1 then [] else [("rowSpan", .nat c.rowSpan)]) ++
    (if c.text = "" then [] else [("text", .text c.text)]) ++
    Json.fieldOf "background" .text c.background ++
    Json.fieldOf "columnIndex" .nat c.columnIndex

def ofJson? (j : Json) : Option CellOutline := do
  let r ← Record.ofJson? ["columnSpan", "rowSpan", "text", "background", "columnIndex"] j
  return {
    columnSpan := ← r.withDefault "columnSpan" Json.toNat? 1
    rowSpan := ← r.withDefault "rowSpan" Json.toNat? 1
    text := ← r.withDefault "text" Json.toText? ""
    background := ← r.withDefault "background" (Json.toOption? Json.toText?) none
    columnIndex := ← r.withDefault "columnIndex" (Json.toOption? Json.toNat?) none }

end CellOutline

namespace TableOutline

def toJson (t : TableOutline L) : Json :=
  .record <|
    Json.fieldOf "cellSpacing" LengthFormat.toJson t.cellSpacing ++
    (if t.columns.isEmpty then [] else [("columns", .ofList ColumnWidth.toJson t.columns)]) ++
    [("groups", .ofList (.ofList (.ofList CellOutline.toJson)) t.groups)]

def ofJson? (j : Json) : Option (TableOutline L) := do
  let r ← Record.ofJson? ["cellSpacing", "columns", "groups"] j
  return {
    cellSpacing := ← r.withDefault "cellSpacing" (Json.toOption? Json.toLength?) none
    columns := ← r.withDefault "columns" (Json.toList? ColumnWidth.ofJson?) []
    groups := ←
      r.required "groups" (Json.toList? (Json.toList? (Json.toList? CellOutline.ofJson?))) }

end TableOutline

/-! ## Properties -/

namespace Thickness

def toJson (t : Thickness L) : Json :=
  .record
    [("left", LengthFormat.toJson t.left), ("top", LengthFormat.toJson t.top),
     ("right", LengthFormat.toJson t.right), ("bottom", LengthFormat.toJson t.bottom)]

def ofJson? (j : Json) : Option (Thickness L) := do
  let r ← Record.ofJson? ["left", "top", "right", "bottom"] j
  return {
    left := ← r.required "left" Json.toLength?
    top := ← r.required "top" Json.toLength?
    right := ← r.required "right" Json.toLength?
    bottom := ← r.required "bottom" Json.toLength? }

end Thickness

namespace TableProps

/-- A column of a table: an object with its width. -/
def columnOfJson? (j : Json) : Option (ColumnWidth L) := do
  (← Record.ofJson? ["width"] j).required "width" ColumnWidth.ofJson?

def toJson (t : TableProps L) : Json :=
  .record
    [("cellSpacing", LengthFormat.toJson t.cellSpacing),
     ("columns", .ofList (fun w => .record [("width", w.toJson)]) t.columns)]

/-- The column count is not part of the written form. -/
def ofJson? (j : Json) : Option (TableProps L) := do
  let r ← Record.ofJson? ["cellSpacing", "columns"] j
  return {
    cellSpacing := ← r.required "cellSpacing" Json.toLength?
    columns := ← r.required "columns" (Json.toList? columnOfJson?) }

end TableProps

namespace CellProps

def toJson (c : CellProps L) : Json :=
  .record <|
    [("columnSpan", .nat c.columnSpan), ("rowSpan", .nat c.rowSpan),
     ("borders", c.borders.toJson)] ++
    Json.fieldOf "background" .text c.background

/-- The column index is not part of the written form. -/
def ofJson? (j : Json) : Option (CellProps L) := do
  let r ← Record.ofJson? ["columnSpan", "rowSpan", "borders", "background"] j
  return {
    columnSpan := ← r.required "columnSpan" Json.toNat?
    rowSpan := ← r.required "rowSpan" Json.toNat?
    borders := ← r.required "borders" Thickness.ofJson?
    background := ← r.optional "background" Json.toText? }

end CellProps

end RichTable
