import Mathlib
import RichTable.Format.Table
import RichTable.Proofs.Format.Record

/-!
# Settings and outlines read back

Settings write all of their fields, and a column width its type. The outlines of cells and tables leave
out what has its default or is missing. Between writer and reader stands the list of all fields of an
outline, each with the value it is written with, if any (`written`): the writer prints those that have
one, and looking a field up in the print gives its entry in the list.
-/

namespace RichTable

variable {L : Type} [LengthFormat L]

/-! ## What fits the format -/

/-- The lengths of the settings are exact. -/
structure Config.Fits (c : Config L) : Prop where
  borderThickness : LengthFormat.Exact c.borderThickness
  cellSpacing : LengthFormat.Exact c.cellSpacing
  autofitWidth : LengthFormat.Exact c.autofitWidth
  resizeTolerance : LengthFormat.Exact c.resizeTolerance

def ColumnWidth.Fits : ColumnWidth L → Prop
  | auto => True
  | fixed width => LengthFormat.Exact width

structure CellOutline.Fits (c : CellOutline) : Prop where
  columnSpan : c.columnSpan ≤ Numeral.maxNat
  rowSpan : c.rowSpan ≤ Numeral.maxNat
  columnIndex : ∀ i ∈ c.columnIndex, i ≤ Numeral.maxNat

instance CellOutline.instDecidableFits (c : CellOutline) : Decidable c.Fits :=
  decidable_of_iff (c.columnSpan ≤ Numeral.maxNat ∧ c.rowSpan ≤ Numeral.maxNat ∧
      ∀ i ∈ c.columnIndex, i ≤ Numeral.maxNat)
    ⟨fun h => ⟨h.1, h.2.1, h.2.2⟩, fun h => ⟨h.columnSpan, h.rowSpan, h.columnIndex⟩⟩

structure TableOutline.Fits (t : TableOutline L) : Prop where
  cellSpacing : ∀ l ∈ t.cellSpacing, LengthFormat.Exact l
  columns : ∀ w ∈ t.columns, w.Fits
  cells : ∀ group ∈ t.groups, ∀ row ∈ group, ∀ c ∈ row, CellOutline.Fits c

/-! ## Settings -/

theorem Config.rereads [Length L] {c : Config L} (h : c.Fits) :
    Rereads Config.toJson Config.ofJson? c := by
  have l₁ := Rereads.length h.borderThickness
  have l₂ := Rereads.length h.cellSpacing
  have l₃ := Rereads.length h.autofitWidth
  have l₄ := Rereads.length h.resizeTolerance
  constructor
  · refine .record ?_
    simpa using ⟨l₁.proper, l₂.proper, l₃.proper, l₄.proper⟩
  · refine bind_of_eq_some (Record.ofJson?_record (by simp) (by decide)) ?_
    refine bind_of_eq_some (Record.withDefault_eq l₁ _ rfl) ?_
    refine bind_of_eq_some (Record.withDefault_eq l₂ _ rfl) ?_
    refine bind_of_eq_some (Record.withDefault_eq l₃ _ rfl) ?_
    refine bind_of_eq_some (Record.withDefault_eq l₄ _ rfl) ?_
    rfl

/-! ## Column widths -/

theorem ColumnWidth.rereads {w : ColumnWidth L} (h : w.Fits) :
    Rereads ColumnWidth.toJson ColumnWidth.ofJson? w := by
  cases w with
  | auto =>
    constructor
    · exact .record (by simpa using (Rereads.text "auto").proper)
    · refine bind_of_eq_some (Record.ofJson?_record (by simp) (by decide)) ?_
      rfl
  | fixed width =>
    have l := Rereads.length h
    constructor
    · refine .record ?_
      simpa using ⟨(Rereads.text "fixed").proper, l.proper⟩
    · refine bind_of_eq_some (Record.ofJson?_record (by simp) (by decide)) ?_
      exact bind_of_eq_some rfl (bind_of_eq_some rfl (bind_of_eq_some l.read rfl))

/-! ## Outlines -/

/-- The fields of a cell, with those that are written. -/
def CellOutline.written (c : CellOutline) : List (String × Option Json) :=
  [("columnSpan", if c.columnSpan = 1 then none else some (.nat c.columnSpan)),
   ("rowSpan", if c.rowSpan = 1 then none else some (.nat c.rowSpan)),
   ("text", if c.text = "" then none else some (.text c.text)),
   ("background", c.background.map .text), ("columnIndex", c.columnIndex.map .nat)]

theorem CellOutline.toJson_eq (c : CellOutline) : c.toJson = .record (Json.present c.written) := by
  simp only [toJson, written, Json.present, Json.fieldOf_eq_toList, Json.unless_eq_toList,
    List.flatMap_cons, List.flatMap_nil, List.append_nil, List.append_assoc]

theorem CellOutline.rereads {c : CellOutline} (h : c.Fits) :
    Rereads CellOutline.toJson CellOutline.ofJson? c := by
  have columnSpan := Rereads.nat h.columnSpan
  have rowSpan := Rereads.nat h.rowSpan
  have text := Rereads.text c.text
  have background : ∀ b ∈ c.background, Rereads Json.text Json.toText? b ∧
      (Json.text b).isNull = false := fun b _ => ⟨.text b, rfl⟩
  have columnIndex : ∀ i ∈ c.columnIndex, Rereads Json.nat Json.toNat? i ∧
      (Json.nat i).isNull = false := fun i hi => ⟨.nat (h.columnIndex i hi), rfl⟩
  have nodup : (c.written.map (·.1)).Nodup := by simp [written]
  have field := Json.lookup_present nodup
  constructor
  · rw [toJson_eq]
    refine Json.proper_present ?_
    simp only [written, List.forall_mem_cons]
    exact ⟨columnSpan.proper.unless _, rowSpan.proper.unless _, text.proper.unless _,
      Json.proper_map fun b hb => (background b hb).1.proper,
      Json.proper_map fun i hi => (columnIndex i hi).1.proper, by simp⟩
  · rw [toJson_eq]
    refine bind_of_eq_some (Record.ofJson?_present rfl (by decide)) ?_
    refine bind_of_eq_some (Record.withDefault_skipped columnSpan (field "columnSpan")) ?_
    refine bind_of_eq_some (Record.withDefault_skipped rowSpan (field "rowSpan")) ?_
    refine bind_of_eq_some (Record.withDefault_skipped text (field "text")) ?_
    refine bind_of_eq_some (Record.withDefault_option background (field "background")) ?_
    refine bind_of_eq_some (Record.withDefault_option columnIndex (field "columnIndex")) ?_
    rfl

/-- The fields of a table, with those that are written. -/
def TableOutline.written (t : TableOutline L) : List (String × Option Json) :=
  [("cellSpacing", t.cellSpacing.map LengthFormat.toJson),
   ("columns", if t.columns = [] then none else some (.ofList ColumnWidth.toJson t.columns)),
   ("groups", some (.ofList (.ofList (.ofList CellOutline.toJson)) t.groups))]

theorem TableOutline.toJson_eq (t : TableOutline L) : t.toJson = .record (Json.present t.written) := by
  simp only [toJson, written, Json.present, Json.fieldOf_eq_toList, Json.unless_eq_toList,
    List.isEmpty_iff, List.flatMap_cons, List.flatMap_nil, List.append_nil, List.append_assoc]
  rfl

theorem TableOutline.rereads {t : TableOutline L} (h : t.Fits) :
    Rereads TableOutline.toJson TableOutline.ofJson? t := by
  have cellSpacing : ∀ l ∈ t.cellSpacing, Rereads LengthFormat.toJson Json.toLength? l ∧
      (LengthFormat.toJson l).isNull = false := fun l hl => by
    have exact := h.cellSpacing l hl
    refine ⟨.length exact, ?_⟩
    obtain ⟨n, -, written, -⟩ := exact
    rw [written]
    rfl
  have columns := Rereads.list fun w hw => ColumnWidth.rereads (h.columns w hw)
  have groups := Rereads.list fun group hgroup => Rereads.list fun row hrow =>
    Rereads.list fun c hc => CellOutline.rereads (h.cells group hgroup row hrow c hc)
  have nodup : (t.written.map (·.1)).Nodup := by simp [written]
  have field := Json.lookup_present nodup
  constructor
  · rw [toJson_eq]
    refine Json.proper_present ?_
    simp only [written, List.forall_mem_cons]
    exact ⟨Json.proper_map fun l hl => (cellSpacing l hl).1.proper, columns.proper.unless _,
      by simpa using groups.proper, by simp⟩
  · rw [toJson_eq]
    refine bind_of_eq_some (Record.ofJson?_present rfl (by decide)) ?_
    refine bind_of_eq_some (Record.withDefault_option cellSpacing (field "cellSpacing")) ?_
    refine bind_of_eq_some (Record.withDefault_skipped columns (field "columns")) ?_
    refine bind_of_eq_some (Record.required_eq groups (field "groups")) ?_
    rfl

end RichTable
