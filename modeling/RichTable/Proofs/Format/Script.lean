import Mathlib
import RichTable.Format.Script
import RichTable.Proofs.Decimal.Layout
import RichTable.Proofs.Format.Table

/-!
# Edits, scripts and outcomes read back

The JSON text of an edit, a table, a script or an outcome, compact or indented, is read as what it was
written for (`decode_render`), if its numbers fit the integer fields of the format and its lengths are
exact. For doubles the latter means that they are finite and that the decimal reader gives them back.

An edit names its kind in a field of its own. It is read in two steps: the kind is taken out, and the
fields that are left are a record. All of them have to be sound before that, which written ones are.
-/

namespace RichTable

variable {L : Type} [LengthFormat L]

/-! ## What fits the format -/

/-- The numbers of the edit fit integer fields, and its length is exact. -/
def Edit.Fits : Edit L → Prop
  | insertRows row count _ => row ≤ Numeral.maxNat ∧ count ≤ Numeral.maxNat
  | deleteRows first last => first ≤ Numeral.maxNat ∧ last ≤ Numeral.maxNat
  | insertColumns column count _ => column ≤ Numeral.maxNat ∧ count ≤ Numeral.maxNat
  | deleteColumns first last => first ≤ Numeral.maxNat ∧ last ≤ Numeral.maxNat
  | merge rect => rect.top ≤ Numeral.maxNat ∧ rect.bottom ≤ Numeral.maxNat ∧
    rect.left ≤ Numeral.maxNat ∧ rect.right ≤ Numeral.maxNat
  | split row column horizontal vertical => row ≤ Numeral.maxNat ∧ column ≤ Numeral.maxNat ∧
    horizontal ≤ Numeral.maxNat ∧ vertical ≤ Numeral.maxNat
  | resizeColumn column delta => column ≤ Numeral.maxNat ∧ LengthFormat.Exact delta

structure Script.Fits (s : Script L) : Prop where
  config : s.config.Fits
  table : s.table.Fits
  edits : ∀ e ∈ s.edits, e.Fits

structure Outcome.Fits (o : Outcome L) : Prop where
  revision : o.revision ≤ Numeral.maxNat
  table : ∀ t ∈ o.table, t.Fits

/-! ## Sound fields -/

namespace Json

variable (L) in
/-- The value can be printed, and kept for later at any depth. -/
structure Plain (j : Json) : Prop where
  proper : j.Proper
  sound : ∀ room, j.isSound L room = true

theorem plain_nat {n : Nat} (h : n ≤ Numeral.maxNat) : (Json.nat n).Plain L where
  proper := (Rereads.nat h).proper
  sound room := by simp [Json.nat, isSound, Numeral.toNat?_ofNat h]

theorem plain_text (s : String) : (Json.text s).Plain L where
  proper := (Rereads.text s).proper
  sound room := by simp [Json.text, isSound]

theorem plain_side (side : Side) : side.toJson.Plain L := by
  cases side <;> exact plain_text _

theorem plain_length {l : L} (h : LengthFormat.Exact l) : (LengthFormat.toJson l).Plain L where
  proper := (Rereads.length h).proper
  sound room := by
    obtain ⟨n, -, written, read⟩ := h
    simp [written, isSound, read]

theorem fieldsSound_map {fields : List (String × Json)} (h : ∀ f ∈ fields, f.2.Plain L)
    (room : Nat) : fieldsSound L room (fields.map fun (k, v) => (some k, v)) = true := by
  induction fields with
  | nil => rfl
  | cons f fields ih =>
    obtain ⟨hf, h⟩ := List.forall_mem_cons.1 h
    simp [fieldsSound, hf.sound room, ih h]

theorem isSound_record {fields : List (String × Json)} (h : ∀ f ∈ fields, f.2.Plain L)
    (room : Nat) : (Json.record fields).isSound L (room + 1) = true := by
  simp [Json.record, isSound, fieldsSound_map h room]

end Json

/-! ## Edits -/

namespace Edit

/-- The name of the kind of an edit. -/
def op : Edit L → String
  | insertRows .. => "insertRows"
  | deleteRows .. => "deleteRows"
  | insertColumns .. => "insertColumns"
  | deleteColumns .. => "deleteColumns"
  | merge .. => "merge"
  | split .. => "split"
  | resizeColumn .. => "resizeColumn"

/-- The fields of an edit behind its kind. -/
def fields : Edit L → List (String × Json)
  | insertRows row count side => [("row", .nat row), ("count", .nat count), ("side", side.toJson)]
  | deleteRows first last => [("first", .nat first), ("last", .nat last)]
  | insertColumns column count side =>
    [("column", .nat column), ("count", .nat count), ("side", side.toJson)]
  | deleteColumns first last => [("first", .nat first), ("last", .nat last)]
  | merge rect =>
    [("top", .nat rect.top), ("bottom", .nat rect.bottom), ("left", .nat rect.left),
     ("right", .nat rect.right)]
  | split row column horizontal vertical =>
    [("row", .nat row), ("column", .nat column), ("horizontal", .nat horizontal),
     ("vertical", .nat vertical)]
  | resizeColumn column delta => [("column", .nat column), ("delta", LengthFormat.toJson delta)]

theorem toJson_eq (e : Edit L) : e.toJson = .record (("op", .text e.op) :: e.fields) := by
  cases e <;> rfl

theorem plain_fields {e : Edit L} (h : e.Fits) : ∀ f ∈ e.fields, f.1 ≠ "op" ∧ f.2.Plain L := by
  cases e with
  | insertRows row count side =>
    simp [fields, Json.plain_nat h.1, Json.plain_nat h.2, Json.plain_side]
  | deleteRows first last => simp [fields, Json.plain_nat h.1, Json.plain_nat h.2]
  | insertColumns column count side =>
    simp [fields, Json.plain_nat h.1, Json.plain_nat h.2, Json.plain_side]
  | deleteColumns first last => simp [fields, Json.plain_nat h.1, Json.plain_nat h.2]
  | merge rect =>
    simp [fields, Json.plain_nat h.1, Json.plain_nat h.2.1, Json.plain_nat h.2.2.1,
      Json.plain_nat h.2.2.2]
  | split row column horizontal vertical =>
    simp [fields, Json.plain_nat h.1, Json.plain_nat h.2.1, Json.plain_nat h.2.2.1,
      Json.plain_nat h.2.2.2]
  | resizeColumn column delta => simp [fields, Json.plain_nat h.1, Json.plain_length h.2]

theorem rereads_side (side : Side) : Rereads Side.toJson sideOfJson? side := by
  cases side <;> exact ⟨(Rereads.text _).proper, rfl⟩

/-- An edit of a known kind is read from the fields that were written. -/
theorem ofFields?_fields {e : Edit L} (h : e.Fits) : ofFields? e.op (.record e.fields) = some e := by
  cases e with
  | insertRows row count side =>
    refine bind_of_eq_some (Record.ofJson?_record (by simp [fields]) (by decide)) ?_
    refine bind_of_eq_some (Record.required_eq (.nat h.1) rfl) ?_
    refine bind_of_eq_some (Record.withDefault_eq (.nat h.2) _ rfl) ?_
    refine bind_of_eq_some (Record.required_eq (rereads_side side) rfl) ?_
    rfl
  | deleteRows first last =>
    refine bind_of_eq_some (Record.ofJson?_record (by simp [fields]) (by decide)) ?_
    refine bind_of_eq_some (Record.required_eq (.nat h.1) rfl) ?_
    refine bind_of_eq_some (Record.required_eq (.nat h.2) rfl) ?_
    rfl
  | insertColumns column count side =>
    refine bind_of_eq_some (Record.ofJson?_record (by simp [fields]) (by decide)) ?_
    refine bind_of_eq_some (Record.required_eq (.nat h.1) rfl) ?_
    refine bind_of_eq_some (Record.withDefault_eq (.nat h.2) _ rfl) ?_
    refine bind_of_eq_some (Record.required_eq (rereads_side side) rfl) ?_
    rfl
  | deleteColumns first last =>
    refine bind_of_eq_some (Record.ofJson?_record (by simp [fields]) (by decide)) ?_
    refine bind_of_eq_some (Record.required_eq (.nat h.1) rfl) ?_
    refine bind_of_eq_some (Record.required_eq (.nat h.2) rfl) ?_
    rfl
  | merge rect =>
    refine bind_of_eq_some (Record.ofJson?_record (by simp [fields]) (by decide)) ?_
    refine bind_of_eq_some (Record.required_eq (.nat h.1) rfl) ?_
    refine bind_of_eq_some (Record.required_eq (.nat h.2.1) rfl) ?_
    refine bind_of_eq_some (Record.required_eq (.nat h.2.2.1) rfl) ?_
    refine bind_of_eq_some (Record.required_eq (.nat h.2.2.2) rfl) ?_
    rfl
  | split row column horizontal vertical =>
    refine bind_of_eq_some (Record.ofJson?_record (by simp [fields]) (by decide)) ?_
    refine bind_of_eq_some (Record.required_eq (.nat h.1) rfl) ?_
    refine bind_of_eq_some (Record.required_eq (.nat h.2.1) rfl) ?_
    refine bind_of_eq_some (Record.withDefault_eq (.nat h.2.2.1) _ rfl) ?_
    refine bind_of_eq_some (Record.withDefault_eq (.nat h.2.2.2) _ rfl) ?_
    rfl
  | resizeColumn column delta =>
    refine bind_of_eq_some (Record.ofJson?_record (by simp [fields]) (by decide)) ?_
    refine bind_of_eq_some (Record.required_eq (.nat h.1) rfl) ?_
    refine bind_of_eq_some (Record.required_eq (.length h.2) rfl) ?_
    rfl

theorem partition_op (op : Json) {fields : List (String × Json)} (other : ∀ f ∈ fields, f.1 ≠ "op") :
    ((("op", op) :: fields).map fun (k, v) => (some k, v)).partition (fun (k, _) => k == some "op") =
      ([(some "op", op)], fields.map fun (k, v) => (some k, v)) := by
  rw [List.partition_eq_filter_filter, List.map_cons, List.filter_cons_of_pos (by rfl),
    List.filter_cons_of_neg (by simp), List.filter_eq_nil_iff.2, List.filter_eq_self.2]
  all_goals
    intro e he
    obtain ⟨f, hf, rfl⟩ := List.mem_map.1 he
    simpa using other f hf

/-- The kind is taken out of the fields of a sound edit. -/
theorem ofJsonWithin?_record {op : String} {fields : List (String × Json)} {room : Nat}
    (sound : (Json.record (("op", .text op) :: fields)).isSound L room = true)
    (other : ∀ f ∈ fields, f.1 ≠ "op") :
    ofJsonWithin? room (.record (("op", .text op) :: fields)) =
      ofFields? (L := L) op (.record fields) := by
  have taken := partition_op (.text op) other
  unfold ofJsonWithin?
  rw [if_neg (by simp [sound])]
  simp only [Json.record, taken]
  rfl

theorem rereads {e : Edit L} (h : e.Fits) (room : Nat) :
    Rereads toJson (ofJsonWithin? (room + 1)) e := by
  have plain := plain_fields h
  have all : ∀ f ∈ ("op", Json.text e.op) :: e.fields, f.2.Plain L :=
    List.forall_mem_cons.2 ⟨Json.plain_text _, fun f hf => (plain f hf).2⟩
  constructor
  · rw [toJson_eq]
    exact .record fun f hf => (all f hf).proper
  · rw [toJson_eq, ofJsonWithin?_record (Json.isSound_record all room) fun f hf => (plain f hf).1]
    exact ofFields?_fields h

end Edit

/-! ## Exact lengths -/

/-- The numeral of a double is exact if the reader gives the double back. -/
theorem LengthFormat.exact_double {f : Float} {n : Numeral} (written : Decimal.ofDouble? f = some n)
    (read : Decimal.toDouble? n = some f) : LengthFormat.Exact f :=
  ⟨n, Decimal.proper_ofDouble? written, congrArg (Json.ofOption .number) written, read⟩

theorem LengthFormat.exact_of_reread {f : Float}
    (h : (Decimal.ofDouble? f).bind Decimal.toDouble? = some f) : LengthFormat.Exact f := by
  obtain ⟨n, written, read⟩ := Option.bind_eq_some_iff.1 h
  exact exact_double written read

/-! ## Scripts and outcomes -/

theorem Script.rereads [Length L] {s : Script L} (h : s.Fits) :
    Rereads Script.toJson Script.ofJson? s := by
  have config := Config.rereads h.config
  have table := TableOutline.rereads h.table
  -- The list and the script itself have taken two of the levels that a text may have.
  have edits := Rereads.list fun e he => Edit.rereads (h.edits e he) 124
  constructor
  · refine .record ?_
    simpa using ⟨config.proper, table.proper, edits.proper⟩
  · refine bind_of_eq_some (Record.ofJson?_record (by simp) (by decide)) ?_
    refine bind_of_eq_some (Record.withDefault_eq config _ rfl) ?_
    refine bind_of_eq_some (Record.required_eq table rfl) ?_
    refine bind_of_eq_some (Record.withDefault_eq edits _ rfl) ?_
    rfl

theorem Outcome.rereads {o : Outcome L} (h : o.Fits) : Rereads Outcome.toJson Outcome.ofJson? o := by
  have applied := Rereads.list fun b (_ : b ∈ o.applied) => Rereads.bool b
  have revision := Rereads.nat h.revision
  have table : ∀ t ∈ o.table, Rereads TableOutline.toJson TableOutline.ofJson? t ∧
      t.toJson.isNull = false := fun t ht => ⟨TableOutline.rereads (h.table t ht), rfl⟩
  constructor
  · refine .record ?_
    have tableProper : (Json.ofOption TableOutline.toJson o.table).Proper := by
      cases ht : o.table with
      | none => exact .null
      | some t => exact (table t ht).1.proper
    simpa using ⟨applied.proper, revision.proper, tableProper⟩
  · refine bind_of_eq_some (Record.ofJson?_record (by simp) (by decide)) ?_
    refine bind_of_eq_some (Record.required_eq applied rfl) ?_
    refine bind_of_eq_some (Record.required_eq revision rfl) ?_
    refine bind_of_eq_some (Record.optional_eq table rfl) ?_
    rfl

/-- What is written is read as what it was written for: edits, tables, scripts and outcomes, and so the
answer to the text of a script. Lengths only have to be exact. A double is if it has a numeral that is
read as the same double, and the doubles with a numeral are the finite ones. -/
theorem decode_render [Length L] (style : Json.Style) :
    (∀ e : Edit L, e.Fits → (Json.parse? (e.toJson.render style)).bind Edit.ofJson? = some e) ∧
    (∀ t : TableOutline L, t.Fits →
      (Json.parse? (t.toJson.render style)).bind TableOutline.ofJson? = some t) ∧
    (∀ s : Script L, s.Fits → Script.parse? (s.toJson.render style) = some s) ∧
    (∀ o : Outcome L, o.Fits → (Json.parse? (o.render style)).bind Outcome.ofJson? = some o) ∧
    (∀ (source : String) (o : Outcome L), Script.runText source = .ok o → o.Fits →
      ∃ answer, Script.answer L source = .ok answer ∧
        (Json.parse? answer).bind Outcome.ofJson? = some o) ∧
    (∀ (f : Float) (n : Numeral), Decimal.ofDouble? f = some n → Decimal.toDouble? n = some f →
      LengthFormat.Exact f) ∧
    (∀ f : Float, f.isFinite = true ↔ ∃ n, Decimal.ofDouble? f = some n) := by
  refine ⟨fun e he => (Edit.rereads he 126).parse style, fun t ht => (TableOutline.rereads ht).parse style,
    fun s hs => (Script.rereads hs).parse style, fun o ho => (Outcome.rereads ho).parse style, ?_,
    fun f n => LengthFormat.exact_double, fun f => Decimal.isFinite_iff_ofDouble?⟩
  intro source o run ho
  refine ⟨o.render .compact, ?_, (Outcome.rereads ho).parse .compact⟩
  rw [Script.answer, run]
  rfl

/-- A script with every kind of edit, for a table with fields left out and fields written. -/
def everyKind : Script Float where
  config := .standard
  table := {
    cellSpacing := some 3
    columns := [.fixed 40.5, .auto]
    groups := [[[{ text := "say \"a\"\n", rowSpan := 2 }, { background := some "#fff" }],
      [{ text := "b", columnIndex := some 1 }]]] }
  edits := [.insertRows 1 1 .after, .insertColumns 1 1 .before, .resizeColumn 0 (-5.25),
    .merge ⟨2, 2, 0, 1⟩, .split 2 0 1 0, .deleteColumns 1 1, .deleteRows 2 2]

/-- What `everyKind` leads to. -/
def everyKindOutcome : Outcome Float where
  applied := [true, true, true, true, true, true, true]
  revision := 8
  table := some {
    cellSpacing := some 3
    columns := [.fixed 35.25, .fixed 507]
    groups := [[[{ text := "say \"a\"\n", rowSpan := 2, columnIndex := some 0 },
        { background := some "#fff", columnIndex := some 1 }],
      [{ text := "b", columnIndex := some 1 }]]] }

theorem fits_everyKind : everyKind.Fits where
  config := by constructor <;> exact LengthFormat.exact_of_reread (by decide +kernel)
  table := by
    constructor
    · rintro l ⟨⟩
      exact LengthFormat.exact_of_reread (by decide +kernel)
    · simpa [everyKind, ColumnWidth.Fits] using LengthFormat.exact_of_reread (by decide +kernel)
    · decide +kernel
  edits := by
    simpa [everyKind, Edit.Fits, Numeral.maxNat] using
      LengthFormat.exact_of_reread (by decide +kernel)

theorem fits_everyKindOutcome : everyKindOutcome.Fits where
  revision := by decide
  table := by
    rintro t ⟨⟩
    constructor
    · rintro l ⟨⟩
      exact LengthFormat.exact_of_reread (by decide +kernel)
    · simpa [ColumnWidth.Fits] using ⟨LengthFormat.exact_of_reread (by decide +kernel),
        LengthFormat.exact_of_reread (by decide +kernel)⟩
    · decide +kernel

theorem decode_render_everyKind :
    everyKind.Fits ∧ everyKindOutcome.Fits ∧
    Script.parse? (everyKind.toJson.render .indented) = some everyKind ∧
    (∀ e ∈ everyKind.edits,
      (Json.parse? (e.toJson.render .indented)).bind Edit.ofJson? = some e) ∧
    (Json.parse? (everyKind.table.toJson.render .indented)).bind TableOutline.ofJson? =
      some everyKind.table ∧
    (Json.parse? (everyKindOutcome.render .indented)).bind Outcome.ofJson? = some everyKindOutcome ∧
    Script.runText (everyKind.toJson.render .indented) = .ok everyKindOutcome ∧
    ∃ answer, Script.answer Float (everyKind.toJson.render .indented) = .ok answer ∧
      (Json.parse? answer).bind Outcome.ofJson? = some everyKindOutcome := by
  obtain ⟨edits, tables, scripts, outcomes, answers, -⟩ := decode_render (L := Float) .indented
  have parsed := scripts everyKind fits_everyKind
  have ran : everyKind.run = .ok everyKindOutcome := by decide +kernel
  have text : Script.runText (everyKind.toJson.render .indented) = .ok everyKindOutcome := by
    rw [Script.runText, parsed]
    simp only [ran]
  exact ⟨fits_everyKind, fits_everyKindOutcome, parsed,
    fun e he => edits e (fits_everyKind.edits e he), tables _ fits_everyKind.table,
    outcomes _ fits_everyKindOutcome, text, answers _ _ text fits_everyKindOutcome⟩

end RichTable
