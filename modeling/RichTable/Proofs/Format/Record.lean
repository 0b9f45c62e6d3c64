import Mathlib
import RichTable.Format.Record
import RichTable.Proofs.Json.Text

/-!
# Values and records read back

`Rereads f g a` says that the JSON value `f a` can be printed and that `g` reads `a` from it. It holds
for numbers that fit an integer field, for texts, and for lists of such values. A record is read back
field by field: the reader looks up what the writer has put under a name, and a field that was left out
has its default (`Record.ofJson?_record` and the lemmas behind it).
-/

namespace RichTable

variable {α : Type} {f : α → Json} {g : Json → Option α} {a : α}

/-- The value has a proper JSON form, from which it is read again. -/
structure Rereads (f : α → Json) (g : Json → Option α) (a : α) : Prop where
  proper : (f a).Proper
  read : g (f a) = some a

/-- The length is written as a numeral from which it is read again. -/
def LengthFormat.Exact {L : Type} [LengthFormat L] (l : L) : Prop :=
  ∃ n : Numeral, n.Proper ∧ LengthFormat.toJson l = .number n ∧ LengthFormat.ofNumeral? n = some l

namespace Rereads

/-- The printed text of a value is read as the value. -/
theorem parse (h : Rereads f g a) (style : Json.Style) :
    (Json.parse? ((f a).render style)).bind g = some a := by
  rw [h.proper.parse?_render, Option.bind_some, h.read]

theorem nat {n : Nat} (h : n ≤ Numeral.maxNat) : Rereads Json.nat Json.toNat? n :=
  ⟨.number (Numeral.proper_ofNat n), Numeral.toNat?_ofNat h⟩

theorem text (s : String) : Rereads Json.text Json.toText? s := ⟨.string _, rfl⟩

theorem bool (b : Bool) : Rereads Json.bool Json.toBool? b := ⟨.bool b, rfl⟩

theorem length {L : Type} [LengthFormat L] {l : L} (h : LengthFormat.Exact l) :
    Rereads LengthFormat.toJson Json.toLength? l := by
  obtain ⟨n, proper, written, read⟩ := h
  exact ⟨written ▸ .number proper, by rw [written, Json.toLength?, read]⟩

theorem list {as : List α} (h : ∀ a ∈ as, Rereads f g a) :
    Rereads (Json.ofList f) (Json.toList? g) as := by
  constructor
  · refine .array fun j hj => ?_
    obtain ⟨a, ha, rfl⟩ := List.mem_map.1 hj
    exact (h a ha).proper
  · rw [Json.ofList, Json.toList?, List.mapM_map]
    induction as with
    | nil => rfl
    | cons a as ih =>
      obtain ⟨ha, has⟩ := List.forall_mem_cons.1 h
      rw [List.mapM_cons, Function.comp_apply, ha.read, ih has]
      rfl

end Rereads

/-! ## Records -/

/-- One step of a reader. -/
theorem bind_of_eq_some {β : Type} {x : Option α} {k : α → Option β} {b : Option β} (h : x = some a)
    (rest : k a = b) : (x >>= k) = b := by
  rw [h]
  exact rest

namespace Json

theorem Proper.record {fields : List (String × Json)} (h : ∀ f ∈ fields, f.2.Proper) :
    (Json.record fields).Proper := by
  refine .object fun f hf => ?_
  obtain ⟨e, he, rfl⟩ := List.mem_map.1 hf
  exact h e he

/-- A value that is not `null` is not taken for a missing one. -/
theorem toOption?_eq {j : Json} (h : g j = some a) (hj : j.isNull = false) :
    j.toOption? g = some (some a) := by
  cases j with
  | null => cases hj
  | bool _ | number _ | string _ | array _ | object _ => simp [toOption?, h]

/-- The fields that have a value. -/
def present (fields : List (String × Option Json)) : List (String × Json) :=
  fields.flatMap fun (k, v) => (v.map (k, ·)).toList

theorem fieldOf_eq_toList (name : String) (f : α → Json) (o : Option α) :
    fieldOf name f o = ((o.map f).map (name, ·)).toList := by
  cases o <;> rfl

theorem unless_eq_toList (p : Prop) [Decidable p] (name : String) (j : Json) :
    (if p then [] else [(name, j)]) = ((if p then none else some j).map (name, ·)).toList := by
  split <;> rfl

theorem sublist_present (fields : List (String × Option Json)) :
    ((present fields).map (·.1)).Sublist (fields.map (·.1)) := by
  induction fields with
  | nil => exact .slnil
  | cons f fields ih =>
    obtain ⟨k, _ | j⟩ := f
    · exact ih.cons k
    · exact ih.cons_cons k

theorem lookup_present {fields : List (String × Option Json)} (nodup : (fields.map (·.1)).Nodup)
    (name : String) : (present fields).lookup name = (fields.lookup name).join := by
  induction fields with
  | nil => rfl
  | cons f fields ih =>
    obtain ⟨hf, rest⟩ := List.nodup_cons.1 nodup
    obtain ⟨k, v⟩ := f
    by_cases hk : name = k
    · subst hk
      rw [List.lookup_cons_self]
      cases v with
      | none =>
        refine List.lookup_eq_none_iff.2 fun e he => ?_
        have he : e.1 ∈ fields.map (·.1) :=
          (sublist_present fields).subset (List.mem_map_of_mem he)
        simpa using fun same : name = e.1 => hf (same ▸ he)
      | some j => exact List.lookup_cons_self
    · have other : (name == k) = false := beq_eq_false_iff_ne.2 hk
      rw [List.lookup_cons, other, ← ih rest]
      cases v with
      | none => rfl
      | some j => exact (List.lookup_cons ..).trans (by rw [other]; rfl)

theorem Proper.unless {j : Json} (h : j.Proper) (p : Prop) [Decidable p] :
    ∀ i ∈ (if p then none else some j), i.Proper := by
  split
  · simp
  · simpa using h

theorem proper_map {o : Option α} (h : ∀ a ∈ o, (f a).Proper) : ∀ i ∈ o.map f, i.Proper := by
  rintro i hi
  obtain ⟨a, ha, rfl⟩ := Option.map_eq_some_iff.1 hi
  exact h a ha

theorem proper_present {fields : List (String × Option Json)}
    (h : ∀ f ∈ fields, ∀ j ∈ f.2, j.Proper) : (Json.record (present fields)).Proper := by
  refine .record fun f hf => ?_
  obtain ⟨e, he, hf⟩ := List.mem_flatMap.1 hf
  obtain ⟨j, hj, rfl⟩ := Option.map_eq_some_iff.1 (Option.mem_toList.1 hf)
  exact h e he j hj

end Json

namespace Record

theorem named?_map (fields : List (String × Json)) :
    named? (fields.map fun (k, v) => (some k, v)) = some fields := by
  rw [named?, List.mapM_map]
  induction fields with
  | nil => rfl
  | cons f fields ih =>
    rw [List.mapM_cons, ih]
    rfl

theorem distinct_of_nodup {fields : List (String × Json)} (h : (fields.map (·.1)).Nodup) :
    distinct fields = true := by
  induction fields with
  | nil => rfl
  | cons f fields ih =>
    obtain ⟨hf, h⟩ := List.nodup_cons.1 h
    have : fields.any (·.1 == f.1) = false := by
      rw [List.any_eq_false]
      intro x hx same
      have hx : x.1 ∈ fields.map (·.1) := List.mem_map_of_mem hx
      rw [beq_iff_eq.1 same] at hx
      exact hf hx
    simp [distinct, this, ih h]

/-- A record that is written with some of its fields, in order, is read with these fields. -/
theorem ofJson?_record {names : List String} {fields : List (String × Json)}
    (sub : (fields.map (·.1)).Sublist names) (nodup : names.Nodup) :
    ofJson? names (.record fields) = some ⟨false, fields⟩ := by
  have known : fields.filter (fun (k, _) => names.contains k) = fields := by
    rw [List.filter_eq_self]
    intro f hf
    simpa using sub.subset (List.mem_map_of_mem hf)
  rw [Json.record, ofJson?, named?_map]
  simp only [Option.bind_eq_bind, Option.bind_some, known]
  rw [if_pos (distinct_of_nodup (nodup.sublist sub))]

theorem ofJson?_present {names : List String} {fields : List (String × Option Json)}
    (same : fields.map (·.1) = names) (nodup : names.Nodup) :
    ofJson? names (.record (Json.present fields)) = some ⟨false, Json.present fields⟩ :=
  ofJson?_record (same ▸ Json.sublist_present fields) nodup

variable {r : Record} {name : String}

theorem required_eq (h : Rereads f g a) (field : r.get? name = some (f a)) :
    r.required name g = some a := by
  rw [required, field, Option.bind_some, h.read]

theorem withDefault_eq (h : Rereads f g a) (default : α) (field : r.get? name = some (f a)) :
    r.withDefault name g default = some a := by
  rw [withDefault, field]
  exact h.read

/-- A field that is left out if it has its default. -/
theorem withDefault_skipped {default : α} [Decidable (a = default)] (h : Rereads f g a)
    (field : r.get? name = if a = default then none else some (f a)) :
    r.withDefault name g default = some a := by
  rw [withDefault, field]
  split_ifs with hd
  · rw [hd]
  · exact h.read

/-- A field that is left out if its value is missing. -/
theorem withDefault_option {o : Option α} (h : ∀ a ∈ o, Rereads f g a ∧ (f a).isNull = false)
    (field : r.get? name = o.map f) : r.withDefault name (Json.toOption? g) none = some o := by
  rw [withDefault, field]
  cases o with
  | none => rfl
  | some a => exact Json.toOption?_eq (h a rfl).1.read (h a rfl).2

/-- A field that is written as `null` if its value is missing. -/
theorem optional_eq {o : Option α} (h : ∀ a ∈ o, Rereads f g a ∧ (f a).isNull = false)
    (field : r.get? name = some (.ofOption f o)) : r.optional name g = some o := by
  rw [optional, field]
  cases o with
  | none => rfl
  | some a => exact Json.toOption?_eq (h a rfl).1.read (h a rfl).2

end Record

end RichTable
