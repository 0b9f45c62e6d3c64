import Mathlib
import RichTable.Proofs.Editor.Texts
import RichTable.Proofs.Twin.Editor
import RichTable.Proofs.Twin.Opposite

/-!
# Sessions with the same table

What a session does depends on its settings and on the description of its table only. Sessions with the
same table answer every edit alike and go on holding the same table (`Alike.apply`), whatever has
happened before: the table need not be regular, and edits may have failed. So a session that loads the
description of another session's table cannot be told from it (`trace_load_outline`).

Compared with itself, a session shows what its answers mean: `false` stands for no change. Together with
the count of edits this ties the revision, the mark for changes and the table to the answers
(`revision_load`).
-/

namespace RichTable.Session

open Document

variable {L : Type} {s s' : Session L} {t t' : NodeId}

theorem outline?_congr (table : s'.table = s.table) (doc : s'.editor.doc = s.editor.doc) :
    s'.outline? = s.outline? := by
  rw [outline?, outline?, liveTable?, liveTable?, table, doc]

/-- Sessions with the same settings and the same table, which may have been deleted. -/
structure Alike (s s' : Session L) (t t' : NodeId) : Prop where
  table : s.table = some t
  table' : s'.table = some t'
  config : s'.editor.config = s.editor.config
  alike : Document.Alike t t' s.editor.doc s'.editor.doc

namespace Alike

/-- Either both sessions have a table, or neither has. -/
theorem live (h : Alike s s' t t') :
    s.liveTable? = some t ∧ s'.liveTable? = some t' ∧ Paired t t' s.editor.doc s'.editor.doc ∨
      s.liveTable? = none ∧ s'.liveTable? = none := by
  rw [liveTable?, liveTable?, h.table, h.table', Option.filter_some, Option.filter_some]
  rcases h.alike with paired | ⟨gone, gone'⟩
  · obtain ⟨⟨R, twin, ht⟩, -⟩ := id paired
    have attached := (twin.selectable (fun _ => not_false) ht).attached
    have none' : ∀ x, ¬ ∃ c, R .cell c x ∧ False := fun x ex => ex.elim fun _ h => h.2
    have attached' := (twin.symm.selectable none' ht).attached
    rw [if_pos (twin.wf.isAttached_iff.2 attached), if_pos (twin.wf'.isAttached_iff.2 attached')]
    exact .inl ⟨rfl, rfl, paired⟩
  · rw [gone, gone']
    exact .inr ⟨rfl, rfl⟩

theorem outline?_eq (h : Alike s s' t t') : s.outline? = s'.outline? := by
  rw [outline?, outline?]
  rcases h.live with ⟨live, live', ⟨R, twin, ht⟩, -⟩ | ⟨gone, gone'⟩
  · rw [live, live', Option.bind_some, Option.bind_some, twin.outline?_eq ht fun _ _ => not_false]
  · rw [gone, gone', Option.bind_none, Option.bind_none]

variable [Length L]

/-- An edit has the same answer in both sessions, and leaves the same table behind. The answer `false`
stands for no change. -/
theorem apply (h : Alike s s' t t') (edit : Edit L) :
    (s.apply edit).1 = (s'.apply edit).1 ∧ Alike (s.apply edit).2 (s'.apply edit).2 t t' ∧
      ((s.apply edit).1 = .ok false → (s.apply edit).2.outline? = s.outline?) := by
  rcases h.live with ⟨live, live', paired⟩ | ⟨gone, gone'⟩
  · have lock := EditorAction.lock_apply ⟨paired, rfl, h.config⟩ edit
    rw [apply_of_live live, apply_of_live live']
    dsimp only [EditorAction.Locked, Lock] at lock
    generalize (EditorAction.apply t edit).run.run s.editor = r,
      (EditorAction.apply t' edit).run.run s'.editor = r' at lock ⊢
    rcases r with ⟨err | done, e⟩ <;> rcases r' with ⟨err' | done', e'⟩
    · obtain ⟨rfl, paired, hc, hc'⟩ := lock
      exact ⟨rfl, ⟨h.table, h.table', hc'.trans hc.symm, .inl paired⟩, nofun⟩
    · exact lock.elim
    · exact lock.elim
    · obtain ⟨⟨rfl, unchanged, alike⟩, hc, hc'⟩ := lock
      refine ⟨rfl, ⟨h.table, h.table', hc'.trans hc.symm, alike⟩, fun refused => ?_⟩
      exact outline?_congr rfl (unchanged (Except.ok.inj refused)).1
  · rw [apply_of_not_live gone, apply_of_not_live gone']
    exact ⟨rfl, h, fun _ => rfl⟩

end Alike

variable [Length L]

/-- A session that has loaded a table is alike itself. -/
theorem exists_alike_load (start : Session L) (outline : TableOutline L) :
    ∃ t, Alike (start.load outline).2 (start.load outline).2 t t := by
  obtain ⟨s, t, load, table, loaded, -⟩ := start.exists_load outline
  rw [load]
  exact ⟨t, table, table, rfl, .inl loaded.standing.paired⟩

theorem Alike.applyAll (h : Alike s s' t t') (edits : List (Edit L)) :
    Alike (s.applyAll edits) (s'.applyAll edits) t t' := by
  induction edits generalizing s s' with
  | nil => exact h
  | cons edit edits ih => exact ih (h.apply edit).2.1

/-! ## Descriptions -/

/-- The answers to edits, each with the description of the table afterwards. -/
def trace (s : Session L) : List (Edit L) → List (Except EditError Bool × Option (TableOutline L))
  | [] => []
  | edit :: edits =>
    ((s.apply edit).1, (s.apply edit).2.outline?) :: (s.apply edit).2.trace edits

theorem Alike.trace_eq (h : Alike s s' t t') (edits : List (Edit L)) :
    s.trace edits = s'.trace edits := by
  induction edits generalizing s s' with
  | nil => rfl
  | cons edit edits ih =>
    obtain ⟨answer, next, -⟩ := h.apply edit
    rw [trace, trace, answer, next.outline?_eq, ih next]

/-- The description of a session's table says all there is to know about it: a new session that loads
the description gives it back, and answers all further edits alike. -/
theorem trace_load_outline {start : Session L} {outline description : TableOutline L}
    {edits : List (Edit L)} (reached : s = (start.load outline).2.applyAll edits)
    (live : s.outline? = some description) :
    ∃ s', (ofConfig s.editor.config).load description = (.ok (), s') ∧
      s'.outline? = some description ∧ ∀ more, s'.trace more = s.trace more := by
  obtain ⟨t, alike⟩ := exists_alike_load start outline
  have alike := reached ▸ alike.applyAll edits
  obtain ⟨s', t', load, table', loaded, config, -⟩ := (ofConfig s.editor.config).exists_load description
  rcases alike.live with ⟨live', -, paired⟩ | ⟨gone, -⟩
  · rw [outline?, live', Option.bind_some] at live
    have copy : Alike s s' t t' :=
      ⟨alike.table, table', config, .inl (paired.standing.paired_of_outline live loaded)⟩
    refine ⟨s', load, ?_, fun more => (copy.trace_eq more).symm⟩
    rw [← copy.outline?_eq, outline?, live', Option.bind_some, live]
  · rw [outline?, gone] at live
    cases live

/-- Two rows of different lengths. -/
def ragged : TableOutline Int where
  groups := [[[{ text := "a" }, { text := "b" }], [{ text := "c" }]]]

/-- A session with such a table, after a merge that has failed because of the shorter row. -/
def raggedMerged : Session Int := ((ofConfig .standard).load ragged).2.applyAll [.merge ⟨0, 0, 0, 1⟩]

/-- What the merge has left behind: one cell with two paragraphs above one that is too narrow. -/
def raggedDescription : TableOutline Int where
  cellSpacing := some 0
  groups := [[[{ columnSpan := 2, text := "a\nb", columnIndex := some 0 }],
    [{ text := "c", columnIndex := some 0 }]]]

theorem trace_load_outline_raggedMerged :
    raggedMerged.outline? = some raggedDescription ∧
      ∃ s', (ofConfig raggedMerged.editor.config).load raggedDescription = (.ok (), s') ∧
        s'.outline? = some raggedDescription ∧ ∀ more, s'.trace more = raggedMerged.trace more := by
  have live : raggedMerged.outline? = some raggedDescription := by decide +kernel
  exact ⟨live, trace_load_outline rfl live⟩

/-! ## Revisions -/

omit [Length L] in
theorem Alike.clearDirty (h : Alike s s' t t') : Alike s.clearDirty s'.clearDirty t t' :=
  ⟨h.table, h.table', h.config, h.alike⟩

/-- An edit is counted exactly if the answer is `true`. -/
theorem tally_apply (s : Session L) (edit : Edit L) :
    (s.apply edit).2.editor.revision = s.editor.revision + (tookEffect id (s.apply edit).1).toNat ∧
      (s.apply edit).2.editor.isDirty = (s.editor.isDirty || tookEffect id (s.apply edit).1) := by
  cases live : s.liveTable? with
  | none =>
    rw [apply_of_not_live live]
    exact ⟨rfl, (Bool.or_false _).symm⟩
  | some t =>
    obtain ⟨result, d, u, run⟩ := EditorAction.counted_apply s.editor.doc s.editor.config t edit
    rw [apply_of_live live, run s.editor rfl rfl]
    exact ⟨s.editor.revision_tally _ d u, s.editor.isDirty_tally _ d u⟩

/-- A call of a session that has loaded its table. -/
inductive Call (L : Type) where
  | apply (edit : Edit L)
  | clearDirty

/-- The session after a call, whatever the answer is. -/
def perform (s : Session L) : Call L → Session L
  | .apply edit => (s.apply edit).2
  | .clearDirty => s.clearDirty

/-- The session after some calls. -/
def performAll (s : Session L) (calls : List (Call L)) : Session L := calls.foldl perform s

/-- How many of some calls are edits with the answer `true`. -/
def effects (s : Session L) : List (Call L) → Nat
  | [] => 0
  | .apply edit :: calls =>
    (tookEffect id (s.apply edit).1).toNat + (s.perform (.apply edit)).effects calls
  | .clearDirty :: calls => (s.perform .clearDirty).effects calls

theorem revision_performAll (s : Session L) (calls : List (Call L)) :
    (s.performAll calls).editor.revision = s.editor.revision + s.effects calls := by
  induction calls generalizing s with
  | nil => rfl
  | cons call calls ih =>
    refine (ih (s.perform call)).trans ?_
    cases call with
    | apply edit => rw [perform, (s.tally_apply edit).1, effects, Nat.add_assoc, perform]
    | clearDirty => rfl

theorem Alike.performAll (h : Alike s s' t t') (calls : List (Call L)) :
    Alike (s.performAll calls) (s'.performAll calls) t t' := by
  induction calls generalizing s s' with
  | nil => exact h
  | cons call calls ih =>
    cases call with
    | apply edit => exact ih (h.apply edit).2.1
    | clearDirty => exact ih h.clearDirty

/-- What an answer says about the session before and after an edit. -/
def Reports (before after : Session L) : Except EditError Bool → Prop
  | .ok true => after.editor.revision = before.editor.revision + 1 ∧ after.editor.isDirty = true
  | .ok false => after.editor.revision = before.editor.revision ∧
      after.editor.isDirty = before.editor.isDirty ∧ after.outline? = before.outline?
  | .error _ => after.editor.revision = before.editor.revision ∧
      after.editor.isDirty = before.editor.isDirty

theorem Alike.reports (h : Alike s s t t) (edit : Edit L) :
    Reports s (s.apply edit).2 (s.apply edit).1 := by
  obtain ⟨revision, dirty⟩ := s.tally_apply edit
  have unchanged := (h.apply edit).2.2
  generalize (s.apply edit).1 = answer at *
  match answer with
  | .ok true => exact ⟨revision, dirty.trans (Bool.or_true _)⟩
  | .ok false => exact ⟨revision, dirty.trans (Bool.or_false _), unchanged rfl⟩
  | .error _ => exact ⟨revision, dirty.trans (Bool.or_false _)⟩

/-- After a table has been loaded, the revision is one more than the number of edits that have taken
effect, and every further answer is true to what has happened. -/
theorem revision_load (start : Session L) (outline : TableOutline L) (calls : List (Call L)) :
    ((start.load outline).2.performAll calls).editor.revision =
        1 + (start.load outline).2.effects calls ∧
      ∀ edit, Reports ((start.load outline).2.performAll calls)
        (((start.load outline).2.performAll calls).apply edit).2
        (((start.load outline).2.performAll calls).apply edit).1 := by
  obtain ⟨t, alike⟩ := exists_alike_load start outline
  obtain ⟨s, -, load, -, -, -, -, revision⟩ := start.exists_load outline
  refine ⟨?_, (alike.performAll calls).reports⟩
  rw [revision_performAll, load, revision]

end RichTable.Session
