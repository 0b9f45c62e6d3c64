import Mathlib
import RichTable.Proofs.Editor.Apply
import RichTable.Proofs.Editor.Count
import RichTable.Proofs.Twin.Columns
import RichTable.Proofs.Twin.Merge

/-!
# Edits of twins

Two editors with the same settings whose documents hold the same table do the same when they are given
the same edit: they give the same answer or the same error, and hold the same table afterwards
(`lock_apply`). An edit that is refused leaves both documents as they were.
-/

namespace RichTable

open List

namespace Document

variable {L : Type} {R : Kind → NodeId → NodeId → Prop} {X : NodeId → Prop}
  {d d' : Document L} {t t' a b x y : NodeId}

theorem Twin.steady (h : Twin R X d d') (ht : R .table t t') (settled : d.Settled t) :
    d.Steady t where
  wf := h.wf
  kind := (h.kind ht).1
  settled := settled
  spans c hc := by
    obtain ⟨c', -, hc'⟩ := exists_related_of_mem (h.tableCells ht) hc
    exact h.spans hc'

theorem Twin.selectable (h : Twin R X d d') (hX : ∀ c, ¬ X c) (ht : R .table t t') :
    d.Selectable t where
  wf := h.wf
  kind := (h.kind ht).1
  attached := by
    rw [h.wf.mem_ancestors_of_parent (h.top ht).1]
    exact .inr (h.wf.self_mem_ancestors h.wf.root_lt_size)
  filled c hc := by
    obtain ⟨c', -, hc'⟩ := exists_related_of_mem (h.tableCells ht) hc
    have text := (h.text hc' (hX c)).left
    exact ⟨text.some, text.blocks⟩

/-- A selection from one cell of a table to another, in either direction. -/
structure Selects (d : Document L) (t a b : NodeId) (selection : Segment) : Prop where
  left : a ∈ d.tableCells t
  right : b ∈ d.tableCells t
  ends : d.boundaryCells? selection.start selection.stop = some (a, b) ∨
    d.boundaryCells? selection.start selection.stop = some (b, a)

namespace Selects

variable {selection : Segment}

theorem single (h : Selects d t a a selection) :
    d.boundaryCells? selection.start selection.stop = some (a, a) := h.ends.elim id id

theorem exists_ends (h : Selects d t a b selection) : ∃ x y,
    d.boundaryCells? selection.start selection.stop = some (x, y) ∧ x ∈ d.tableCells t ∧
      d.columnBounds? x y = d.columnBounds? a b := by
  rcases h.ends with eq | eq
  · exact ⟨a, b, eq, h.left, rfl⟩
  · exact ⟨b, a, eq, h.right, columnBounds?_comm b a⟩

end Selects

theorem Selectable.selects {e : Editor L} (h : e.doc.Selectable t) {source target : Nat × Nat}
    (ha : e.cellAt? t source.1 source.2 = some a) (hb : e.cellAt? t target.1 target.2 = some b) :
    ∃ selection, e.selectCells? t source target = some selection ∧ Selects e.doc t a b selection := by
  obtain ⟨selection, x, y, eq, ends, swap⟩ := Editor.exists_selectCells? h ha hb
  refine ⟨selection, eq, Editor.mem_tableCells_of_cellAt? h.wf h.kind ha,
    Editor.mem_tableCells_of_cellAt? h.wf h.kind hb, ?_⟩
  rcases swap with ⟨rfl, rfl⟩ | ⟨rfl, rfl⟩
  · exact .inl ends
  · exact .inr ends

/-- Selections by coordinates lead to the same cells. -/
theorem Twin.selectCells? {e e' : Editor L} (h : Twin R (fun _ => False) e.doc e'.doc)
    (ht : R .table t t') (source target : Nat × Nat) :
    Option.Rel (fun s s' => ∃ a b a' b', R .cell a a' ∧ R .cell b b' ∧
      (source = target → a = b ∧ a' = b') ∧ Selects e.doc t a b s ∧ Selects e'.doc t' a' b' s')
      (e.selectCells? t source target) (e'.selectCells? t' source target) := by
  have left := h.selectable (fun _ => not_false) ht
  have right := h.symm.selectable (fun _ ⟨_, _, h⟩ => h) ht
  have refused {s s' : Option Segment} (hs : s = none) (hs' : s' = none)
      {S : Segment → Segment → Prop} : Option.Rel S s s' := by
    rw [hs, hs']
    exact .none
  rcases optionRel_cases (h.cellAt? ht source.1 source.2) with ⟨h₁, h₂⟩ | ⟨a, a', h₁, h₂, ha⟩
  · exact refused (Editor.selectCells?_eq_none left.wf left.kind (.inl h₁))
      (Editor.selectCells?_eq_none right.wf right.kind (.inl h₂))
  rcases optionRel_cases (h.cellAt? ht target.1 target.2) with ⟨h₃, h₄⟩ | ⟨b, b', h₃, h₄, hb⟩
  · exact refused (Editor.selectCells?_eq_none left.wf left.kind (.inr (.inl h₃)))
      (Editor.selectCells?_eq_none right.wf right.kind (.inr (.inl h₄)))
  obtain ⟨s, hs, sel⟩ := left.selects h₁ h₃
  obtain ⟨s', hs', sel'⟩ := right.selects h₂ h₄
  rw [hs, hs']
  refine .some ⟨a, b, a', b', ha, hb, ?_, sel, sel'⟩
  rintro rfl
  exact ⟨Option.some.inj (h₁.symm.trans h₃), Option.some.inj (h₂.symm.trans h₄)⟩

end Document

namespace Action

open Document

variable {L : Type} {R : Kind → NodeId → NodeId → Prop} {d d' : Document L}
  {t t' a a' b b' : NodeId} {selection selection' : Segment}

theorem lock_selectedColumns {E : Document L → Document L → Prop} (h : Twin R (fun _ => False) d d')
    (ht : R .table t t') (settled : d.Settled t) (settled' : d'.Settled t') (ha : R .cell a a')
    (hb : R .cell b b') (sel : Selects d t a b selection) (sel' : Selects d' t' a' b' selection') :
    Lock (selectedColumns selection) (selectedColumns selection') d d'
      (fun r r' e e' => r = (d.columnBounds? a b).map (t, ·) ∧
        r' = (d.columnBounds? a b).map (t', ·) ∧ e = d ∧ e' = d') E := by
  obtain ⟨x, y, ends, hx, bounds⟩ := sel.exists_ends
  obtain ⟨x', y', ends', hx', bounds'⟩ := sel'.exists_ends
  have left := (ensures_selectedColumns (h.steady ht settled) ends hx
    (Q := fun r e => r = (d.columnBounds? x y).map (t, ·) ∧ e = d)).2 ⟨rfl, rfl⟩
  have right := (ensures_selectedColumns (h.symm.steady ht settled') ends' hx'
    (Q := fun r e => r = (d'.columnBounds? x' y').map (t', ·) ∧ e = d')).2 ⟨rfl, rfl⟩
  refine left.lock right ?_
  rintro _ _ _ _ ⟨rfl, rfl⟩ ⟨rfl, rfl⟩
  rw [bounds, bounds', ← h.columnBounds?_eq ha hb]
  exact ⟨rfl, rfl, rfl, rfl⟩

variable [Length L]

theorem lock_insertColumns (h : Twin R (fun _ => False) d d') (ht : R .table t t')
    (settled : d.Settled t) (settled' : d'.Settled t') (ha : R .cell a a') (hb : R .cell b b')
    (sel : Selects d t a b selection) (sel' : Selects d' t' a' b' selection') (count : Nat)
    (side : Side) :
    Lock (insertColumns selection count side) (insertColumns selection' count side) d d'
      (Followed t t' d d') (Paired t t') := by
  have paired : Paired t t' d d' := ⟨⟨R, h, ht⟩, settled, settled'⟩
  have refused : Followed t t' d d' false false d d' := ⟨rfl, fun _ => ⟨rfl, rfl⟩, .inl paired⟩
  unfold insertColumns
  by_cases h0 : count = 0
  · simp only [if_pos h0]
    exact lock_pure (E := Paired t t') refused
  simp only [if_neg h0]
  refine lock_bind ((lock_selectedColumns h ht settled settled' ha hb sel sel').mono ?_)
  rintro _ _ e e' ⟨rfl, rfl, he, he'⟩
  rw [he, he']
  cases d.columnBounds? a b with
  | none => exact lock_pure (E := Paired t t') refused
  | some columns =>
    refine lock_bind ((lock_insertColumnTimes _ count paired).mono fun _ _ _ _ paired => ?_)
    exact lock_pure (E := Paired t t') ⟨rfl, nofun, .inl paired⟩

/-- Columns are deleted all at once or not at all, unless the grid turns out to be malformed. -/
theorem lock_deleteColumns (h : Twin R (fun _ => False) d d') (ht : R .table t t')
    (settled : d.Settled t) (settled' : d'.Settled t') (ha : R .cell a a') (hb : R .cell b b')
    (sel : Selects d t a b selection) (sel' : Selects d' t' a' b' selection') (count : Nat) :
    Lock (deleteColumns selection count) (deleteColumns selection' count) d d'
      (Followed t t' d d') (Paired t t') := by
  have paired : Paired t t' d d' := ⟨⟨R, h, ht⟩, settled, settled'⟩
  have refused : Followed t t' d d' false false d d' := ⟨rfl, fun _ => ⟨rfl, rfl⟩, .inl paired⟩
  unfold deleteColumns
  refine lock_bind ((lock_selectedColumns h ht settled settled' ha hb sel sel').mono ?_)
  rintro _ _ e e' ⟨rfl, rfl, he, he'⟩
  rw [he, he']
  cases d.columnBounds? a b with
  | none => exact lock_pure (E := Paired t t') refused
  | some columns =>
    refine lock_get_bind ?_
    dsimp only
    rw [← h.columnCount_eq ht]
    split
    · exact lock_pure (E := Paired t t') refused
    · next possible =>
      push Not at possible
      have whole := ends_deleteColumnTimes (h.steady ht settled) possible.1 possible.2.1 possible.2.2
      refine ((lock_deleteColumnTimes columns.first count paired).and_left whole).mono ?_
      rintro _ _ e e' ⟨⟨rfl, paired⟩, rfl⟩
      exact ⟨rfl, nofun, .inl paired⟩

end Action

namespace EditorAction

open Document

variable {L : Type} {R : Kind → NodeId → NodeId → Prop} {e e' : Editor L} {t t' : NodeId}
  {α β : Type} {Q : α → β → Document L → Document L → Prop} {E : Document L → Document L → Prop}

/-- Editors with the given settings and documents that are related by `P`. -/
def OnDocuments (config : Config L) (P : Document L → Document L → Prop) (e e' : Editor L) : Prop :=
  P e.doc e'.doc ∧ e.config = config ∧ e'.config = config

theorem lock_onDocument {config : Config L} {a : Action L α} {a' : Action L β}
    (he : e.config = config) (he' : e'.config = config) (h : Lock a a' e.doc e'.doc Q E) :
    Lock (onDocument a) (onDocument a') e e' (fun x y => OnDocuments config (Q x y))
      (OnDocuments config E) := by
  simp only [Lock, onDocument_run] at h ⊢
  generalize a.run.run e.doc = r, a'.run.run e'.doc = r' at h ⊢
  rcases r with ⟨err | x, d⟩ <;> rcases r' with ⟨err' | y, d'⟩
  · exact ⟨h.1, h.2, he, he'⟩
  · exact h
  · exact h
  · exact ⟨h, he, he'⟩

/-- Counting does not change documents and settings. -/
theorem lock_touchIf {config : Config L} {P : Document L → Document L → Prop}
    {F : Editor L → Editor L → Prop} (h : OnDocuments config P e e') (done done' : Bool)
    (table table' : Option NodeId) :
    Lock (touchIf done table) (touchIf done' table') e e' (fun _ _ => OnDocuments config P) F := by
  have still (e : Editor L) (done : Bool) (table : Option NodeId) : Ensures (touchIf done table) e
      fun _ e₁ => e₁.doc = e.doc ∧ e₁.config = e.config := by
    unfold touchIf
    split
    · exact ensures_modify.2 ⟨rfl, rfl⟩
    · exact ensures_pure.2 ⟨rfl, rfl⟩
  refine (still e done table).lock (still e' done' table') ?_
  rintro _ _ e₁ e₁' ⟨hd, hc⟩ ⟨hd', hc'⟩
  rw [OnDocuments, hd, hd', hc, hc']
  exact h

/-- The end of most edits. -/
theorem lock_counted {config : Config L} {a : Action L α} {a' : Action L β} {done : α → Bool}
    {done' : β → Bool} {table table' : Option NodeId} (he : e.config = config)
    (he' : e'.config = config) (h : Lock a a' e.doc e'.doc Q E) :
    Lock (do let x ← onDocument a; touchIf (done x) table; return x)
      (do let x ← onDocument a'; touchIf (done' x) table'; return x) e e'
      (fun x y => OnDocuments config (Q x y)) (OnDocuments config E) := by
  refine lock_bind ((lock_onDocument he he' h).mono fun x y e₁ e₁' h => ?_)
  refine lock_bind ((lock_touchIf h _ _ _ _).mono fun _ _ e₂ e₂' h => ?_)
  exact lock_pure (E := OnDocuments config E) h

/-- A block that tells whether there is a result. -/
theorem lock_isSome {γ : Type} {a a' : EditorAction L (Option γ)}
    {P : Bool → Bool → Editor L → Editor L → Prop} {F : Editor L → Editor L → Prop}
    (h : Lock a a' e e' (fun r r' => P r.isSome r'.isSome) F) :
    Lock (do return (← a).isSome) (do return (← a').isSome) e e' P F :=
  lock_bind (h.mono fun _ _ _ _ h => lock_pure (E := F) h)

/-- Two editors with the same settings that hold the same table. -/
abbrev Siblings (config : Config L) (t t' : NodeId) : Editor L → Editor L → Prop :=
  OnDocuments config (Paired t t')

/-- Two answers, and the editors after them, if editors have been given the same edit. -/
abbrev Answered (config : Config L) (t t' : NodeId) (e e' : Editor L) (done done' : Bool) :
    Editor L → Editor L → Prop :=
  OnDocuments config (Followed t t' e.doc e'.doc done done')

variable {config : Config L}

theorem answered_refused (siblings : Siblings config t t' e e') :
    Answered config t t' e e' false false e e' :=
  ⟨⟨rfl, fun _ => ⟨rfl, rfl⟩, .inl siblings.1⟩, siblings.2⟩

theorem lock_refused (siblings : Siblings config t t' e e') {F : Editor L → Editor L → Prop} :
    Lock (pure false : EditorAction L Bool) (pure false : EditorAction L Bool) e e'
      (Answered config t t' e e') F :=
  lock_pure (E := F) (answered_refused siblings)

/-- Selections by coordinates lead to the same cells, or to none in both editors. -/
theorem lock_selectCells (siblings : Siblings config t t' e e') (source target : Nat × Nat)
    {f f' : Segment → EditorAction L Bool} {F : Editor L → Editor L → Prop}
    (found : ∀ R a b a' b' s s', Twin R (fun _ => False) e.doc e'.doc → R .table t t' →
      R .cell a a' → R .cell b b' → (source = target → a = b ∧ a' = b') →
      Selects e.doc t a b s → Selects e'.doc t' a' b' s' →
      Lock (f s) (f' s') e e' (Answered config t t' e e') F) :
    Lock (do
        match (← get).selectCells? t source target with
        | some selection => f selection
        | none => return false)
      (do
        match (← get).selectCells? t' source target with
        | some selection => f' selection
        | none => return false) e e' (Answered config t t' e e') F := by
  obtain ⟨R, h, ht⟩ := siblings.1.1
  refine lock_get_bind ?_
  rcases optionRel_cases (h.selectCells? ht source target) with
    ⟨h₁, h₂⟩ | ⟨s, s', h₁, h₂, a, b, a', b', ha, hb, single, sel, sel'⟩
  · simp only [h₁, h₂]
    exact lock_refused siblings
  · simp only [h₁, h₂]
    exact found R a b a' b' s s' h ht ha hb single sel sel'

theorem mem_children_of_locateRows? {first last i j : Nat} {g : NodeId}
    (h : e.locateRows? t first last = some (g, i, j)) : g ∈ e.doc.children t := by
  rw [Editor.locateRows?] at h
  split at h
  · cases h
  · next hle =>
    obtain ⟨pre, post, split, -⟩ := locateIn_eq h (Nat.zero_le _) (Nat.le_of_not_lt hle)
    simp [split]

variable [Length L]

/-- Both editors do the same with an edit. -/
abbrev Locked (config : Config L) (t t' : NodeId) (edit : Edit L) (e e' : Editor L) : Prop :=
  Lock (apply t edit) (apply t' edit) e e' (Answered config t t' e e') (Siblings config t t')

theorem lock_apply_insertRows (siblings : Siblings config t t' e e') (row count : Nat) (side : Side) :
    Locked config t t' (.insertRows row count side) e e' := by
  obtain ⟨⟨⟨R, h, ht⟩, settled, settled'⟩, he, he'⟩ := id siblings
  refine lock_isSome (lock_get_bind ?_)
  rcases optionRel_cases (getElem?_related (h.tableRows ht) row) with
    ⟨h₁, h₂⟩ | ⟨r, r', h₁, h₂, hr⟩
  · simp only [h₁, h₂]
    exact lock_pure (E := Siblings config t t') (answered_refused siblings)
  · obtain ⟨g, hg, i, hi⟩ := exists_group_of_mem_tableRows (mem_of_getElem? h₁)
    obtain ⟨g', -, hgg⟩ := exists_related_of_mem (h.children ht rfl) hg
    simp only [h₁, h₂]
    exact lock_counted he he'
      (Action.lock_insertRows h ht settled settled' hgg hg hr (mem_of_getElem? hi) count side)

theorem lock_apply_deleteRows (siblings : Siblings config t t' e e') (first last : Nat) :
    Locked config t t' (.deleteRows first last) e e' := by
  obtain ⟨⟨⟨R, h, ht⟩, settled, settled'⟩, he, he'⟩ := id siblings
  refine lock_get_bind ?_
  rcases optionRel_cases (h.locateRows? ht first last) with
    ⟨h₁, h₂⟩ | ⟨⟨g, i, j⟩, ⟨g', _⟩, h₁, h₂, hg, rfl⟩
  · simp only [h₁, h₂]
    exact lock_refused siblings
  · simp only [h₁, h₂]
    exact lock_counted he he' (Action.lock_deleteRowInterval h ht settled settled' hg
      (mem_children_of_locateRows? h₁) i j)

theorem lock_apply_insertColumns (siblings : Siblings config t t' e e') (column count : Nat)
    (side : Side) : Locked config t t' (.insertColumns column count side) e e' := by
  obtain ⟨⟨-, settled, settled'⟩, he, he'⟩ := id siblings
  refine lock_selectCells siblings _ _ fun R a b a' b' s s' h ht ha hb _ sel sel' => ?_
  exact lock_get_bind (lock_counted he he'
    (Action.lock_insertColumns h ht settled settled' ha hb sel sel' count side))

theorem lock_apply_deleteColumns (siblings : Siblings config t t' e e') (first last : Nat) :
    Locked config t t' (.deleteColumns first last) e e' := by
  obtain ⟨⟨-, settled, settled'⟩, he, he'⟩ := id siblings
  refine lock_selectCells siblings _ _ fun R a b a' b' s s' h ht ha hb _ sel sel' => ?_
  obtain ⟨x, y, ends, hx, bounds⟩ := sel.exists_ends
  obtain ⟨x', y', ends', hx', bounds'⟩ := sel'.exists_ends
  refine lock_get_bind ?_
  simp only [ends, ends', h.wf.tableOfCell?_eq (h.kind ht).1 hx,
    h.wf'.tableOfCell?_eq (h.kind ht).2 hx']
  have placed : Lock (Action.place t) (Action.place t') e.doc e'.doc
      (fun _ _ f f' => f = e.doc ∧ f' = e'.doc) (Paired t t') := by
    have left := (Action.ensures_place_steady (h.steady ht settled) (Q := fun _ f => f = e.doc)).2 rfl
    have right := (Action.ensures_place_steady (h.symm.steady ht settled')
      (Q := fun _ f => f = e'.doc)).2 rfl
    exact left.lock right fun _ _ _ _ hf hf' => ⟨hf, hf'⟩
  refine lock_bind ((lock_onDocument he he' placed).mono ?_)
  rintro _ _ f f' ⟨⟨hf, hf'⟩, hc, hc'⟩
  refine lock_get_bind ?_
  rw [← hf] at h sel settled bounds
  rw [← hf'] at h sel' settled' bounds'
  rw [bounds, bounds', ← h.columnBounds?_eq ha hb]
  have siblings : Siblings config t t' f f' := ⟨⟨⟨R, h, ht⟩, settled, settled'⟩, hc, hc'⟩
  show Lock _ _ f f' (fun done done' => OnDocuments config (Followed t t' e.doc e'.doc done done')) _
  rw [← hf, ← hf']
  cases f.doc.columnBounds? a b with
  | none => exact lock_refused siblings
  | some columns =>
    exact lock_counted hc hc' (Action.lock_deleteColumns h ht settled settled' ha hb sel sel' _)

theorem lock_apply_merge (siblings : Siblings config t t' e e') (rect : CellRect) :
    Locked config t t' (.merge rect) e e' := by
  obtain ⟨⟨⟨R, h, ht⟩, settled, settled'⟩, he, he'⟩ := id siblings
  refine lock_isSome (lock_get_bind ?_)
  rcases optionRel_cases (h.locateRows? ht rect.top rect.bottom) with
    ⟨h₁, h₂⟩ | ⟨⟨g, i, j⟩, ⟨g', _⟩, h₁, h₂, hg, rfl⟩
  · simp only [h₁, h₂]
    exact lock_pure (E := Siblings config t t') (answered_refused siblings)
  · simp only [h₁, h₂]
    exact lock_counted he he' (Action.lock_mergeRect h ht settled settled' hg
      (mem_children_of_locateRows? h₁) _)

theorem lock_apply_split (siblings : Siblings config t t' e e')
    (row column horizontal vertical : Nat) :
    Locked config t t' (.split row column horizontal vertical) e e' := by
  obtain ⟨⟨-, settled, settled'⟩, he, he'⟩ := id siblings
  refine lock_selectCells siblings _ _ fun R a b a' b' s s' h ht ha hb single sel sel' => ?_
  obtain ⟨rfl, rfl⟩ := single rfl
  exact lock_isSome (lock_get_bind (lock_counted he he' (Action.lock_splitCell h ht settled settled'
    ha sel.left sel.single sel'.single horizontal vertical)))

/-- Dropping a border that is dragged in both tables. -/
theorem lock_commitDrag (siblings : Siblings config t t' e e') {drag drag' : ColumnDrag L}
    (table : drag.table = t) (same : drag' = { drag with table := t' }) (x : L)
    {F : Editor L → Editor L → Prop} :
    Lock (commitDrag drag x) (commitDrag drag' x) e e' (Answered config t t' e e') F := by
  obtain ⟨⟨⟨R, h, ht⟩, settled, settled'⟩, he, he'⟩ := id siblings
  subst same
  refine lock_get_bind ?_
  have followed : Followed t t' e.doc e'.doc (drag.commit e.doc x).1
      (ColumnDrag.commit { drag with table := t' } e'.doc x).1 (drag.commit e.doc x).2
      (ColumnDrag.commit { drag with table := t' } e'.doc x).2 := by
    have refused := (answered_refused siblings).1
    simp only [ColumnDrag.commit, table, ← h.columnCount_eq ht, h.table ht]
    split
    · exact refused
    split
    · exact refused
    · refine ⟨rfl, nofun, .inl ⟨⟨R, h.modifyTable ht _, ht⟩, ?_, ?_⟩⟩
      · exact h.wf.settled_modifyTable (h.kind ht).1 settled fun _ => rfl
      · exact h.wf'.settled_modifyTable (h.kind ht).2 settled' fun _ => rfl
  generalize drag.commit e.doc x = r, ColumnDrag.commit { drag with table := t' } e'.doc x = r'
    at followed ⊢
  obtain ⟨⟨done, d⟩, ⟨done', d'⟩⟩ := r, r'
  have touched : Answered config t t' e e' done done' { e with doc := d } { e' with doc := d' } :=
    ⟨followed, he, he'⟩
  refine lock_bind (lock_set (lock_bind ((lock_touchIf touched _ _ _ _).mono fun _ _ _ _ h => ?_)))
  exact lock_pure (E := F) h

/-- Columns have the same widths, so that a drag does the same to both tables. -/
theorem lock_apply_resizeColumn (siblings : Siblings config t t' e e') (column : Nat) (delta : L) :
    Locked config t t' (.resizeColumn column delta) e e' := by
  obtain ⟨⟨⟨R, h, ht⟩, -⟩, he, he'⟩ := id siblings
  refine lock_get_bind ?_
  have layout : ColumnLayout.compute? e'.doc t' e'.config.autofitWidth =
      ColumnLayout.compute? e.doc t e.config.autofitWidth := by
    rw [ColumnLayout.compute?, ColumnLayout.compute?, h.table ht, he, he']
  simp only [layout]
  cases ColumnLayout.compute? e.doc t e.config.autofitWidth with
  | none => exact lock_refused siblings
  | some layout =>
    simp only [Option.bind_eq_bind, Option.bind_some, ColumnDrag.ofLayout?]
    cases layout.rect? column with
    | none => exact lock_refused siblings
    | some rect => exact lock_commitDrag siblings rfl rfl _

/-- Editors that hold the same table do the same with every edit. -/
theorem lock_apply (siblings : Siblings config t t' e e') (edit : Edit L) :
    Locked config t t' edit e e' := by
  cases edit with
  | insertRows row count side => exact lock_apply_insertRows siblings row count side
  | deleteRows first last => exact lock_apply_deleteRows siblings first last
  | insertColumns column count side => exact lock_apply_insertColumns siblings column count side
  | deleteColumns first last => exact lock_apply_deleteColumns siblings first last
  | merge rect => exact lock_apply_merge siblings rect
  | split row column horizontal vertical =>
    exact lock_apply_split siblings row column horizontal vertical
  | resizeColumn column delta => exact lock_apply_resizeColumn siblings column delta

end EditorAction

end RichTable
