import Mathlib
import RichTable.Proofs.Edit.Anchor
import RichTable.Proofs.Edit.MergeGrid

/-!
# Borders after edits

Rows are inserted and deleted with the borders of the whole table corrected before it is placed,
columns with these corrected after it is placed, and cells are merged and split with only the borders of
their row group corrected. So whatever was loose before, only cells of rows just inserted are loose
after inserting rows, and none are after deleting rows or editing columns (`Kempt`).
-/

namespace RichTable

section

variable {ε σ α : Type} {a : ExceptT ε (StateM σ) α} {s : σ} {Q R : α → σ → Prop} {E : ε → σ → Prop}

/-- What is known of every outcome holds of the one there is. -/
theorem Ensures.and_ends (h : Ensures a s Q) (h' : Ends a s R E) :
    Ensures a s fun x s' => Q x s' ∧ R x s' := by
  obtain ⟨x, s', run, hq⟩ := h
  rw [Ends, run] at h'
  exact ⟨x, s', run, hq, h'⟩

end

namespace Document

variable {L : Type} {d d' e : Document L} {t g : NodeId}

theorem WellFormed.anchors_root (wf : d.WellFormed) : Anchors (fun _ => False) (· = root) d where
  parent _ := False.elim
  closed p hp := ⟨.other, hp ▸ wf.root_kind, rfl, by decide⟩

variable [Length L]

theorem Anchored.unspaced {S T : NodeId → Prop} (h : Anchored S T d d') (ht : t < d.size)
    (unspaced : d.Unspaced t) : d'.Unspaced t := fun props hp => by
  have same := h.spacing t ht
  rw [hp, Option.map_some, eq_comm, Option.map_eq_some_iff] at same
  obtain ⟨old, hold, heq⟩ := same
  exact heq ▸ unspaced old hold

/-- The nodes made since the document had `since` of them. -/
def MadeSince (since : Option NodeId) (c : NodeId) : Prop := ∃ n ∈ since, n ≤ c

/-- A sound table without cell spacing, which is all that stands below the root. While it does, its
cells have the borders that belong to their places. Only cells made since some rows were inserted may be
loose. -/
structure Kempt (d : Document L) (t : NodeId) (since : Option NodeId) : Prop where
  sound : d.Sound t
  unspaced : d.Unspaced t
  sole : ∀ x, d.parent? x = some root → x = t
  bordered : d.parent? t = some root → d.Bordered t (MadeSince since)

/-- What is left to show when an edit is known to keep to the inside of tables. -/
theorem Kempt.of_anchored {since since' : Option NodeId} (h : d.Kempt t since)
    (anchored : Anchored (fun _ => False) (· = root) d d') (sound : d'.Sound t)
    (bordered : d'.parent? t = some root → d'.Unspaced t → d.Bordered t (MadeSince since) →
      d'.Bordered t (MadeSince since')) : d'.Kempt t since' := by
  have unspaced := anchored.unspaced (lt_size_of_kind? h.sound.regular.kind) h.unspaced
  exact ⟨sound, unspaced, fun x hx => h.sole x (anchored.closed root rfl x hx), fun hp =>
    bordered hp unspaced (h.bordered (anchored.closed root rfl t hp))⟩

/-- A merge is an edit of one row group. -/
theorem MergeStages.groupEdit {d₁ : Document L} {rect : CellRect} {v : NodeId} {cells : List NodeId}
    (h : MergeStages d d₁ e d' t g rect v cells) : GroupEdit d e d' t g d.shape.start where
  regular := h.regular
  tile := ⟨_, h.tileable⟩
  groups := h.children_table
  first := by
    rw [← h.laid.same.children, h.children_group]
    cases hrows : d.children g with
    | nil => rfl
    | cons row rows =>
      have stays : row ∉ d.emptied g rect cells rect.top := fun hmem => by
        obtain ⟨⟨k, hk, -, hrow⟩, -⟩ := mem_emptied.1 hmem
        have := h.regular.wf.index_unique (i := 0) (by rw [hrows]; rfl) hrow
        omega
      rw [List.filter_cons_of_pos (by simpa using stays)]
      rfl
  other q hq hqg := by
    obtain ⟨children, rows, cell⟩ := h.other hq hqg
    exact ⟨children, rows, fun hs => ⟨cell hs, rfl⟩⟩
  borders := h.borders

end Document

namespace Action

open Document

variable {L : Type} [Length L] {d : Document L} {t g : NodeId} {since : Option NodeId}

/-- After rows have been inserted, the cells of these rows may be loose. -/
theorem kempt_insertRows (h : d.Kempt t since) {reference : NodeId} (hr : reference ∈ d.tableRows t)
    (count : Nat) (side : Side) :
    Ensures (insertRows reference count side) d fun range d' =>
      d'.Kempt t (if range.isSome then some d.size else since) := by
  have reg := h.sound.regular
  obtain ⟨g, hg, hr⟩ := List.mem_flatMap.1 hr
  refine ((ensures_insertRows_tidied reg hg hr count side).and_ends
    (reg.wf.anchors_root.insertRows reference count side d (.refl reg.wf))).mono ?_
  rintro range d' ⟨⟨done, hd⟩, anchored⟩
  rw [done]
  rcases hd with ⟨rfl, rfl⟩ | ⟨hcount, e, poised, inherits, rfl⟩
  · exact h
  · rw [if_pos (decide_eq_true hcount)]
    exact h.of_anchored anchored (h.sound.of_inherits poised.regular
      (inherits.trans_sameTree poised.same)) fun _ unspaced _ =>
        (poised.bordered unspaced).mono fun c hc => ⟨d.size, rfl, hc⟩

/-- After rows have been deleted, no cell is loose. -/
theorem kempt_deleteRowInterval (h : d.Kempt t since) (hg : g ∈ d.children t) (first last : Nat) :
    Ensures (deleteRowInterval g first last) d fun done d' =>
      d'.Kempt t (if done then none else since) := by
  have reg := h.sound.regular
  refine ((ensures_deleteRowInterval_tidied reg hg first last).and_ends
    (reg.wf.anchors_root.deleteRowInterval reg.wf (reg.wf.mem_children.1 hg) (fun _ _ _ => id)
      (fun _ _ => id) fun _ _ _ => id)).mono ?_
  rintro done d' ⟨hd, anchored⟩
  split_ifs at hd with hrange hall
  · obtain ⟨rfl, rfl⟩ := hd
    refine h.of_anchored anchored ⟨regular_detach reg (tableRows_ne_nil_of_lt hg hrange.2),
      h.sound.filled_detach⟩ fun hp => ?_
    rw [parent?_detach, if_pos rfl] at hp
    cases hp
  · obtain ⟨rfl, e, poised, inherits, rfl⟩ := hd
    exact h.of_anchored anchored (h.sound.of_inherits poised.regular
      (inherits.trans_sameTree poised.same)) fun _ unspaced _ =>
        (poised.bordered unspaced).mono fun _ => False.elim
  · obtain ⟨rfl, rfl⟩ := hd
    exact h

theorem kempt_mergeRect (h : d.Kempt t since) (hg : g ∈ d.children t) (rect : CellRect) :
    Ensures (mergeRect g rect) d fun _ d' => d'.Kempt t since := by
  have reg := h.sound.regular
  refine ((ensures_mergeRect_stages reg hg rect).and_ends
    (reg.wf.anchors_root.mergeRect reg.wf fun _ _ => id)).mono ?_
  rintro caret d' ⟨hd, anchored⟩
  split at hd
  · obtain ⟨-, rfl⟩ := hd
    exact h
  · obtain ⟨v, d₁, e, stages, -⟩ := hd
    exact h.of_anchored anchored ⟨stages.regular', stages.merged.filled reg.wf reg.kind h.sound.filled⟩
      fun _ unspaced bordered => stages.groupEdit.bordered bordered unspaced

theorem kempt_splitCell (h : d.Kempt t since) {selection : Segment}
    (inside : ∀ cell other, d.boundaryCells? selection.start selection.stop = some (cell, other) →
      cell ∈ d.tableCells t) (horizontal vertical : Nat) :
    Ensures (splitCell selection horizontal vertical) d fun _ d' => d'.Kempt t since := by
  have reg := h.sound.regular
  refine ((ensures_splitCell_edit reg inside horizontal vertical).and_ends
    (reg.wf.anchors_root.splitCell selection horizontal vertical d (.refl reg.wf))).mono ?_
  rintro caret d' ⟨rfl | ⟨g, e, s, edit, inherits⟩, anchored⟩
  · exact h
  · exact h.of_anchored anchored (h.sound.of_inherits edit.regular'
      (inherits.trans_sameTree edit.laid.same)) fun _ unspaced bordered =>
        edit.bordered bordered unspaced

/-! ## Columns -/

/-- Correcting all borders leaves no cell loose. -/
theorem ends_correctBorders_bordered {e : Document L} (h : d.Kempt t since)
    (anchored : Anchored (fun _ => False) (· = root) d e) (ht : e.kind? t = some .table)
    {E : EditError → Document L → Prop} :
    Ends (correctBorders t) e (fun _ d' => Anchored (fun _ => False) (· = root) d d' ∧
      d'.Bordered t (MadeSince none)) E := by
  have unspaced := anchored.unspaced (lt_size_of_kind? h.sound.regular.kind) h.unspaced
  refine (((ensures_correctBorders_bordered anchored.wf ht unspaced).and_ends
    (Anchors.still (still_correctBorders t) e anchored)).mono ?_).ends
  rintro _ d' ⟨bordered, anchored⟩
  exact ⟨anchored, bordered.mono fun _ => False.elim⟩

theorem kempt_insertColumn (h : d.Kempt t since) (after : Option Nat) (hn : 0 < d.columnCount t) :
    Ensures (insertColumn t after) d fun _ d' =>
      d'.Kempt t none ∧ d'.columnCount t = d.columnCount t + 1 := by
  have reg := h.sound.regular
  refine ((ensures_insertColumn reg hn after).and_ends (reg.wf.anchors_root.ends_insertColumn
    (E := fun _ _ => True) (fun _ _ _ => trivial) (fun s anchored ht =>
      ends_correctBorders_bordered h anchored ht) (.refl reg.wf))).mono ?_
  rintro _ d' ⟨⟨reg', inherits, count⟩, anchored, bordered⟩
  exact ⟨h.of_anchored anchored (h.sound.of_inherits reg' inherits) fun _ _ _ => bordered, count⟩

theorem kempt_deleteColumn (h : d.Kempt t since) {k : Nat} (hn : 1 < d.columnCount t)
    (hk : k < d.columnCount t) : Ensures (deleteColumn t k) d fun done d' =>
      done = true ∧ d'.Kempt t none ∧ d'.columnCount t = d.columnCount t - 1 := by
  have reg := h.sound.regular
  refine ((ensures_deleteColumn reg hn hk).and_ends (reg.wf.anchors_root.ends_deleteColumn
    (Q := fun done d' => done = true → Anchored (fun _ => False) (· = root) d d' ∧
      d'.Bordered t (MadeSince none)) (E := fun _ _ => True) (fun _ _ _ => trivial) (fun _ _ => nofun)
    (fun s anchored ht => (ends_correctBorders_bordered h anchored ht).mono (fun _ _ h _ => h)
      fun _ _ => id) (.refl reg.wf))).mono ?_
  rintro done d' ⟨⟨rfl, reg', inherits, count, -⟩, finished⟩
  obtain ⟨anchored, bordered⟩ := finished rfl
  exact ⟨rfl, h.of_anchored anchored (h.sound.of_inherits reg' inherits) fun _ _ _ => bordered, count⟩

theorem kempt_insertColumnTimes (h : d.Kempt t since) (after : Option Nat) (hn : 0 < d.columnCount t)
    (count : Nat) : Ensures (insertColumnTimes t after count) d fun _ d' =>
      d'.Kempt t (if count = 0 then since else none) := by
  induction count generalizing d since with
  | zero => exact ensures_pure.2 h
  | succ count ih =>
    refine ensures_bind.2 ((kempt_insertColumn h after hn).mono fun _ d₁ ⟨h₁, hcount⟩ => ?_)
    simpa using ih h₁ (by omega)

theorem kempt_deleteColumnTimes (h : d.Kempt t since) {k count : Nat} (hn : count < d.columnCount t)
    (hk : k + count ≤ d.columnCount t) : Ensures (deleteColumnTimes t k count) d fun done d' =>
      done = true ∧ d'.Kempt t (if count = 0 then since else none) := by
  induction count generalizing d since with
  | zero => exact ensures_pure.2 ⟨rfl, h⟩
  | succ count ih =>
    refine ensures_bind.2 ((kempt_deleteColumn h (by omega) (by omega)).mono ?_)
    rintro _ d₁ ⟨rfl, h₁, hcount⟩
    simpa using ih h₁ (by omega) (by omega)

end Action

end RichTable
