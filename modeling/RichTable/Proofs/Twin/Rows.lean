import Mathlib
import RichTable.Proofs.Edit.Clamp
import RichTable.Proofs.Tree.Offset
import RichTable.Proofs.Twin.Steps

/-!
# Rows of twins

Inserting and deleting rows of the same table in two documents. Both runs give the same answer, or fail
for the same reason, and leave the same table behind, placed on its grid. A negative answer means that
nothing has been changed.
-/

namespace RichTable

open List

namespace Document

variable {L : Type} {R R₀ R₁ : Kind → NodeId → NodeId → Prop} {X : NodeId → Prop}
  {d d' e e' : Document L}

/-- Twins under a relation that goes on relating what `R₀` relates. -/
def Grown (R₀ : Kind → NodeId → NodeId → Prop) (X : NodeId → Prop) (d d' : Document L) : Prop :=
  ∃ R, R₀ ≤ R ∧ Twin R X d d'

theorem Twin.grown (h : Twin R X d d') (le : R₀ ≤ R) : Grown R₀ X d d' := ⟨R, le, h⟩

theorem Grown.mono (h : Grown R₁ X d d') (le : R₀ ≤ R₁) : Grown R₀ X d d' :=
  h.imp fun _ h => ⟨le.trans h.1, h.2⟩

/-- Two documents hold the same table, or it has been taken out of both. -/
def Alike (t t' : NodeId) (d d' : Document L) : Prop :=
  Paired t t' d d' ∨ d.isAttached t = false ∧ d'.isAttached t' = false

/-- A table that has been detached is not part of the document any more. -/
theorem WellFormed.isAttached_detach (wf : d.WellFormed) {t : NodeId}
    (ht : d.kind? t = some .table) : (d.detach t).isAttached t = false := by
  have known : (d.detach t).kind? t = some .table := by rw [kind?_detach, ht]
  rw [← Bool.not_eq_true, (wf.detach t).isAttached_iff, (wf.detach t).ancestors_of_no_parent
    (lt_size_of_kind? known) (by simp [parent?_detach]), mem_singleton]
  rintro rfl
  rw [wf.root_kind] at ht
  cases ht

/-- What an edit of the same table in `d` and `d'` has led to: the answers agree, and a negative one
stands for no change. -/
structure Followed (t t' : NodeId) (d d' : Document L) (done done' : Bool) (e e' : Document L) :
    Prop where
  same : done = done'
  unchanged : done = false → e = d ∧ e' = d'
  alike : Alike t t' e e'

end Document

namespace Action

open Document

variable {L : Type} {R : Kind → NodeId → NodeId → Prop} {X : NodeId → Prop}
  {d d' : Document L} {E : Document L → Document L → Prop} {t t' g g' row row' c c' : NodeId}

/-! ## Inserting -/

/-- One more copy at the end of a new row. -/
theorem lock_appendCopy (h : Twin R X d d') (hc : R .cell c c') (hr : R .row row row')
    (free : d.parent? row = none) :
    Lock (do let copy ← copyCell c; updateCell copy ({ · with rowSpan := 1 }); appendChild row copy)
      (do let copy ← copyCell c'; updateCell copy ({ · with rowSpan := 1 }); appendChild row' copy)
      d d' (fun _ _ e e' => Grown R X e e' ∧ e.parent? row = none) E := by
  refine lock_bind ((lock_copyCell h hc).mono ?_)
  rintro n n' e e' ⟨p, p', hp, hp', layout, new, new'⟩
  have spans := h.spans hc p hp
  have h₁ := h.newCell new new' (by simp_all [CellProps.layout]) spans
  refine lock_bind ((lock_updateCell h₁ withPair_self (fun p q e => ?_) fun q hq => ?_).mono ?_)
  · simp_all [CellProps.layout]
  · cases new.cell.symm.trans hq
    exact ⟨spans.1, le_rfl⟩
  rintro _ _ _ e₁' ⟨h₂, rfl⟩
  have hr₂ : withPair R .cell n n' .row row row' := withPair_of hr
  unfold appendChild
  refine lock_get_bind ?_
  rw [(h₂.children hr₂ rfl).length_eq]
  refine (lock_insertChild h₂ hr₂ withPair_self rfl (by simpa using new.free) _).mono ?_
  rintro _ _ _ e₂' ⟨h₃, rfl⟩
  refine ⟨h₃.grown le_withPair, ?_⟩
  have ne : row ≠ n := ((lt_size_of_kind? (h.kind hr).1).trans_le new.fresh).ne
  rw [parent?_attach (by simpa using new.lt_size), if_neg ne, parent?_modifyCell,
    new.frame.parent row (lt_size_of_kind? (h.kind hr).1) fun _ _ => id, free]

theorem lock_insertRowOf (h : Twin R X d d') {templates templates' : List NodeId}
    (hs : Forall₂ (R .cell) templates templates') (hg : R .rowGroup g g') (i : Nat) :
    Lock (insertRowOf templates g i) (insertRowOf templates' g' i) d d'
      (fun _ _ e e' => Grown R X e e') E := by
  let R₁ := withPair R .row d.size d'.size
  have hrow : R₁ .row d.size d'.size := withPair_self
  -- the new row stays detached while it is filled
  have fill : Lock (templates.forM fun template => do
        let copy ← copyCell template
        updateCell copy ({ · with rowSpan := 1 })
        appendChild d.size copy)
      (templates'.forM fun template => do
        let copy ← copyCell template
        updateCell copy ({ · with rowSpan := 1 })
        appendChild d'.size copy) (d.push .row) (d'.push .row)
      (fun _ _ e e' => Grown R₁ X e e' ∧ e.parent? d.size = none) E := by
    refine Lock.forM (S := R .cell) (I := fun e e' => Grown R₁ X e e' ∧ e.parent? d.size = none)
      ?_ hs ⟨h.newRow.grown le_rfl, by simp [parent?_push, parent?_size]⟩
    rintro c c' hc e e' ⟨⟨R₂, le, h₂⟩, free⟩
    refine (lock_appendCopy h₂ (le _ _ _ (.inl hc)) (le _ _ _ hrow) free).mono ?_
    rintro _ _ e e' ⟨grown, free⟩
    exact ⟨grown.mono le, free⟩
  have left := (ensures_create (d := d) (p := .row) (Q := fun n e => n = d.size ∧ e = d.push .row)).2
    ⟨rfl, rfl⟩
  have right := (ensures_create (d := d') (p := .row)
    (Q := fun n e => n = d'.size ∧ e = d'.push .row)).2 ⟨rfl, rfl⟩
  refine lock_bind (left.lock right ?_)
  rintro _ _ _ _ ⟨rfl, rfl⟩ ⟨rfl, rfl⟩
  refine lock_bind (fill.mono ?_)
  rintro _ _ e e' ⟨⟨R₂, le, h₂⟩, free⟩
  refine lock_bind ((lock_insertChild h₂ (le _ _ _ (.inl hg)) (le _ _ _ hrow) rfl free i).mono ?_)
  rintro _ _ e e' ⟨h₃, -⟩
  exact lock_pure (E := E) (h₃.grown (le_withPair.trans le))

theorem lock_insertRows [Length L] (h : Twin R (fun _ => False) d d') (ht : R .table t t')
    (settled : d.Settled t) (settled' : d'.Settled t') (hg : R .rowGroup g g') (mem : g ∈ d.children t)
    (hr : R .row row row') (memr : row ∈ d.children g) (count : Nat) (side : Side) :
    Lock (insertRows row count side) (insertRows row' count side) d d'
      (fun r r' => Followed t t' d d' r.isSome r'.isSome) (Paired t t') := by
  have paired : Paired t t' d d' := ⟨⟨R, h, ht⟩, settled, settled'⟩
  unfold insertRows
  by_cases h0 : count = 0
  · simp only [if_pos h0]
    exact lock_pure (E := Paired t t') ⟨rfl, fun _ => ⟨rfl, rfl⟩, .inl paired⟩
  simp only [if_neg h0]
  refine lock_requireParent_bind h hg hr rfl memr (lock_requireParent_bind h ht hg rfl mem ?_)
  refine lock_place_bind h ht settled settled' ?_
  refine lock_bind (lock_modify ?_)
  refine lock_get_bind ?_
  have memr : row ∈ (d.clampRowSpans g).children g :=
    (h.wf.clamped (h.kind hg).1).same.children g ▸ memr
  have h := h.clampRowSpans hg
  generalize d.clampRowSpans g = d₁, d'.clampRowSpans g' = d₁' at *
  obtain ⟨ρ, hρ⟩ := getElem?_of_mem memr
  have index := h.wf.childIndex?_eq hρ
  have index' := (h.childIndex?_eq (k := .rowGroup) hr rfl).symm.trans index
  simp only [index, index']
  have bridges : ∀ c c', R .cell c c' → (d₁.neighbourRow? g ρ side).any (d₁.coversRow c) =
      (d₁'.neighbourRow? g' ρ side).any (d₁'.coversRow c') := fun c c' hc => by
    rcases optionRel_cases (h.neighbourRow? hg ρ side) with ⟨h₁, h₂⟩ | ⟨r, r', h₁, h₂, hn⟩
    · rw [h₁, h₂]
      rfl
    · rw [h₁, h₂, Option.any_some, Option.any_some, h.coversRow_eq hc hn]
  have occupants := h.sortByColumn (h.occupants hr)
  have grow := rel_filter (fun c c' hc => Bool.eq_iff_iff.1 (bridges c c' hc)) occupants
  have templates := rel_filter
    (fun c c' hc => Bool.eq_iff_iff.1 (congrArg Bool.not (bridges c c' hc))) occupants
  refine lock_bind ((Lock.forM (S := R .cell) (I := Twin R fun _ => False) ?_ grow h).mono ?_)
  · intro c c' hc e e' h
    refine (lock_updateCell h hc (fun p q e => ?_) fun p hp => ?_).mono fun _ _ _ _ h => h.1
    · simp_all [CellProps.layout]
    · have := h.spans hc p hp
      exact ⟨this.1, by simp only; omega⟩
  intro _ _ e e' h
  refine lock_bind ((Lock.mapM (S := Eq) (P := fun _ _ => True) (I := Grown R fun _ => False) ?_
    (forall₂_same.2 fun _ _ => rfl) (h.grown le_rfl)).mono ?_)
  · rintro i _ rfl e e' ⟨R₁, le, h⟩
    refine (lock_insertRowOf h (templates.imp fun _ _ => le _ _ _) (le _ _ _ hg) _).mono ?_
    exact fun _ _ _ _ grown => ⟨trivial, grown.mono le⟩
  rintro rows rows' e e' ⟨-, -, R₁, le, h⟩
  refine lock_bind ((lock_settle h (le _ _ _ ht)).mono ?_)
  intro _ _ e e' paired
  exact lock_get_bind (lock_pure (E := Paired t t') ⟨rfl, by simp, .inl paired⟩)

/-! ## Deleting -/

theorem lock_recreateIn (h : Twin R X d d') {next next' : NodeId} (hn : R .row next next')
    (hc : R .cell c c') {rowSpan : Nat} (pos : 1 ≤ rowSpan) :
    Lock (recreateIn next c rowSpan) (recreateIn next' c' rowSpan) d d'
      (fun _ _ e e' => Grown R X e e') E := by
  unfold recreateIn
  refine lock_requireCell_bind h hc fun p p' hp hp' layout => ?_
  have spans := h.spans hc p hp
  have column : p'.columnIndex = p.columnIndex := by simp_all [CellProps.layout]
  refine lock_bind ((lock_copyCell h hc).mono ?_)
  rintro n n' e e' ⟨q, q', hq, -, layout, new, new'⟩
  cases hp.symm.trans hq
  have h₁ := h.newCell new new' (by simp_all [CellProps.layout]) spans
  rw [column]
  refine lock_bind ((lock_updateCell h₁ withPair_self (fun p q e => ?_) fun q hq => ?_).mono ?_)
  · simp_all [CellProps.layout]
  · cases new.cell.symm.trans hq
    exact ⟨spans.1, pos⟩
  rintro _ _ _ e₁' ⟨h₂, rfl⟩
  have hn₂ : withPair R .cell n n' .row next next' := withPair_of hn
  refine lock_get_bind ?_
  dsimp only
  rw [length_takeWhile_eq_of_related (h₂.children hn₂ rfl) fun c c' hc =>
    congrArg (fun i => !missingFirstLE p.columnIndex i) (h₂.columnIndex?_eq hc)]
  refine (lock_insertChild h₂ hn₂ withPair_self rfl (by simpa using new.free) _).mono ?_
  exact fun _ _ _ _ h => h.1.grown le_withPair

theorem lock_deleteRowInterval [Length L] (h : Twin R (fun _ => False) d d') (ht : R .table t t')
    (settled : d.Settled t) (settled' : d'.Settled t') (hg : R .rowGroup g g')
    (mem : g ∈ d.children t) (first last : Nat) :
    Lock (deleteRowInterval g first last) (deleteRowInterval g' first last) d d'
      (Followed t t' d d') (Paired t t') := by
  have paired : Paired t t' d d' := ⟨⟨R, h, ht⟩, settled, settled'⟩
  have rows := h.children hg rfl
  unfold deleteRowInterval
  refine lock_requireParent_bind h ht hg rfl mem (lock_get_bind ?_)
  simp only [rows.length_eq]
  by_cases hout : last < first ∨ (d'.children g').length ≤ last
  · simp only [if_pos hout]
    exact lock_pure (E := Paired t t') ⟨rfl, fun _ => ⟨rfl, rfl⟩, .inl paired⟩
  simp only [if_neg hout]
  obtain ⟨hle, hlast⟩ := not_or.1 hout
  by_cases hall : first = 0 ∧ last + 1 = (d'.children g').length
  · simp only [if_pos hall]
    refine lock_get_bind ?_
    simp only [(h.children ht rfl).length_eq]
    split
    · refine lock_bind (lock_modify (lock_pure (E := Paired t t') ⟨rfl, by simp, .inr ?_⟩))
      exact ⟨h.wf.isAttached_detach (h.kind ht).1, h.wf'.isAttached_detach (h.kind ht).2⟩
    · refine lock_bind ((lock_detach (k := .table) h hg rfl).mono fun _ _ e e' h => ?_)
      refine lock_bind ((lock_settle h ht).mono fun _ _ e e' paired => ?_)
      exact lock_pure (E := Paired t t') ⟨rfl, by simp, .inl paired⟩
  simp only [if_neg hall]
  refine lock_place_bind h ht settled settled' (lock_bind (lock_modify (lock_get_bind ?_)))
  have h := h.clampRowSpans hg
  generalize d.clampRowSpans g = d₁, d'.clampRowSpans g' = d₁' at *
  have intervals := h.rowIntervals (forall₂_take (last + 1) rows)
  generalize d₁.rowIntervals _ = all, d₁'.rowIntervals _ = all' at intervals ⊢
  have shrink := rel_filter (p := fun i => decide (i.2.1 < first) && decide (first ≤ i.2.2))
    (q := fun i => decide (i.2.1 < first) && decide (first ≤ i.2.2))
    (fun i j hij => Bool.eq_iff_iff.1 (by rw [hij.2])) intervals
  have recreate := rel_filter (p := fun i => decide (first ≤ i.2.1) && decide (last < i.2.2))
    (q := fun i => decide (first ≤ i.2.1) && decide (last < i.2.2))
    (fun i j hij => Bool.eq_iff_iff.1 (by rw [hij.2])) intervals
  refine lock_bind ((Lock.forM (I := Twin R fun _ => False) ?_
    ((forall₂_and_left _ _).2 ⟨fun i hi => (mem_filter.1 hi).2, shrink⟩) h).mono ?_)
  · rintro ⟨c, top, bottom⟩ ⟨c', _, _⟩ ⟨hi, hc, heq⟩ e e' h
    cases heq
    simp only [Bool.and_eq_true, decide_eq_true_eq] at hi
    refine (lock_updateCell h hc (fun p q e => ?_) fun p hp => ?_).mono fun _ _ _ _ h => h.1
    · simp_all [CellProps.layout]
    · exact ⟨(h.spans hc p hp).1, by simp only; omega⟩
  intro _ _ e e' h
  have deleted := forall₂_drop first (forall₂_take (last + 1) rows)
  have finish : ∀ e e', Grown R (fun _ => False) e e' →
      Lock (do
          (((d.children g).take (last + 1)).drop first).forM Action.detach
          settle t
          return true : Action L Bool)
        (do
          (((d'.children g').take (last + 1)).drop first).forM Action.detach
          settle t'
          return true : Action L Bool) e e' (Followed t t' d d') (Paired t t') := by
    rintro e e' ⟨R₁, le, h⟩
    refine lock_bind ((Lock.forM (I := Twin R₁ fun _ => False) (fun r r' hr e e' h => ?_)
      (deleted.imp fun _ _ => le _ _ _) h).mono fun _ _ e e' h => ?_)
    · exact lock_detach (k := .rowGroup) h hr rfl
    · refine lock_bind ((lock_settle h (le _ _ _ ht)).mono fun _ _ e e' paired => ?_)
      exact lock_pure (E := Paired t t') ⟨rfl, by simp, .inl paired⟩
  rcases optionRel_cases (getElem?_related rows (last + 1)) with
    ⟨h₁, h₂⟩ | ⟨next, next', h₁, h₂, hn⟩
  · simp only [h₁, h₂]
    exact finish e e' (h.grown le_rfl)
  · simp only [h₁, h₂]
    refine lock_bind ((Lock.forM (I := Grown R fun _ => False) ?_
      ((forall₂_and_left _ _).2 ⟨fun i hi => (mem_filter.1 hi).2, recreate⟩)
      (h.grown le_rfl)).mono fun _ _ e e' grown => finish e e' grown)
    rintro ⟨c, top, bottom⟩ ⟨c', _, _⟩ ⟨hi, hc, heq⟩ e e' ⟨R₁, le, h⟩
    cases heq
    simp only [Bool.and_eq_true, decide_eq_true_eq] at hi
    exact (lock_recreateIn h (le _ _ _ hn) (le _ _ _ hc) (Nat.sub_pos_of_lt hi.2)).mono
      fun _ _ _ _ grown => grown.mono le

end Action

end RichTable
