import Mathlib
import RichTable.Proofs.Twin.Rows

/-!
# Columns of twins

Inserting and deleting columns of the same table in two documents.
-/

namespace RichTable

open List

namespace Action

open Document

variable {L : Type} {R : Kind → NodeId → NodeId → Prop} {X : NodeId → Prop}
  {d d' : Document L} {E : Document L → Document L → Prop} {t t' row row' : NodeId}

theorem lock_widenRow (h : Twin R X d d') (hr : R .row row row') (target : Nat) (behind : Bool) :
    Lock (widenRow target behind row) (widenRow target behind row') d d'
      (fun _ _ e e' => Grown R X e e') E := by
  unfold widenRow
  refine lock_get_bind ?_
  rcases optionRel_cases (h.storedCell? hr target) with ⟨h₁, h₂⟩ | ⟨c, c', h₁, h₂, hc⟩
  · simp only [h₁, h₂]
    exact lock_pure (E := E) (h.grown le_rfl)
  simp only [h₁, h₂]
  refine lock_requireCell_bind h hc fun p p' hp hp' layout => ?_
  have spans := h.spans hc p hp
  have width : p'.columnSpan = p.columnSpan := by simp_all [CellProps.layout]
  rw [width]
  split
  · refine (lock_updateCell h hc (fun p q e => ?_) fun q hq => ?_).mono fun _ _ _ _ h => h.1.grown le_rfl
    · simp_all [CellProps.layout]
    · exact ⟨Nat.le_add_left _ _, (h.spans hc q hq).2⟩
  · refine lock_bind ((lock_copyCell h hc).mono ?_)
    rintro n n' e e' ⟨q, q', hq, -, layout, new, new'⟩
    cases hp.symm.trans hq
    have h₁ := h.newCell new new' (by simp_all [CellProps.layout]) spans
    have hr₁ : withPair R .cell n n' .row row row' := withPair_of hr
    refine lock_get_bind ?_
    rw [h₁.childIndex?_eq (k := .row) (le_withPair _ _ _ hc) rfl]
    exact (lock_insertChild h₁ hr₁ withPair_self rfl new.free _).mono
      fun _ _ _ _ h => h.1.grown le_withPair

theorem lock_narrowRow (h : Twin R X d d') (hr : R .row row row') (column : Nat) :
    Lock (narrowRow column row) (narrowRow column row') d d' (fun _ _ e e' => Twin R X e e') E := by
  unfold narrowRow
  refine lock_get_bind ?_
  rcases optionRel_cases (h.storedCell? hr column) with ⟨h₁, h₂⟩ | ⟨c, c', h₁, h₂, hc⟩
  · simp only [h₁, h₂]
    exact lock_pure (E := E) h
  simp only [h₁, h₂]
  refine lock_requireCell_bind h hc fun p p' hp hp' layout => ?_
  have width : p'.columnSpan = p.columnSpan := by simp_all [CellProps.layout]
  rw [width]
  split
  · next wide =>
    refine (lock_updateCell h hc (fun p q e => ?_) fun q hq => ?_).mono fun _ _ _ _ h => h.1
    · simp_all [CellProps.layout]
    · cases hp.symm.trans hq
      exact ⟨by simp only; omega, (h.spans hc p hp).2⟩
  · exact lock_detach (k := .row) h hc rfl

variable [Length L]

/-- The end of an edit of columns: the column widths are adjusted, and the grid is checked. -/
theorem lock_finishColumns (h : Twin R (fun _ => False) d d') (ht : R .table t t')
    (f : TableProps L → TableProps L) {α : Type} (a : α) :
    Lock (do
        modify (·.modifyTable t f)
        let _ ← place t
        checkGrid t
        correctBorders t
        return a : Action L α)
      (do
        modify (·.modifyTable t' f)
        let _ ← place t'
        checkGrid t'
        correctBorders t'
        return a : Action L α)
      d d' (fun b b' e e' => b = a ∧ b' = a ∧ Paired t t' e e') (Paired t t') := by
  refine lock_bind (lock_modify (lock_place_checkGrid (h.modifyTable ht f) ht ?_))
  intro e e' _ _ h _ paired
  refine lock_bind ((lock_correctBorders h ht).mono fun _ _ _ _ same => ?_)
  exact lock_pure (E := Paired t t') ⟨rfl, rfl, same.1.paired same.2 paired⟩

theorem lock_insertColumn (h : Paired t t' d d') (after : Option Nat) :
    Lock (insertColumn t after) (insertColumn t' after) d d' (fun _ _ => Paired t t')
      (Paired t t') := by
  obtain ⟨⟨R, h, ht⟩, settled, settled'⟩ := h
  unfold insertColumn
  refine lock_place_bind h ht settled settled' (lock_get_bind ?_)
  refine lock_bind ((Lock.forM (I := Grown R fun _ => False) ?_ (h.tableRows ht)
    (h.grown le_rfl)).mono ?_)
  · rintro r r' hr e e' ⟨R₁, le, h⟩
    exact (lock_widenRow h (le _ _ _ hr) _ _).mono fun _ _ _ _ grown => grown.mono le
  · rintro _ _ e e' ⟨R₁, le, h⟩
    have finish := (lock_finishColumns h (le _ _ _ ht) (fun props =>
      { props with columns := insertWidth after props.columns }) ()).mono
      fun _ _ _ _ paired => paired.2.2
    simpa only [bind_pure_unit] using finish

theorem lock_deleteColumn (h : Paired t t' d d') (column : Nat) :
    Lock (deleteColumn t column) (deleteColumn t' column) d d'
      (fun done done' e e' => done = done' ∧ Paired t t' e e') (Paired t t') := by
  have paired := h
  obtain ⟨⟨R, h, ht⟩, settled, settled'⟩ := h
  unfold deleteColumn
  refine lock_place_bind h ht settled settled' ?_
  split
  · exact lock_pure (E := Paired t t') ⟨rfl, paired⟩
  refine lock_get_bind (lock_bind ((Lock.forM (I := Twin R fun _ => False) (fun r r' hr e e' h => ?_)
    (h.tableRows ht) h).mono fun _ _ e e' h => ?_))
  · exact lock_narrowRow h hr column
  · refine (lock_finishColumns h ht _ true).mono ?_
    rintro _ _ e e' ⟨rfl, rfl, paired⟩
    exact ⟨rfl, paired⟩

theorem lock_insertColumnTimes (after : Option Nat) (count : Nat) (h : Paired t t' d d') :
    Lock (insertColumnTimes t after count) (insertColumnTimes t' after count) d d'
      (fun _ _ => Paired t t') (Paired t t') := by
  induction count generalizing d d' with
  | zero => exact lock_pure (E := Paired t t') h
  | succ count ih => exact lock_bind ((lock_insertColumn h after).mono fun _ _ e e' h => ih h)

theorem lock_deleteColumnTimes (column count : Nat) (h : Paired t t' d d') :
    Lock (deleteColumnTimes t column count) (deleteColumnTimes t' column count) d d'
      (fun done done' e e' => done = done' ∧ Paired t t' e e') (Paired t t') := by
  induction count generalizing d d' with
  | zero => exact lock_pure (E := Paired t t') ⟨rfl, h⟩
  | succ count ih =>
    refine lock_bind ((lock_deleteColumn h column).mono ?_)
    rintro done _ e e' ⟨rfl, h⟩
    cases done with
    | true => exact ih h
    | false => exact lock_pure (E := Paired t t') ⟨rfl, h⟩

end Action

end RichTable
