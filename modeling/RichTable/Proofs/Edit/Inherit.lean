import Mathlib
import RichTable.Proofs.Edit.Rowwise

/-!
# Cells that stay

All edits but a merge treat the content of cells in one way: cells stay with what they hold, or go, and
new cells are blank. `Inherits keep d d' t` says so for the table `t`: its old cells in `d'` are the
cells of `d` that `keep` tells, in the same order.
-/

namespace RichTable.Document

variable {L : Type} {d d' d'' : Document L} {t : NodeId} {keep keep' : NodeId → Bool}

theorem Frame.tableRows {C P : NodeId → Prop} (frame : Frame C P d d') (wf : d.WellFormed)
    (ht : d.kind? t = some .table) (row : ∀ x, C x → d.kind? x = some .row) :
    d'.children t = d.children t ∧ (∀ g ∈ d.children t, d'.children g = d.children g) ∧
      d'.tableRows t = d.tableRows t := by
  have keep : ∀ x k, d.kind? x = some k → k ≠ .row → d'.children x = d.children x :=
    fun x k hk hne => frame.children x (lt_size_of_kind? hk) fun hC => by
      rw [row x hC, Option.some.injEq] at hk
      exact hne hk.symm
  have ht' := keep t _ ht (by decide)
  have hg : ∀ g ∈ d.children t, d'.children g = d.children g := fun g hg =>
    keep g _ (wf.kind_group ht hg) (by decide)
  refine ⟨ht', hg, ?_⟩
  rw [Document.tableRows, Document.tableRows, ht']
  exact List.flatMap_congr hg

/-- The old cells of the table in `d'` are those of `d` that are kept, with their content and in their
order; the new ones are blank. The table stands where it stood. -/
structure Inherits (keep : NodeId → Bool) (d d' : Document L) (t : NodeId) : Prop where
  size : d.size ≤ d'.size
  kind : ∀ x < d.size, d'.kind? x = d.kind? x
  text : ∀ x < d.size, d'.text? x = d.text? x
  parent : d'.parent? t = d.parent? t
  content : ∀ x < d.size, d.kind? x = some .cell ∨ d.kind? x = some .block ∨
    d.kind? x = some .inline → d'.children x = d.children x
  cells : (d'.tableCells t).filter (· < d.size) = (d.tableCells t).filter keep
  blank : ∀ c ∈ d'.tableCells t, d.size ≤ c → d'.Blank c

/-- The cell holds paragraphs, at least one, and nothing else. -/
def HasParagraphs (d : Document L) (c : NodeId) : Prop :=
  d.children c ≠ [] ∧ ∀ b ∈ d.children c, d.kind? b = some .block

/-- Every cell of the table holds paragraphs, at least one, and nothing else. -/
def Filled (d : Document L) (t : NodeId) : Prop :=
  ∀ c ∈ d.tableCells t, d.HasParagraphs c

theorem lt_size_of_children_ne_nil {c : NodeId} (h : d.children c ≠ []) : c < d.size := by
  obtain ⟨b, hb⟩ := List.exists_mem_of_ne_nil _ h
  exact lt_size_of_mem_children hb

namespace Inherits

theorem of_sameTree (wf : d.WellFormed) (ht : d.kind? t = some .table) (h : SameTree d d') :
    Inherits (fun _ => true) d d' t where
  size := h.size.ge
  kind x _ := h.kind x
  text x _ := h.text x
  parent := h.parent t
  content x _ _ := h.children x
  cells := by
    rw [h.tableCells, List.filter_true, List.filter_eq_self]
    intro c hc
    obtain ⟨g, hg, r, hs⟩ := mem_tableCells.1 hc
    simpa using lt_size_of_kind? (wf.kind_stored (wf.kind_group ht hg) hs)
  blank c hc hge := by
    rw [h.tableCells] at hc
    obtain ⟨g, hg, r, hs⟩ := mem_tableCells.1 hc
    exact absurd (lt_size_of_kind? (wf.kind_stored (wf.kind_group ht hg) hs)) (Nat.not_lt.2 hge)

/-- An edit that changes the children of no node inside or above a cell. -/
theorem of_frame {C P : NodeId → Prop} (frame : Frame C P d d') (wf : d.WellFormed)
    (ht : d.kind? t = some .table)
    (outer : ∀ x, C x → d.kind? x = some .table ∨ d.kind? x = some .rowGroup ∨
      d.kind? x = some .row)
    (cells : (d'.tableCells t).filter (· < d.size) = (d.tableCells t).filter keep)
    (blank : ∀ c ∈ d'.tableCells t, d.size ≤ c → d'.Blank c) : Inherits keep d d' t where
  size := frame.size
  kind := frame.kind
  text := frame.text
  parent := by
    refine frame.parent t (lt_size_of_kind? ht) fun p hp hC => ?_
    have accepts : ∀ {k}, d.kind? p = some k → k.accepts .table := fun hk => by
      obtain ⟨k', hk', h⟩ := wf.accepts_child hk (wf.mem_children.2 hp)
      rw [ht] at hk'
      cases hk'
      exact h
    rcases outer p hC with h | h | h <;> exact absurd (accepts h) (by decide)
  content x hx hk := by
    refine frame.children x hx fun hC => ?_
    rcases outer x hC with h | h | h <;> rw [h] at hk <;> simp at hk
  cells := cells
  blank := blank

/-- The cells of an edit that changes some rows, row by row. -/
theorem of_rows (C P : NodeId → Prop) (frame : Frame C P d d')
    (outer : ∀ x, C x → d.kind? x = some .row)
    (rows : d'.tableRows t = d.tableRows t)
    (row : ∀ r ∈ d.tableRows t,
      (d'.children r).filter (· < d.size) = (d.children r).filter keep ∧ RowFrom d d' r)
    (wf : d.WellFormed) (ht : d.kind? t = some .table) : Inherits keep d d' t := by
  refine of_frame frame wf ht (fun x hx => .inr (.inr (outer x hx))) ?_ fun c hc hge => ?_
  · rw [tableCells, tableCells, rows, List.filter_flatMap, List.filter_flatMap]
    exact List.flatMap_congr fun r hr => (row r hr).1
  · rw [tableCells, rows] at hc
    obtain ⟨r, hr, hcr⟩ := List.mem_flatMap.1 hc
    rcases (row r hr).2 c hcr with hc | ⟨-, hblank⟩
    · exact absurd (wf.lt_size_child hc) (Nat.not_lt.2 hge)
    · exact hblank

theorem trans (h : Inherits keep d d' t) (h' : Inherits keep' d' d'' t) (wf' : d'.WellFormed)
    (ht' : d'.kind? t = some .table) :
    Inherits (fun c => keep c && keep' c) d d'' t where
  size := h.size.trans h'.size
  kind x hx := (h'.kind x (hx.trans_le h.size)).trans (h.kind x hx)
  text x hx := (h'.text x (hx.trans_le h.size)).trans (h.text x hx)
  parent := h'.parent.trans h.parent
  content x hx hk := by
    have e := h.content x hx hk
    rw [← h.kind x hx] at hk
    exact (h'.content x (hx.trans_le h.size) hk).trans e
  cells := by
    have narrow : ∀ l : List NodeId,
        l.filter (· < d.size) = (l.filter (· < d'.size)).filter (· < d.size) := fun l => by
      rw [List.filter_filter]
      refine List.filter_congr fun x _ => ?_
      by_cases hx : x < d.size
      · simp [hx, hx.trans_le h.size]
      · simp [hx]
    rw [narrow, h'.cells, List.filter_comm, h.cells, List.filter_filter]
    exact List.filter_congr fun x _ => Bool.and_comm _ _
  blank c hc hge := by
    by_cases hc' : d'.size ≤ c
    · exact h'.blank c hc hc'
    · have hlt := Nat.lt_of_not_le hc'
      have hmem : c ∈ (d'.tableCells t).filter keep' := by
        rw [← h'.cells]
        exact List.mem_filter.2 ⟨hc, by simpa using hlt⟩
      obtain ⟨hmem, -⟩ := List.mem_filter.1 hmem
      obtain ⟨b, hb, hkb, he⟩ := h.blank c hmem hge
      obtain ⟨g, hg, r, hs⟩ := mem_tableCells.1 hmem
      have hkc := wf'.kind_stored (wf'.kind_group ht' hg) hs
      have hblt := lt_size_of_kind? hkb
      exact ⟨b, by rw [h'.content c hlt (.inl hkc), hb], by rw [h'.kind b hblt, hkb],
        by rw [h'.content b hblt (.inr (.inl hkb)), he]⟩

theorem congr (h : Inherits keep d d' t) (e : ∀ c ∈ d.tableCells t, keep c = keep' c) :
    Inherits keep' d d' t :=
  { h with cells := h.cells.trans (List.filter_congr e) }

theorem mem_of_keep (h : Inherits keep d d' t) {c : NodeId} (hc : c ∈ d.tableCells t)
    (hk : keep c = true) : c ∈ d'.tableCells t := by
  have : c ∈ (d'.tableCells t).filter (· < d.size) := h.cells ▸ List.mem_filter.2 ⟨hc, hk⟩
  exact (List.mem_filter.1 this).1

theorem trans_sameTree (h : Inherits keep d d' t) (h' : SameTree d' d'') :
    Inherits keep d d'' t where
  size := h'.size ▸ h.size
  kind x hx := (h'.kind x).trans (h.kind x hx)
  text x hx := (h'.text x).trans (h.text x hx)
  parent := (h'.parent t).trans h.parent
  content x hx hk := (h'.children x).trans (h.content x hx hk)
  cells := by rw [h'.tableCells, h.cells]
  blank c hc hge := by
    obtain ⟨b, hb, hk, he⟩ := h.blank c (h'.tableCells t ▸ hc) hge
    exact ⟨b, by rw [h'.children, hb], by rw [h'.kind, hk], by rw [h'.children, he]⟩

theorem filled (h : Inherits keep d d' t) (wf : d.WellFormed) (ht : d.kind? t = some .table)
    (filled : d.Filled t) : d'.Filled t := by
  intro c hc
  by_cases hlt : c < d.size
  · have hmem : c ∈ (d.tableCells t).filter keep := by
      rw [← h.cells]
      exact List.mem_filter.2 ⟨hc, by simpa using hlt⟩
    obtain ⟨hmem, -⟩ := List.mem_filter.1 hmem
    obtain ⟨g, hg, r, hs⟩ := mem_tableCells.1 hmem
    obtain ⟨hne, hblock⟩ := filled c hmem
    rw [HasParagraphs, h.content c hlt (.inl (wf.kind_stored (wf.kind_group ht hg) hs))]
    exact ⟨hne, fun b hb => by rw [h.kind b (wf.lt_size_child hb), hblock b hb]⟩
  · obtain ⟨b, hb, hk, -⟩ := h.blank c hc (Nat.le_of_not_lt hlt)
    rw [HasParagraphs, hb]
    exact ⟨by simp, by simpa using hk⟩

end Inherits

end RichTable.Document
