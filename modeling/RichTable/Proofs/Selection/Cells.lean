import Mathlib
import RichTable.Editor
import RichTable.Proofs.Edit.Inherit
import RichTable.Proofs.Selection.Containment

/-!
# Selections between cells

Edits of columns and splits name their cells by a selection, from the first caret of one cell to the
end of another. `boundaryCells?` finds these two cells again (`WellFormed.exists_cellSegment`). The end
of a cell is no place for the caret, so the end of the selection is moved back, to the last caret of
the second cell, and nothing is folded. If the two cells are one, a caret in it could still be in a
cell of an inner table, and there must be none.
-/

namespace RichTable

namespace Document

variable {L : Type} {d : Document L} {t : NodeId}

/-- A caret may stand in the node. -/
def HasCaret (d : Document L) (c : NodeId) : Prop := ∃ o, d.isCaretOffset o = true ∧ d.Holds c o

/-- There is a table in the node. -/
def HasTable (d : Document L) (c : NodeId) : Prop :=
  ∃ u, d.kind? u = some .table ∧ c ∈ d.ancestors u

/-- Carets in both nodes, and no table in either if they are the same, so that a selection from one to
the other tells which they are. -/
structure Recoverable (d : Document L) (a b : NodeId) : Prop where
  first : d.HasCaret a
  second : d.HasCaret b
  simple : a ≠ b ∨ ¬ d.HasTable a

theorem Recoverable.symm {a b : NodeId} (h : d.Recoverable a b) : d.Recoverable b a := by
  refine ⟨h.second, h.first, ?_⟩
  rcases eq_or_ne b a with rfl | hne
  · exact h.simple
  · exact .inl hne

namespace WellFormed

/-! ## Inside a cell -/

/-- A cell is not above a row group or a row of its table. -/
theorem not_mem_ancestors_tableRows (wf : d.WellFormed) {c g row : NodeId}
    (hc : c ∈ d.tableCells t) (hg : g ∈ d.children t) (hrow : row = g ∨ row ∈ d.children g) :
    c ∉ d.ancestors row := by
  intro h
  have hle := wf.depth_le_of_mem_ancestors h
  rw [wf.depth_tableCells hc] at hle
  have hgt := wf.depth_of_parent (wf.mem_children.1 hg)
  rcases hrow with rfl | hrow
  · omega
  · have := wf.depth_of_parent (wf.mem_children.1 hrow)
    omega

/-- Below a filled cell there are paragraphs and runs. -/
theorem kind_below (wf : d.WellFormed) {c n : NodeId}
    (blocks : ∀ b ∈ d.children c, d.kind? b = some .block) (h : c ∈ d.ancestors n) (hne : n ≠ c) :
    d.kind? n = some .block ∨ d.kind? n = some .inline := by
  induction n using wf.induct_up with
  | top n hp =>
    rw [wf.ancestors_of_no_parent (lt_size_of_ancestor h) hp, List.mem_singleton] at h
    exact absurd h.symm hne
  | step n p hp ih =>
    have hmem := wf.mem_children.2 hp
    have hcp := ((wf.mem_ancestors_of_parent hp).1 h).resolve_left (Ne.symm hne)
    by_cases hpc : p = c
    · exact .inl (blocks n (hpc ▸ hmem))
    · rcases ih hcp hpc with hk | hk
      · exact .inr (wf.kind_inline hk hmem)
      · rw [wf.children_inline hk] at hmem
        cases hmem

theorem not_hasTable (wf : d.WellFormed) {c : NodeId} (hc : d.kind? c = some .cell)
    (blocks : ∀ b ∈ d.children c, d.kind? b = some .block) : ¬ d.HasTable c := by
  rintro ⟨u, hu, hcu⟩
  have hne : u ≠ c := by
    rintro rfl
    rw [hc] at hu
    cases hu
  rcases wf.kind_below blocks hcu hne with h | h <;> rw [hu] at h <;> cases h

/-- Without a table in it, a cell is the innermost one around its offsets. -/
theorem innermostCell_of_not_hasTable (wf : d.WellFormed) {c : NodeId} {p : Nat}
    (hc : d.kind? c = some .cell) (noTable : ¬ d.HasTable c) (holds : d.Holds c p) :
    d.InnermostCell p c := by
  refine ⟨hc, holds, fun b hb hbp => ?_⟩
  rcases le_total (d.depth b) (d.depth c) with hle | hle
  · exact wf.mem_ancestors_of_holds hbp holds hle
  · -- a cell below `c` would be a cell of a table in `c`
    have up := wf.mem_ancestors_of_holds holds hbp hle
    obtain ⟨u, hu, hbu⟩ := wf.exists_table_of_cell hb (wf.root_mem_ancestors_of_holds hbp)
    by_contra hne
    refine noTable ⟨u, hu, wf.mem_ancestors_table hu hbu up hc ?_ (.inl rfl)⟩
    rintro rfl
    exact hne up

theorem exists_start (wf : d.WellFormed) (ht : d.kind? t = some .table)
    (attached : root ∈ d.ancestors t) {c : NodeId} (hc : c ∈ d.tableCells t) :
    ∃ o, d.elementStart? c = some o ∧ d.elementEnd? c = some (o + d.symbolLength c) := by
  obtain ⟨o, ho⟩ := wf.exists_elementStart? (wf.attached_tableCells attached hc)
    (wf.ne_root_of_cell (wf.kind_tableCells ht hc))
  exact ⟨o, ho, elementEnd?_eq ho⟩

/-- No caret stands right behind a cell. -/
theorem not_caret_elementEnd (wf : d.WellFormed) (ht : d.kind? t = some .table)
    (attached : root ∈ d.ancestors t) {c : NodeId} (hc : c ∈ d.tableCells t) {p : Nat}
    (hp : d.elementEnd? c = some p) : d.isCaretOffset p = false := by
  by_contra caret
  rw [Bool.not_eq_false] at caret
  obtain ⟨row, g, hcr, hrg, hgt, -⟩ := wf.ancestors_tableCells hc
  have hrow := wf.kind_row (wf.kind_group ht hgt) hrg
  have attachedRow := wf.attached_of_mem_ancestors (wf.attached_tableCells attached hc)
    (wf.mem_ancestors_of_mem_children hcr)
  obtain ⟨o, ho⟩ := Option.isSome_iff_exists.1
    ((wf.contentStart?_isSome (lt_size_of_kind? hrow)).2 attachedRow)
  obtain ⟨pre, post, split⟩ := List.append_of_mem hcr
  have start := wf.elementStart?_child split ho
  obtain rfl := Option.some.inj ((elementEnd?_eq start).symm.trans hp)
  have fits := wf.symbols_children_le row
  rw [split, symbols_append, symbols_cons] at fits
  -- the row holds that offset, but none of its cells does
  have holds : d.Holds row (o + d.symbols pre + d.symbolLength c) := ⟨o, ho, by omega, by omega⟩
  obtain ⟨h, hmem, hh⟩ := wf.exists_host_of_caret caret holds
  obtain ⟨host, hrh⟩ := (wf.mem_caretHosts (lt_size_of_kind? hrow)).1 hmem
  obtain ⟨x, hx, hxh⟩ := wf.exists_child_mem_ancestors hrh (by
    rintro rfl
    simp [hostsCaret, hrow] at host)
  have hxo := wf.holds_ancestor hh hxh
  rcases eq_or_ne x c with rfl | hne
  · have := (wf.holds_iff_between start).1 hxo
    omega
  rcases or_of_pairwise (wf.pairwise_children attachedRow) hx hcr hne with apart | apart
  · have := wf.lt_of_endsBefore apart hxo ((wf.holds_iff_between start (p := _ + 1)).2
      ⟨Nat.lt_succ_self _, by rw [symbolLength]; omega⟩)
    rw [symbolLength] at this
    omega
  · obtain ⟨i, j, hi, hj, hij⟩ := apart
    obtain rfl := Option.some.inj (hi.symm.trans hp)
    have := (wf.holds_iff_between hj).1 hxo
    omega

/-! ## The ends of a selection between cells -/

section Ends

variable {a b : NodeId} {s p : Nat}

theorem lt_end_of_holds (wf : d.WellFormed) (order : a = b ∨ d.EndsBefore a b) (hs : d.Holds a s)
    (hp : d.elementEnd? b = some p) : s < p := by
  obtain ⟨j, hj, rfl⟩ := Option.map_eq_some_iff.1 hp
  rcases order with rfl | apart
  · exact ((wf.holds_iff_between hj).1 hs).2
  · obtain ⟨i, j', hi, hj', hle⟩ := apart
    obtain ⟨o, ho, rfl⟩ := Option.map_eq_some_iff.1 hi
    have := (wf.holds_iff_between ho).1 hs
    rw [hj, Option.some.injEq] at hj'
    omega

/-- The start of a selection at a caret stays. The end at the end of a cell with carets is moved into
the cell. -/
theorem exists_normalizedEnds (wf : d.WellFormed) (hs : d.isCaretOffset s = true)
    (hp : d.elementEnd? b = some p) (blank : d.isCaretOffset p = false) (caret : d.HasCaret b)
    (hlt : s < p) : ∃ m : Position, d.normalizedEnds ⟨s, .forward⟩ ⟨p, .backward⟩ = (⟨s, .forward⟩, m) ∧
      d.isCaretOffset m.offset = true ∧ d.Holds b m.offset := by
  obtain ⟨q, hq, holds⟩ := caret
  obtain ⟨j, hj, rfl⟩ := Option.map_eq_some_iff.1 hp
  have inside := (wf.holds_iff_between hj).1 holds
  have stays : d.nearestCaret ⟨s, .forward⟩ .forward = ⟨s, .forward⟩ := if_pos hs
  have nearest := d.moved_nearestCaret ⟨j + d.symbolLength b, .backward⟩
  generalize hm : d.nearestCaret ⟨j + d.symbolLength b, .backward⟩ .backward = m at nearest
  have caret := nearest.caret hq
  have back : m.offset < j + d.symbolLength b := by
    rcases Nat.lt_trichotomy m.offset (j + d.symbolLength b) with h | h | h
    · exact h
    · rw [h, blank] at caret
      cases caret
    · rcases (nearest.of_lt h).1 with direction | none
      · cases direction
      · rw [none q inside.2] at hq
        cases hq
  have last := (nearest.of_gt back).2 q hq inside.2.le
  refine ⟨m, ?_, caret, (wf.holds_iff_between hj).2 ⟨by omega, back⟩⟩
  simp only [normalizedEnds, if_pos hlt, stays, hm]
  rw [wf.foldForward_of_le le_rfl, wf.foldBackward_of_le back.le]

/-- Of two cells, the one that does not start behind the other ends before it. -/
theorem eq_or_endsBefore (wf : d.WellFormed) (attached : root ∈ d.ancestors t)
    (ha : a ∈ d.tableCells t) (hb : b ∈ d.tableCells t) {i j : Nat} (hi : d.elementStart? a = some i)
    (hj : d.elementStart? b = some j) (hle : i ≤ j) : a = b ∨ d.EndsBefore a b := by
  rcases eq_or_ne a b with rfl | hne
  · exact .inl rfl
  refine .inr ((or_of_pairwise (wf.pairwise_tableCells attached) ha hb hne).resolve_right fun h => ?_)
  obtain ⟨j', i', hj', hi', hlt⟩ := h.precedes
  rw [hi, Option.some.injEq] at hi'
  rw [hj, Option.some.injEq] at hj'
  omega

variable (ht : d.kind? t = some .table) (attached : root ∈ d.ancestors t) (ha : a ∈ d.tableCells t)
  (hb : b ∈ d.tableCells t)

include ht attached ha hb

/-- A selection from a caret in one cell to the end of another finds these cells. -/
theorem boundaryCells?_eq (wf : d.WellFormed) (hs : d.isCaretOffset s = true) (holds : d.Holds a s)
    (caret : d.HasCaret b) (hp : d.elementEnd? b = some p) (hlt : s < p)
    (simple : a ≠ b ∨ ¬ d.HasTable a) :
    d.boundaryCells? ⟨s, .forward⟩ ⟨p, .backward⟩ = some (a, b) := by
  obtain ⟨m, ends, hm, holds'⟩ :=
    wf.exists_normalizedEnds hs hp (wf.not_caret_elementEnd ht attached hb hp) caret hlt
  rcases eq_or_ne a b with rfl | hne
  · have inner : ∀ {o}, d.Holds a o → d.InnermostCell o a := fun ho =>
      wf.innermostCell_of_not_hasTable (wf.kind_tableCells ht ha)
        (simple.resolve_left fun h => h rfl) ho
    exact (wf.boundaryCells?_eq_same ends hs hm).2 ⟨inner holds, inner holds'⟩
  · exact (wf.boundaryCells?_eq_distinct ends hne).2 ⟨t, ht, ha, hb, hne, holds, holds'⟩

/-- The selection from a cell to one that does not start before it, by its ends. -/
theorem exists_cellSegment (wf : d.WellFormed) (order : a = b ∨ d.Precedes a b)
    (recoverable : d.Recoverable a b) : ∃ s p, d.firstCaret? a = some ⟨s, .forward⟩ ∧
      d.elementEnd? b = some p ∧ s < p ∧
      d.boundaryCells? ⟨s, .forward⟩ ⟨p, .backward⟩ = some (a, b) := by
  obtain ⟨q, hq, holds⟩ := recoverable.first
  obtain ⟨s, first, hs⟩ := wf.exists_first_caret hq holds
  obtain ⟨i, hi, -⟩ := wf.exists_start ht attached ha
  obtain ⟨j, hj, endB⟩ := wf.exists_start ht attached hb
  have hij : i ≤ j := by
    rcases order with rfl | ⟨i', j', hi', hj', hlt⟩
    · exact (Option.some.inj (hi.symm.trans hj)).le
    · rw [Option.some.inj (hi.symm.trans hi'), Option.some.inj (hj.symm.trans hj')]
      exact hlt.le
  have hlt := wf.lt_end_of_holds (wf.eq_or_endsBefore attached ha hb hi hj hij) hs.holds endB
  exact ⟨s, _, first, endB, hlt,
    wf.boundaryCells?_eq ht attached ha hb hs.caret hs.holds recoverable.second endB hlt
      recoverable.simple⟩

end Ends

/-! ## The cells that a selection finds -/

theorem mem_tableCells_of_covering (wf : d.WellFormed) (ht : d.kind? t = some .table)
    {row c : NodeId} {j : Nat} (hr : row ∈ d.tableRows t) (h : d.coveringCell? row j = some c) :
    c ∈ d.tableCells t := by
  obtain ⟨g, hg, i, hi⟩ := exists_group_of_mem_tableRows hr
  obtain ⟨r, hs, -⟩ := (wf.mem_occupants (wf.kind_group ht hg) hi).1 (List.mem_of_find?_eq_some h)
  exact mem_tableCells.2 ⟨g, hg, r, hs⟩

/-- A cell with paragraphs is found again at the first caret in it. -/
theorem exists_caret_inside (wf : d.WellFormed) (ht : d.kind? t = some .table) {c : NodeId}
    (hc : c ∈ d.tableCells t) (attached : root ∈ d.ancestors c) (paragraphs : d.HasParagraphs c) :
    ∃ p, d.firstCaret? c = some p ∧ d.isCaret p = true ∧ d.holds p c = true ∧
      d.boundaryCells? p p = some (c, c) := by
  have kind := wf.kind_tableCells ht hc
  obtain ⟨o, first, caret, holds⟩ := wf.exists_firstCaret? kind paragraphs.1 paragraphs.2 attached
  have mem := (wf.mem_ancestors_elementAt (wf.le_lastOffset_of_holds holds)).2 holds
  have stays : d.nearestCaret ⟨o, .forward⟩ .forward = ⟨o, .forward⟩ := if_pos caret
  have ends : d.normalizedEnds ⟨o, .forward⟩ ⟨o, .forward⟩ = (⟨o, .forward⟩, ⟨o, .forward⟩) := by
    simp [normalizedEnds, stays]
  have inner := wf.innermostCell_of_not_hasTable kind (wf.not_hasTable kind paragraphs.2) holds
  exact ⟨⟨o, .forward⟩, first, caret, wf.holds_iff.2 mem,
    (wf.boundaryCells?_eq_same ends caret caret).2 ⟨inner, inner⟩⟩

/-- The cells at the ends of a selection are part of the document. -/
theorem attached_boundaryCells? (wf : d.WellFormed) {a m : Position} {x y : NodeId}
    (h : d.boundaryCells? a m = some (x, y)) :
    (d.kind? x = some .cell ∧ root ∈ d.ancestors x) ∧
      d.kind? y = some .cell ∧ root ∈ d.ancestors y := by
  have side : ∀ {p : Position} {common c : NodeId}, common ∈ d.ancestors (d.holder p) →
      d.Leaves p common (some c) → d.kind? c = some .cell ∧ root ∈ d.ancestors c := fun hp hc => by
    obtain ⟨⟨up, -⟩, t, ht, hct, -⟩ := (wf.leaves_some hp).1 hc
    exact ⟨wf.kind_tableCells ht hct,
      wf.attached_of_mem_ancestors (wf.root_mem_ancestors_holder _) up⟩
  rcases ends : d.normalizedEnds a m with ⟨a', m'⟩
  have low := wf.lowestAbove_meeting a' m'
  rcases (wf.boundaryCells?_eq_some ends).1 h with ⟨hx, hy⟩ | ⟨-, found, rfl⟩
  · exact ⟨side low.left hx, side low.right hy⟩
  · have inner := wf.innermostCell_iff_enclosing?.2 found
    have attached := wf.root_mem_ancestors_of_holds inner.holds
    exact ⟨⟨inner.kind, attached⟩, inner.kind, attached⟩

/-- If a table is all that stands below the root, and its cells hold nothing but blocks, then there are
no other cells in the document. -/
theorem mem_tableCells_of_attached (wf : d.WellFormed) (ht : d.kind? t = some .table)
    (filled : d.Filled t) (sole : ∀ x, d.parent? x = some root → x = t) {c : NodeId}
    (hc : d.kind? c = some .cell) (attached : root ∈ d.ancestors c) : c ∈ d.tableCells t := by
  have place : ∀ n, root ∈ d.ancestors n → n = root ∨ n = t ∨ n ∈ d.children t ∨
      n ∈ d.tableRows t ∨ n ∈ d.tableCells t ∨ d.kind? n = some .block ∨
      d.kind? n = some .inline := by
    intro n
    induction n using wf.induct_up with
    | top n hp =>
      intro h
      rw [wf.ancestors_of_no_parent (lt_size_of_ancestor h) hp, List.mem_singleton] at h
      exact .inl h.symm
    | step n p hp ih =>
      intro h
      have hmem := wf.mem_children.2 hp
      rcases (wf.mem_ancestors_of_parent hp).1 h with h | h
      · exact .inl h.symm
      rcases ih h with rfl | rfl | hg | hr | hcell | hb | hi
      · exact .inr (.inl (sole n hp))
      · exact .inr (.inr (.inl hmem))
      · exact .inr (.inr (.inr (.inl (List.mem_flatMap.2 ⟨p, hg, hmem⟩))))
      · exact .inr (.inr (.inr (.inr (.inl (List.mem_flatMap.2 ⟨p, hr, hmem⟩)))))
      · exact .inr (.inr (.inr (.inr (.inr (.inl ((filled p hcell).2 n hmem))))))
      · exact .inr (.inr (.inr (.inr (.inr (.inr (wf.kind_inline hb hmem))))))
      · rw [wf.children_inline hi] at hmem
        cases hmem
  have other : ∀ {k}, d.kind? c = some k → k = .cell := fun h => Option.some.inj (h.symm.trans hc)
  rcases place c attached with rfl | rfl | hg | hr | hmem | hb | hi
  · cases other wf.root_kind
  · cases other ht
  · cases other (wf.kind_group ht hg)
  · cases other (wf.kind_tableRows ht hr)
  · exact hmem
  · cases other hb
  · cases other hi

/-- The cells of a detached table have no offsets. -/
theorem elementStart?_of_detached (wf : d.WellFormed) (ht : d.kind? t = some .table)
    (detached : root ∉ d.ancestors t) {c : NodeId} (hc : c ∈ d.tableCells t) :
    d.elementStart? c = none := by
  have hck := wf.kind_tableCells ht hc
  have hroot : root ∉ d.ancestors c := fun h =>
    detached (wf.attached_of_mem_ancestors h (wf.table_mem_ancestors ht hc))
  have hne := wf.ne_root_of_cell hck
  have := mt (wf.contentStart?_isSome (lt_size_of_kind? hck)).1 hroot
  rw [contentStart?, if_neg hne] at this
  simpa using this

end WellFormed

/-- An attached table whose cells are filled with paragraphs. -/
structure Selectable (d : Document L) (t : NodeId) : Prop where
  wf : d.WellFormed
  kind : d.kind? t = some .table
  attached : root ∈ d.ancestors t
  filled : d.Filled t

namespace Selectable

variable {c : NodeId}

theorem exists_caret (h : d.Selectable t) (hc : c ∈ d.tableCells t) :
    ∃ o, d.firstCaret? c = some ⟨o, .forward⟩ ∧ d.isCaretOffset o = true ∧ d.Holds c o :=
  h.wf.exists_firstCaret? (h.wf.kind_tableCells h.kind hc) (h.filled c hc).1 (h.filled c hc).2
    (h.wf.attached_tableCells h.attached hc)

theorem hasCaret (h : d.Selectable t) (hc : c ∈ d.tableCells t) : d.HasCaret c := by
  obtain ⟨o, -, caret⟩ := h.exists_caret hc
  exact ⟨o, caret⟩

theorem not_hasTable (h : d.Selectable t) (hc : c ∈ d.tableCells t) : ¬ d.HasTable c :=
  h.wf.not_hasTable (h.wf.kind_tableCells h.kind hc) (h.filled c hc).2

end Selectable

end Document

namespace Editor

open Document

variable {L : Type} {e : Editor L} {t : NodeId}

theorem mem_tableCells_of_cellAt? (wf : e.doc.WellFormed) (ht : e.doc.kind? t = some .table)
    {r j : Nat} {c : NodeId} (h : e.cellAt? t r j = some c) : c ∈ e.doc.tableCells t := by
  obtain ⟨row, hr, hc⟩ := Option.bind_eq_some_iff.1 h
  exact wf.mem_tableCells_of_covering ht (List.mem_of_getElem? hr) hc

/-- Without cells at the two places, or if the table is detached, there is no selection. -/
theorem selectCells?_eq_none (wf : e.doc.WellFormed) (ht : e.doc.kind? t = some .table)
    {source target : Nat × Nat} (h : e.cellAt? t source.1 source.2 = none ∨
      e.cellAt? t target.1 target.2 = none ∨ root ∉ e.doc.ancestors t) :
    e.selectCells? t source target = none := by
  cases ha : e.cellAt? t source.1 source.2 with
  | none => simp [selectCells?, ha]
  | some a =>
    cases hb : e.cellAt? t target.1 target.2 with
    | none => simp [selectCells?, ha, hb]
    | some b =>
      have detached : root ∉ e.doc.ancestors t := by simpa [ha, hb] using h
      simp [selectCells?, ha, hb, wf.elementStart?_of_detached ht detached
        (mem_tableCells_of_cellAt? wf ht ha)]

/-- The cells at two places of a table are found again at the ends of the selection between them, in
the order of the document. -/
theorem exists_selectCells?_of_recoverable (wf : e.doc.WellFormed) (ht : e.doc.kind? t = some .table)
    (attached : root ∈ e.doc.ancestors t) {source target : Nat × Nat} {a b : NodeId}
    (ha : e.cellAt? t source.1 source.2 = some a) (hb : e.cellAt? t target.1 target.2 = some b)
    (recoverable : e.doc.Recoverable a b) : ∃ selection x y,
      e.selectCells? t source target = some selection ∧
      e.doc.boundaryCells? selection.start selection.stop = some (x, y) ∧
      (x = a ∧ y = b ∨ x = b ∧ y = a) ∧ (x = y ∨ e.doc.Precedes x y) := by
  have hat := mem_tableCells_of_cellAt? wf ht ha
  have hbt := mem_tableCells_of_cellAt? wf ht hb
  obtain ⟨i, hi, -⟩ := wf.exists_start ht attached hat
  obtain ⟨j, hj, -⟩ := wf.exists_start ht attached hbt
  by_cases hle : i ≤ j
  · have order := (wf.eq_or_endsBefore attached hat hbt hi hj hle).imp_right EndsBefore.precedes
    obtain ⟨s, p, hs, hp, hlt, found⟩ :=
      wf.exists_cellSegment ht attached hat hbt order recoverable
    refine ⟨⟨⟨s, .forward⟩, ⟨p, .backward⟩⟩, a, b, ?_, found, .inl ⟨rfl, rfl⟩, order⟩
    simp [selectCells?, ha, hb, hi, hj, hle, hs, edgePosition?, hp, Segment.between, hlt.le]
  · have order := (wf.eq_or_endsBefore attached hbt hat hj hi (Nat.le_of_not_le hle)).imp_right
      EndsBefore.precedes
    obtain ⟨s, p, hs, hp, hlt, found⟩ :=
      wf.exists_cellSegment ht attached hbt hat order recoverable.symm
    refine ⟨⟨⟨s, .forward⟩, ⟨p, .backward⟩⟩, b, a, ?_, found, .inr ⟨rfl, rfl⟩, order⟩
    simp [selectCells?, ha, hb, hi, hj, hle, hs, edgePosition?, hp, Segment.between, hlt.le]

/-- In a table with filled cells, the cells at all places are found again. -/
theorem exists_selectCells? (h : e.doc.Selectable t) {source target : Nat × Nat} {a b : NodeId}
    (ha : e.cellAt? t source.1 source.2 = some a) (hb : e.cellAt? t target.1 target.2 = some b) :
    ∃ selection x y, e.selectCells? t source target = some selection ∧
      e.doc.boundaryCells? selection.start selection.stop = some (x, y) ∧
      (x = a ∧ y = b ∨ x = b ∧ y = a) := by
  have hat := mem_tableCells_of_cellAt? h.wf h.kind ha
  have hbt := mem_tableCells_of_cellAt? h.wf h.kind hb
  obtain ⟨selection, x, y, eq, found, swap, -⟩ := exists_selectCells?_of_recoverable h.wf h.kind
    h.attached ha hb ⟨h.hasCaret hat, h.hasCaret hbt, .inr (h.not_hasTable hat)⟩
  exact ⟨selection, x, y, eq, found, swap⟩

/-- Two cells of a table are found again at the ends of the selection between them, whether it is made
from the cells or from places of the grid. -/
theorem selection_of_cells (wf : e.doc.WellFormed) (ht : e.doc.kind? t = some .table)
    (attached : root ∈ e.doc.ancestors t) :
    (∀ a ∈ e.doc.tableCells t, ∀ b ∈ e.doc.tableCells t, (a = b ∨ e.doc.Precedes a b) →
      e.doc.Recoverable a b → ∃ selection, e.doc.cellSegment? a b = some selection ∧
        e.doc.boundaryCells? selection.start selection.stop = some (a, b)) ∧
    ∀ (source target : Nat × Nat) (a b : NodeId), e.cellAt? t source.1 source.2 = some a →
      e.cellAt? t target.1 target.2 = some b → e.doc.Recoverable a b → ∃ selection x y,
        e.selectCells? t source target = some selection ∧
        e.doc.boundaryCells? selection.start selection.stop = some (x, y) ∧
        (x = a ∧ y = b ∨ x = b ∧ y = a) ∧ (x = y ∨ e.doc.Precedes x y) := by
  refine ⟨fun a ha b hb order recoverable => ?_, fun source target a b ha hb recoverable =>
    exists_selectCells?_of_recoverable wf ht attached ha hb recoverable⟩
  obtain ⟨s, p, hs, hp, hlt, found⟩ := wf.exists_cellSegment ht attached ha hb order recoverable
  refine ⟨⟨⟨s, .forward⟩, ⟨p, .backward⟩⟩, ?_, found⟩
  simp [cellSegment?, hs, edgePosition?, hp, Segment.between, hlt.le]

/-- An editor of `nestedTables`. -/
def nested : Editor Int := { doc := nestedTables, config := .standard }

/-- The cells of a table of which the first holds another table, selected from left to right and, by
their places, from right to left. -/
theorem selection_of_cells_nested :
    nested.doc.WellFormed ∧ nested.doc.kind? 1 = some .table ∧ root ∈ nested.doc.ancestors 1 ∧
      4 ∈ nested.doc.tableCells 1 ∧ 7 ∈ nested.doc.tableCells 1 ∧ nested.doc.Precedes 4 7 ∧
      nested.doc.Recoverable 4 7 ∧ nested.doc.HasTable 4 ∧
      (∃ selection, nested.doc.cellSegment? 4 7 = some selection ∧
        nested.doc.boundaryCells? selection.start selection.stop = some (4, 7)) ∧
      nested.cellAt? 1 0 1 = some 7 ∧ nested.cellAt? 1 0 0 = some 4 ∧
      ∃ selection x y, nested.selectCells? 1 (0, 1) (0, 0) = some selection ∧
        nested.doc.boundaryCells? selection.start selection.stop = some (x, y) ∧
        (x = 7 ∧ y = 4 ∨ x = 4 ∧ y = 7) ∧ (x = y ∨ nested.doc.Precedes x y) := by
  have wf : nested.doc.WellFormed := by
    dsimp only [nested]
    exact Call.wellFormed_runAll _
  have cells : nested.doc.kind? 1 = some .table ∧ root ∈ nested.doc.ancestors 1 ∧
      4 ∈ nested.doc.tableCells 1 ∧ 7 ∈ nested.doc.tableCells 1 ∧
      nested.cellAt? 1 0 1 = some 7 ∧ nested.cellAt? 1 0 0 = some 4 := by decide +kernel
  have starts : nested.doc.elementStart? 4 = some 3 ∧ nested.doc.elementStart? 7 = some 30 ∧
      nested.doc.symbolLength 4 = 27 ∧ nested.doc.symbolLength 7 = 7 ∧
      nested.doc.isCaretOffset 6 = true ∧ nested.doc.isCaretOffset 33 = true := by decide +kernel
  have inner : nested.doc.kind? 10 = some .table ∧ 4 ∈ nested.doc.ancestors 10 := by decide +kernel
  obtain ⟨ht, attached, ha, hb, right, left⟩ := cells
  obtain ⟨startA, startB, lengthA, lengthB, caretA, caretB⟩ := starts
  have order : nested.doc.Precedes 4 7 := ⟨3, 30, startA, startB, by decide⟩
  have recoverable : nested.doc.Recoverable 4 7 := by
    refine ⟨⟨6, caretA, (wf.holds_iff_between startA).2 ?_⟩,
      ⟨33, caretB, (wf.holds_iff_between startB).2 ?_⟩, .inl (by decide)⟩
    · omega
    · omega
  have found := selection_of_cells wf ht attached
  exact ⟨wf, ht, attached, ha, hb, order, recoverable, ⟨10, inner⟩,
    found.1 4 ha 7 hb (.inr order) recoverable, right, left,
    found.2 (0, 1) (0, 0) 7 4 right left recoverable.symm⟩

end Editor

end RichTable
