import Mathlib
import RichTable.Edit.Row
import RichTable.Proofs.Edit.Inherit

/-!
# Updates of many cells

Edits of rows first cut the row spans of a group to the rows that are there (`clampRowSpans`), then
change the spans of some cells. Neither touches the tree: the group is `Respanned`. After the cut, the
row span of a cell is the number of rows that it occupies (`Clamped.fits`).
-/

namespace RichTable.Document

variable {L : Type} {d d' e : Document L} {t g : NodeId} {n : Nat} {s : NodeId → Nat}

theorem SameTree.effectiveRowSpan (same : SameTree d e) {c : NodeId} (h : e.cell? c = d.cell? c) :
    e.effectiveRowSpan c = d.effectiveRowSpan c := by
  simp only [Document.effectiveRowSpan, h, rowOf?, groupOf?, childIndex?, parentOfKind?, isKind,
    same.parent, same.kind, same.children]

/-- The spans are those of the document at the start, since no cell is changed twice. -/
theorem foldl_clamp {cells : List NodeId} (nodup : cells.Nodup) (same : SameTree d e)
    (h : ∀ c ∈ cells, e.cell? c = d.cell? c) :
    cells.foldl (fun e c => e.modifyCell c fun props =>
      { props with rowSpan := max (e.effectiveRowSpan c) 1 }) e =
    cells.foldl (fun e c => e.modifyCell c fun props =>
      { props with rowSpan := max (d.effectiveRowSpan c) 1 }) e := by
  induction cells generalizing e with
  | nil => rfl
  | cons c cells ih =>
    obtain ⟨hc, nodup⟩ := List.nodup_cons.1 nodup
    simp only [List.foldl_cons]
    rw [same.effectiveRowSpan (h c (by simp))]
    refine ih nodup (same.trans (.modifyCell e c _)) fun x hx => ?_
    have hxc : x ≠ c := fun e => hc (e ▸ hx)
    rw [cell?_modifyCell, ← h x (by simp [hx])]
    simp [hxc]

/-- `d'` is `d` with other row spans in a group: `H r c` for a cell `c` stored in row `r`. -/
structure Respanned (d d' : Document L) (g : NodeId) (H : Nat → NodeId → Nat) : Prop where
  same : SameTree d d'
  table : ∀ x, d'.table? x = d.table? x
  inside : ∀ {r c}, Stored (d.rowsOf g) r c →
    d'.cell? c = (d.cell? c).map fun props => { props with rowSpan := H r c }
  outside : ∀ {c}, (∀ r, ¬ Stored (d.rowsOf g) r c) → d'.cell? c = d.cell? c

namespace Respanned

variable {H : Nat → NodeId → Nat}

theorem shape_inside (h : Respanned d d' g H) (wf : d.WellFormed)
    (hg : d.kind? g = some .rowGroup) {r : Nat} {c : NodeId} (hs : Stored (d.rowsOf g) r c) :
    d'.shape.start c = d.shape.start c ∧ d'.shape.width c = d.shape.width c ∧
      d'.shape.height c = max (H r c) 1 := by
  obtain ⟨props, hp⟩ := exists_cell? (wf.kind_stored hg hs)
  have hin := h.inside hs
  rw [hp, Option.map_some] at hin
  refine ⟨by simp [shape, columnIndex?, hp, hin], ?_, ?_⟩
  · simp [shape, extent_eq hp, extent_eq hin, CellProps.extent, CellProps.width]
  · simp [shape, extent_eq hin, CellProps.extent, CellProps.height]

theorem shape_outside (h : Respanned d d' g H) {c : NodeId}
    (hc : ∀ r, ¬ Stored (d.rowsOf g) r c) :
    d'.shape.start c = d.shape.start c ∧ d'.shape.width c = d.shape.width c ∧
      d'.shape.height c = d.shape.height c := by
  simp [shape, extent, columnIndex?, h.outside hc]

theorem start_eq (h : Respanned d d' g H) (wf : d.WellFormed) (hg : d.kind? g = some .rowGroup)
    (c : NodeId) : d'.shape.start c = d.shape.start c := by
  by_cases hc : ∃ r, Stored (d.rowsOf g) r c
  · obtain ⟨r, hs⟩ := hc
    exact (h.shape_inside wf hg hs).1
  · exact (h.shape_outside (not_exists.1 hc)).1

theorem columnIndex?_eq (h : Respanned d d' g H) (c : NodeId) :
    d'.columnIndex? c = d.columnIndex? c := by
  by_cases hc : ∃ r, Stored (d.rowsOf g) r c
  · obtain ⟨r, hs⟩ := hc
    rw [columnIndex?, h.inside hs, columnIndex?]
    cases d.cell? c <;> rfl
  · rw [columnIndex?, h.outside (not_exists.1 hc), columnIndex?]

/-- Spans that were not zero are not zero if the new ones are not. -/
theorem spans (h : Respanned d d' g H) (wf : d.WellFormed) (hg : d.kind? g = some .rowGroup)
    (pos : ∀ {r c}, Stored (d.rowsOf g) r c → 1 ≤ H r c) {c : NodeId}
    (hc : ∀ props, d.cell? c = some props → 1 ≤ props.columnSpan ∧ 1 ≤ props.rowSpan) :
    ∀ props, d'.cell? c = some props → 1 ≤ props.columnSpan ∧ 1 ≤ props.rowSpan := by
  intro p hp
  by_cases hin : ∃ r, Stored (d.rowsOf g) r c
  · obtain ⟨r, hs⟩ := hin
    obtain ⟨q, hq⟩ := exists_cell? (wf.kind_stored hg hs)
    rw [h.inside hs, hq] at hp
    cases hp
    exact ⟨(hc q hq).1, pos hs⟩
  · exact hc p (h.outside (not_exists.1 hin) ▸ hp)

end Respanned

/-- Updates of row spans, each cell at most once. -/
theorem Regular.respanned_foldl (reg : d.Regular t) (hg : g ∈ d.children t) {cells : List NodeId}
    {f : NodeId → CellProps L → CellProps L} {H : Nat → NodeId → Nat} (nodup : cells.Nodup)
    (stored : ∀ c ∈ cells, ∃ r, Stored (d.rowsOf g) r c)
    (update : ∀ {r c props}, Stored (d.rowsOf g) r c → d.cell? c = some props →
      (if c ∈ cells then f c props else props) = { props with rowSpan := H r c }) :
    Respanned d (cells.foldl (fun d c => d.modifyCell c (f c)) d) g H where
  same := sameTree_foldl _ _ d
  table x := table?_foldl x
  inside {r c} hs := by
    obtain ⟨props, hp⟩ := exists_cell? (reg.wf.kind_stored (reg.kind_group hg) hs)
    rw [cell?_foldl nodup, hp, Option.map_some, Option.map_some, update hs hp]
  outside {c} hc := by
    have hmem : c ∉ cells := fun h => by
      obtain ⟨r, hs⟩ := stored c h
      exact hc r hs
    rw [cell?_foldl nodup]
    simp [hmem]

/-! ## Cutting row spans -/

/-- `d'` is `d` with the row spans of the cells of a group cut. -/
abbrev Clamped (d d' : Document L) (g : NodeId) : Prop :=
  Respanned d d' g fun r c => min (d.shape.height c) ((d.children g).length - r)

theorem WellFormed.clamped (wf : d.WellFormed) (hg : d.kind? g = some .rowGroup) :
    Clamped d (d.clampRowSpans g) g := by
  have nodup : ((d.children g).flatMap d.children).Nodup := wf.nodup_rowsOf g
  have eq : d.clampRowSpans g = ((d.children g).flatMap d.children).foldl
      (fun e c => e.modifyCell c fun props =>
        { props with rowSpan := max (d.effectiveRowSpan c) 1 }) d :=
    foldl_clamp nodup (.refl d) fun _ _ => rfl
  refine ⟨?_, fun x => ?_, fun {r c} hs => ?_, fun {c} hc => ?_⟩
  · rw [eq]
    exact sameTree_foldl _ _ d
  · rw [eq, table?_foldl]
  · have hmem : c ∈ (d.children g).flatMap d.children := hs.mem_flatten
    have hlt := hs.lt_length
    have hpos := wf.height_pos hg hs
    rw [length_rowsOf] at hlt
    rw [eq, cell?_foldl nodup]
    simp only [if_pos hmem, wf.effectiveRowSpan_eq hg hs]
    rw [max_eq_left (by omega)]
  · have hmem : c ∉ (d.children g).flatMap d.children := fun h => by
      obtain ⟨r, hs⟩ := exists_stored (show c ∈ (d.rowsOf g).flatten from h)
      exact hc r hs
    rw [eq, cell?_foldl nodup]
    simp [hmem]

namespace Clamped

/-- A cell occupies at least the row that stores it. -/
theorem height_eq (h : Clamped d d' g) (wf : d.WellFormed) (hg : d.kind? g = some .rowGroup)
    {r : Nat} {c : NodeId} (hs : Stored (d.rowsOf g) r c) :
    1 ≤ min (d.shape.height c) ((d.children g).length - r) ∧
      d'.shape.height c = min (d.shape.height c) ((d.children g).length - r) := by
  have hpos := wf.height_pos hg hs
  have hlt := hs.lt_length
  rw [length_rowsOf] at hlt
  rw [(h.shape_inside wf hg hs).2.2]
  omega

/-- After the cut no cell of the group reaches below the last row. -/
theorem fits (h : Clamped d d' g) (wf : d.WellFormed) (hg : d.kind? g = some .rowGroup) {r : Nat}
    {c : NodeId} (hs : Stored (d'.rowsOf g) r c) :
    r + d'.shape.height c ≤ (d'.rowsOf g).length := by
  rw [h.same.rowsOf] at hs ⊢
  have hlt := hs.lt_length
  rw [(h.height_eq wf hg hs).2]
  rw [length_rowsOf] at hlt ⊢
  omega

/-- The cut does not change what the cells cover, in this group and in others. -/
theorem covers_iff (h : Clamped d d' g) (wf : d.WellFormed) (hg : d.kind? g = some .rowGroup)
    {q c : NodeId} {i j : Nat} (hi : i < (d.rowsOf q).length) :
    d'.shape.Covers (d'.rowsOf q) i j c ↔ d.shape.Covers (d.rowsOf q) i j c := by
  rw [h.same.rowsOf]
  by_cases hqg : q = g
  · subst hqg
    refine Tiling.covers_clip (fun hs => (h.shape_inside wf hg hs).1)
      (fun hs => (h.shape_inside wf hg hs).2.1) (fun {r c i} hs hle hi => ?_) hi
    rw [(h.height_eq wf hg hs).2]
    rw [length_rowsOf] at hi
    omega
  · have other := fun {r c} (hs : Stored (d.rowsOf q) r c) =>
      h.shape_outside (wf.not_stored_of_ne hqg hs)
    exact Tiling.covers_clip (fun hs => (other hs).1) (fun hs => (other hs).2.1)
      (fun hs _ _ => by rw [(other hs).2.2]) hi

/-- The cut leaves a tiling. -/
theorem tileable (h : Clamped d d' g) (tile : d.Tileable t n s) (hg : g ∈ d.children t) :
    d'.Tileable t n s := by
  have wf := tile.wf
  have hgk := wf.kind_group tile.kind hg
  refine ⟨h.same.wellFormed wf, (h.same.kind t).trans tile.kind, fun q hq => ?_, fun c hc => ?_⟩
  · rw [h.same.children] at hq
    rw [h.same.rowsOf]
    by_cases hqg : q = g
    · subst hqg
      refine (tile.tiling q hq).clip (fun _ => rfl) (fun hs => (h.shape_inside wf hgk hs).2.1)
        (fun {r c} hs => ?_) fun {r c i} hs hle hi => ?_
      · obtain ⟨pos, eq⟩ := h.height_eq wf hgk hs
        show 0 < d'.shape.height c
        omega
      · show i < r + d'.shape.height c ↔ i < r + d.shape.height c
        rw [(h.height_eq wf hgk hs).2]
        rw [length_rowsOf] at hi
        omega
    · exact (tile.tiling q hq).congr (fun _ => rfl)
        (fun hs => (h.shape_outside (wf.not_stored_of_ne hqg hs)).2.1)
        fun hs => (h.shape_outside (wf.not_stored_of_ne hqg hs)).2.2
  · rw [h.same.tableCells] at hc
    exact h.spans wf hgk (fun hs => (h.height_eq wf hgk hs).1) (tile.spans c hc)

theorem regular (h : Clamped d d' g) (reg : d.Regular t) (hg : g ∈ d.children t)
    (rows : d.tableRows t ≠ []) : d'.Regular t := by
  have hgk := reg.kind_group hg
  have start : d'.shape.start = d.shape.start := funext (h.start_eq reg.wf hgk)
  have count : d'.columnCount t = d.columnCount t := by
    rw [columnCount, columnCount, h.table]
  refine Tileable.regular ?_ (fun c hc => ?_) (h.same.tableRows t ▸ rows)
  · rw [start, count]
    exact Clamped.tileable h reg.tileable hg
  · rw [h.same.tableCells] at hc
    have := reg.placed hc
    by_cases hin : ∃ r, Stored (d.rowsOf g) r c
    · obtain ⟨r, hs⟩ := hin
      obtain ⟨q, hq⟩ := exists_cell? (reg.wf.kind_stored hgk hs)
      simpa [columnIndex?, h.inside hs, hq] using this
    · simpa [columnIndex?, h.outside (not_exists.1 hin)] using this

end Clamped

end RichTable.Document
