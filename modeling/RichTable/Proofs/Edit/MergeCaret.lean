import Mathlib
import RichTable.Proofs.Edit.Anchor
import RichTable.Proofs.Edit.Merge
import RichTable.Proofs.Selection.Cells
import RichTable.Proofs.Tree.Calls

/-!
# Merges that return no caret

A merge that is refused leaves the document alone, but for the layout of its table (`Untouched`). One
that is made returns the first place for a caret in the merged cell, if there is any. So there are two
ways to get none. This file tells them apart by the document before the merge, in any table and
whatever its cells hold (`mergeRect_none_iff`): a merge that is made returns a caret, unless the table is
not attached or there is no place for a caret in what the merged cell takes over.

The second way is open. A cell with an empty paragraph that takes over a nested table without cells
loses its paragraph, and the caret with it (`mergeRect_none_touched`).
-/

namespace RichTable.Document

variable {L : Type} {d d' e : Document L} {t g row v : NodeId} {rect : CellRect}
  {cells : List NodeId}

/-- The documents differ in nothing but the columns of cells and the column counts of tables. -/
structure Untouched (d d' : Document L) : Prop where
  tree : SameTree d d'
  cells : ∀ x, (d'.cell? x).map ({ · with columnIndex := none }) =
    (d.cell? x).map ({ · with columnIndex := none })
  tables : ∀ x, (d'.table? x).map ({ · with columnCount := 0 }) =
    (d.table? x).map ({ · with columnCount := 0 })

theorem WellFormed.untouched_placed (wf : d.WellFormed) (t : NodeId) : Untouched d (d.placed t) := by
  obtain ⟨s, hs⟩ := wf.exists_columns t
  refine ⟨wf.sameTree_placed t, fun x => ?_, fun x => ?_⟩
  · rw [wf.cell?_placed hs, Option.map_map]
    congr 1
    funext props
    simp only [Function.comp_apply]
    split <;> rfl
  · rw [wf.table?_placed, Option.map_map]
    congr 1
    funext props
    simp only [Function.comp_apply]
    split <;> rfl

/-! ## Rectangles that can be merged -/

/-- The rectangle can be merged: `cells` become one with `v`, a cell of its top row that starts in its
first column. -/
structure MergesInto (d : Document L) (t g : NodeId) (rect : CellRect) (row v : NodeId)
    (cells : List NodeId) : Prop where
  candidates : d.mergeCandidates? t rect (d.children g) = some cells
  top : (d.children g)[rect.top]? = some row
  cell : v ∈ d.children row
  corner : (d.columnRange? v).any (·.first == rect.left) = true

namespace MergesInto

variable (h : d.MergesInto t g rect row v cells)

include h

theorem row_mem : row ∈ d.children g := List.mem_of_getElem? h.top

theorem nodup : cells.Nodup := by
  obtain ⟨all, -, rfl⟩ := exists_of_mergeCandidates? h.candidates
  exact nodup_eraseDups all

/-- The cells that are merged stand in rows of the group. -/
theorem exists_row (wf : d.WellFormed) (hg : d.kind? g = some .rowGroup) {c : NodeId}
    (hc : c = v ∨ c ∈ cells) : ∃ r ∈ d.children g, c ∈ d.children r := by
  rcases hc with rfl | hc
  · exact ⟨row, h.row_mem, h.cell⟩
  · obtain ⟨i, hs⟩ := wf.stored_of_mem_candidates hg h.candidates hc
    obtain ⟨r, hr, hcr⟩ := stored_rowsOf.1 hs
    exact ⟨r, List.mem_of_getElem? hr, hcr⟩

theorem kind (wf : d.WellFormed) (hg : d.kind? g = some .rowGroup) {c : NodeId}
    (hc : c = v ∨ c ∈ cells) : d.kind? c = some .cell := by
  obtain ⟨r, hr, hcr⟩ := h.exists_row wf hg hc
  exact wf.kind_cell (wf.kind_row hg hr) hcr

theorem mem_tableCells (wf : d.WellFormed) (ht : d.kind? t = some .table) (hg : g ∈ d.children t)
    {c : NodeId} (hc : c = v ∨ c ∈ cells) : c ∈ d.tableCells t := by
  obtain ⟨r, hr, hcr⟩ := h.exists_row wf (wf.kind_group ht hg) hc
  exact List.mem_flatMap.2 ⟨r, List.mem_flatMap.2 ⟨g, hg, hr⟩, hcr⟩

/-- The rows of the rectangle below its top row. -/
theorem lower (wf : d.WellFormed) {r : NodeId} (hr : r ∈ (rect.rowsOf (d.children g)).drop 1) :
    r ∈ d.children g ∧ r ≠ row := by
  rw [CellRect.rowsOf, List.drop_drop] at hr
  refine ⟨List.mem_of_mem_take (List.mem_of_mem_drop hr), ?_⟩
  rintro rfl
  obtain ⟨i, hi⟩ := List.getElem?_of_mem hr
  rw [List.getElem?_drop, List.getElem?_take] at hi
  split_ifs at hi
  have := (List.getElem?_inj (List.getElem?_eq_some_iff.1 h.top).1 (wf.nodup g)).1
    (h.top.trans hi.symm)
  omega

/-- Moving the content leaves the rows and the group as they are. -/
theorem children_absorbed (wf : d.WellFormed) (hg : d.kind? g = some .rowGroup)
    (absorbed : Absorbed d d' v cells) {x : NodeId} {k : Kind} (hx : d.kind? x = some k)
    (hk : k ≠ .cell) : d'.children x = d.children x :=
  absorbed.frame.children x (lt_size_of_kind? hx) fun hC => by
    rw [h.kind wf hg hC] at hx
    cases hx
    exact hk rfl

end MergesInto

/-! ## Taking rows and cells out of a row group -/

/-- The group and its rows have lost some children, but not `row` and not its cell `v`. -/
structure Thinned (d e : Document L) (g row v : NodeId) : Prop where
  wf : e.WellFormed
  size : e.size = d.size
  frame : Frame (fun x => x = g ∨ x ∈ d.children g) (fun _ => True) d e
  cell : e.parent? v = some row
  row : e.parent? row = some g

namespace Thinned

theorem refl (wf : d.WellFormed) (hv : v ∈ d.children row) (hr : row ∈ d.children g) :
    Thinned d d g row v :=
  ⟨wf, rfl, .refl d, wf.mem_children.1 hv, wf.mem_children.1 hr⟩

theorem sameTree (h : Thinned d e g row v) (same : SameTree e d') : Thinned d d' g row v where
  wf := same.wellFormed h.wf
  size := same.size.trans h.size
  frame := h.frame.trans (same.frame (by simp) (by simp))
  cell := (same.parent v).trans h.cell
  row := (same.parent row).trans h.row

/-- What belonged to the group or a row of it may be detached. -/
theorem detach (h : Thinned d e g row v) (wf : d.WellFormed) {x p : NodeId}
    (hp : d.parent? x = some p) (hC : p = g ∨ p ∈ d.children g) (hv : x ≠ v) (hr : x ≠ row) :
    Thinned d (e.detach x) g row v where
  wf := h.wf.detach x
  size := by rw [size_detach, h.size]
  frame := h.frame.trans (.of_detach h.wf fun _ hq =>
    h.frame.parent_mem wf h.wf h.size hp hC hq)
  cell := by rw [parent?_detach, if_neg (Ne.symm hv), h.cell]
  row := by rw [parent?_detach, if_neg (Ne.symm hr), h.row]

/-- What stands in a row has stood in the group or in a row of it. -/
theorem exists_parent (h : Thinned d e g row v) {x r : NodeId} (hr : r ∈ d.children g)
    (hx : x ∈ e.children r) : ∃ p, d.parent? x = some p ∧ (p = g ∨ p ∈ d.children g) := by
  by_contra hn
  have hp := h.wf.mem_children.1 hx
  have same : e.parent? x = d.parent? x :=
    h.frame.parent x (h.size ▸ h.wf.lt_size_child hx) fun p hp hC => hn ⟨p, hp, hC⟩
  exact hn ⟨r, same ▸ hp, .inr hr⟩

end Thinned

/-! ## The caret in a merged cell -/

section Caret

variable {d₁ : Document L} (wf : d.WellFormed) (ht : d.kind? t = some .table)
  (hg : g ∈ d.children t) (h : d.MergesInto t g rect row v cells) (absorbed : Absorbed d d₁ v cells)
  (thinned : Thinned d₁ e g row v)

include wf ht hg h absorbed thinned

/-- A merge gives other children to the row group, its rows and the cells of the table. -/
theorem MergesInto.frame : Frame (fun x => x ∈ d.tableCells t ∨ x = g ∨ x ∈ d.children g)
    (fun _ => True) d e := by
  have hgk := wf.kind_group ht hg
  have group : d₁.children g = d.children g := h.children_absorbed wf hgk absorbed hgk (by decide)
  refine (absorbed.frame.mono (fun x _ hx => .inl (h.mem_tableCells wf ht hg hx))
    (fun _ _ => False.elim) wf).trans ?_
  rw [← group]
  exact thinned.frame.mono (fun _ _ => .inr) (fun _ _ => id) absorbed.wf

/-- The way up from the merged cell. -/
theorem MergesInto.ancestors : e.ancestors v = v :: row :: g :: d.ancestors t := by
  have up : e.ancestors g = d.ancestors g := by
    refine (h.frame wf ht hg absorbed thinned).ancestors wf thinned.wf (wf.lt_size_child hg) ?_
    rintro p hp hne (hc | rfl | hr)
    · exact wf.not_mem_ancestors_tableRows hc hg (.inl rfl) hp
    · exact hne rfl
    · exact wf.not_mem_ancestors_parent (wf.mem_children.1 hr) hp
  rw [thinned.wf.ancestors_of_parent thinned.cell, thinned.wf.ancestors_of_parent thinned.row, up,
    wf.ancestors_of_parent (wf.mem_children.1 hg)]

/-- The merged cell holds what it has taken over. -/
theorem MergesInto.children : e.children v = d.absorbed v cells := by
  have hgk := wf.kind_group ht hg
  have hvk := h.kind wf hgk (.inl rfl)
  have group : d₁.children g = d.children g := h.children_absorbed wf hgk absorbed hgk (by decide)
  rw [thinned.frame.children v ((lt_size_of_kind? hvk).trans_le absorbed.frame.size) ?_,
    absorbed.children]
  rw [group]
  rintro (rfl | hr)
  · rw [hgk] at hvk
    cases hvk
  · rw [wf.kind_row hgk hr] at hvk
    cases hvk

/-- What the merged cell has taken over is what it was. -/
theorem MergesInto.sameBelow {x : NodeId} (hx : x ∈ d.absorbed v cells) : SameBelow d e x := by
  obtain ⟨c, hc, hxc⟩ : ∃ c ∈ d.tableCells t, x ∈ d.children c := by
    rcases mem_absorbed hx with hxv | ⟨c, hc, hxc⟩
    · exact ⟨v, h.mem_tableCells wf ht hg (.inl rfl), hxv⟩
    · exact ⟨c, h.mem_tableCells wf ht hg (.inr hc), hxc⟩
  refine .of_frame (h.frame wf ht hg absorbed thinned) ?_
  rintro y hy (hyc | hyr)
  · exact (wf.separate_tableCells t).not_mem_ancestors wf hc hxc hyc hy
  · exact wf.not_mem_ancestors_tableRows hc hg hyr
      (wf.parent_mem_ancestors hy (wf.mem_children.1 hxc))

/-- There is a caret in the merged cell if the table is attached and there is a place for a caret in
what the cell has taken over. -/
theorem MergesInto.firstCaret?_eq_none : e.firstCaret? v = none ↔
    d.isAttached t = false ∨ ∀ x ∈ d.absorbed v cells, d.Caretless x := by
  have hgk := wf.kind_group ht hg
  have hvk := h.kind wf hgk (.inl rfl)
  have frame := h.frame wf ht hg absorbed thinned
  have children := h.children wf ht hg absorbed thinned
  have hv := lt_size_of_kind? hvk
  have hosts : e.hostsCaret v = false := by
    rw [hostsCaret, frame.kind v hv, hvk]
  have up : root ∈ e.ancestors v ↔ d.isAttached t = true := by
    rw [h.ancestors wf ht hg absorbed thinned, wf.isAttached_iff]
    have other : ∀ {x k}, d.kind? x = some k → k ≠ .other → root ≠ x := by
      rintro x k hx hk rfl
      exact hk (Option.some.inj (hx.symm.trans wf.root_kind))
    simp [other hvk, other (wf.kind_row hgk h.row_mem), other hgk]
  rw [thinned.wf.firstCaret?_eq_none (hv.trans_le frame.size), up, Bool.not_eq_true,
    thinned.wf.caretless_iff_children hosts, children]
  refine or_congr_right (forall₂_congr fun x hx => ?_)
  refine (h.sameBelow wf ht hg absorbed thinned hx).caretless_iff wf thinned.wf ?_ frame.size
  rcases mem_absorbed hx with hx | ⟨c, -, hx⟩ <;> exact wf.lt_size_child hx

end Caret

theorem SameTree.absorbed_eq (same : SameTree d d') : d'.absorbed v cells = d.absorbed v cells := by
  have children : d'.children = d.children := funext same.children
  rw [absorbed, absorbed, donors, donors, same.hasContent_eq, children]

theorem SameTree.caretless_iff (same : SameTree d d') {x : NodeId} :
    d'.Caretless x ↔ d.Caretless x := by
  simp only [Caretless, same.ancestors, hostsCaret, same.kind, same.children]

end RichTable.Document

namespace RichTable.Action

open Document

variable {L : Type} {d : Document L} {t g row v : NodeId} {rect : CellRect} {cells : List NodeId}

theorem thinned_still {α : Type} {a : Action L α} (h : Still a) :
    Keeps (fun e => Thinned d e g row v) a := fun s hs =>
  (h s hs.wf).mono (fun _ _ r => hs.sameTree r.same) fun _ _ r => hs.sameTree r.same

theorem thinned_detach (wf : d.WellFormed) {x p : NodeId} (hp : d.parent? x = some p)
    (hC : p = g ∨ p ∈ d.children g) (hv : x ≠ v) (hr : x ≠ row) :
    Keeps (fun e => Thinned d e g row v) (detach x) :=
  keeps_modify fun _ h => h.detach wf hp hC hv hr

/-- Clearing another row. -/
theorem thinned_clearRow (wf : d.WellFormed) {r : NodeId} (hr : r ∈ d.children g) (hne : r ≠ row)
    (hv : v ∈ d.children row) (hrow : row ∈ d.children g) :
    Keeps (fun e => Thinned d e g row v) (clearRow v cells r) := by
  have irrefl : ∀ x, d.parent? x ≠ some x := fun x hx =>
    wf.not_mem_ancestors_parent hx (wf.self_mem_ancestors (wf.lt_size_parent hx))
  refine keeps_get_bind fun s h => ?_
  dsimp only
  split
  · have hrv : r ≠ v := by
      rintro rfl
      obtain rfl := wf.parent_unique hr hv
      exact irrefl g (wf.mem_children.1 hrow)
    exact ((thinned_still (.forM (fun _ => still_updateCell _ _) _)).bind fun _ =>
      (thinned_detach wf (wf.mem_children.1 hr) (.inl rfl) hrv hne).bind fun _ => keeps_pure _) s h
  · refine ((Keeps.forM_of_mem fun c hc => ?_).bind fun _ => keeps_pure _) s h
    have hc := (List.mem_filter.1 hc).1
    obtain ⟨p, hp, hC⟩ := h.exists_parent hr hc
    have hparent := h.wf.mem_children.1 hc
    refine thinned_detach wf hp hC ?_ ?_
    · rintro rfl
      exact hne (Option.some.inj (hparent.symm.trans h.cell))
    · rintro rfl
      obtain rfl := Option.some.inj (hparent.symm.trans h.row)
      exact irrefl r (wf.mem_children.1 hr)

/-- The rows of a merge below the top one are cleared when the content has moved. -/
theorem thinned_clearRows (wf : d.WellFormed) (hg : d.kind? g = some .rowGroup)
    (h : d.MergesInto t g rect row v cells) {d₁ : Document L} (absorbed : Absorbed d d₁ v cells) :
    Keeps (fun e => Thinned d₁ e g row v)
      (((rect.rowsOf (d.children g)).drop 1).reverse.mapM (clearRow v cells)) := by
  refine Keeps.mapM_of_mem fun r hr => ?_
  obtain ⟨hr, hne⟩ := h.lower wf (List.mem_reverse.1 hr)
  have group : d₁.children g = d.children g := h.children_absorbed wf hg absorbed hg (by decide)
  have top : d₁.children row = d.children row :=
    h.children_absorbed wf hg absorbed (wf.kind_row hg h.row_mem) (by decide)
  exact thinned_clearRow absorbed.wf (group ▸ hr) hne (top ▸ h.cell) (group ▸ h.row_mem)

theorem thinned_detachCells (wf : d.WellFormed) (hg : d.kind? g = some .rowGroup)
    (h : d.MergesInto t g rect row v cells) {d₁ : Document L} (absorbed : Absorbed d d₁ v cells) :
    Keeps (fun e => Thinned d₁ e g row v) ((cells.filter (· != v)).forM detach) := by
  refine Keeps.forM_of_mem fun c hc => ?_
  obtain ⟨hc, hne⟩ := List.mem_filter.1 hc
  obtain ⟨r, hr, hcr⟩ := h.exists_row wf hg (.inr hc)
  have group : d₁.children g = d.children g := h.children_absorbed wf hg absorbed hg (by decide)
  have same : d₁.children r = d.children r :=
    h.children_absorbed wf hg absorbed (wf.kind_row hg hr) (by decide)
  refine thinned_detach absorbed.wf (absorbed.wf.mem_children.1 (same ▸ hcr)) (.inr (group ▸ hr))
    (by simpa using hne) ?_
  rintro rfl
  have := h.kind wf hg (.inr hc)
  rw [wf.kind_row hg h.row_mem] at this
  cases this

variable [Length L]

/-- The end of a merge. -/
theorem ends_finishMerge {s : Document L} (h : Thinned d s g row v) :
    Ends (do
        let _ ← place t
        checkGrid t
        correctGroupBorders t g
        return ((← get).firstCaret? v).map Segment.collapsed) s
      (fun result e => Thinned d e g row v ∧ result = (e.firstCaret? v).map .collapsed)
      fun _ _ => True := by
  refine (thinned_still (still_place t)).ends_then (fun _ s h => ?_) (fun _ _ _ => trivial) h
  refine (thinned_still (still_checkGrid t)).ends_then (fun _ s h => ?_) (fun _ _ _ => trivial) h
  refine (thinned_still (still_correctGroupBorders t g)).ends_then (fun _ s h => ?_)
    (fun _ _ _ => trivial) h
  exact ends_bind.2 (ends_get.2 (ends_pure.2 ⟨h, rfl⟩))

/-- A merge that comes to an end is refused, or it moves the content, thins out the row group and
looks for the caret. -/
theorem ends_mergeRect (wf : d.WellFormed) (ht : d.kind? t = some .table) (hg : g ∈ d.children t)
    (rect : CellRect) : Ends (mergeRect g rect) d (fun result d' =>
      result = none ∧ d' = d.placed t ∨ ∃ row v cells d₁,
        (d.placed t).MergesInto t g rect row v cells ∧ Absorbed (d.placed t) d₁ v cells ∧
        Thinned d₁ d' g row v ∧ result = (d'.firstCaret? v).map .collapsed) fun _ _ => True := by
  have same := wf.sameTree_placed t
  have wfs := same.wellFormed wf
  have hts : (d.placed t).kind? t = some .table := (same.kind t).trans ht
  have hgs : g ∈ (d.placed t).children t := by rwa [same.children t]
  have hgk := wfs.kind_group hts hgs
  refine Ensures.ends_bind ((ensures_requireParent (wf.tableOf?_eq ht hg)).2 ?_)
  refine Ensures.ends_bind ((ensures_place wf ht).2 ?_)
  generalize d.placed t = s at *
  refine ends_bind.2 (ends_get.2 ?_)
  dsimp only
  split
  · exact ends_pure.2 (.inl ⟨rfl, rfl⟩)
  next cells hcells =>
  split
  · trivial
  next v hfind =>
  have corner := List.find?_some hfind
  obtain ⟨row, htop, hv⟩ : ∃ row, (s.children g)[rect.top]? = some row ∧
      v ∈ s.children row := by
    have hmem := List.mem_of_find?_eq_some hfind
    cases hrow : (s.children g)[rect.top]? with
    | none => simp [hrow] at hmem
    | some row => exact ⟨row, rfl, by simpa [hrow] using hmem⟩
  have h : s.MergesInto t g rect row v cells := ⟨hcells, htop, hv, corner⟩
  have separate : s.Separate fun x => x = v ∨ x ∈ cells :=
    (wfs.separate_tableCells t).mono fun _ => h.mem_tableCells wfs hts hgs
  refine Ensures.ends_bind ((ensures_absorbContent wfs (h.kind wfs hgk (.inl rfl)) h.nodup
    (fun c hc => h.kind wfs hgk (.inr hc)) separate).mono fun _ d₁ absorbed => ?_)
  have start : Thinned d₁ d₁ g row v := by
    refine .refl absorbed.wf ?_ ?_
    · rw [h.children_absorbed wfs hgk absorbed (wfs.kind_row hgk h.row_mem) (by decide)]
      exact hv
    · rw [h.children_absorbed wfs hgk absorbed hgk (by decide)]
      exact h.row_mem
  refine Ends.mono
    (Q := fun result e => Thinned d₁ e g row v ∧ result = (e.firstCaret? v).map Segment.collapsed) ?_
    (fun result e h' => .inr ⟨row, v, cells, d₁, h, absorbed, h'⟩) fun _ _ => id
  refine (thinned_still (still_updateCell _ _)).ends_then (fun _ s₁ thinned => ?_)
    (fun _ _ _ => trivial) start
  refine (thinned_clearRows wfs hgk h absorbed).ends_then (fun cleared s₂ thinned => ?_)
    (fun _ _ _ => trivial) thinned
  refine (thinned_detachCells wfs hgk h absorbed).ends_then (fun _ s₃ thinned => ?_)
    (fun _ _ _ => trivial) thinned
  split
  · exact (thinned_still (still_updateCell _ _)).ends_then (fun _ s₄ => ends_finishMerge)
      (fun _ _ _ => trivial) thinned
  · exact ends_finishMerge thinned

/-- A merge that comes to an end is refused and leaves the document alone, or it is made and returns
a caret, unless there is none. -/
theorem mergeRect_none_iff (wf : d.WellFormed) (ht : d.kind? t = some .table)
    (hg : g ∈ d.children t) {rect : CellRect} {result : Option Segment} {d' : Document L}
    (run : (mergeRect g rect).run.run d = (.ok result, d')) :
    result = none ∧ Untouched d d' ∨
      ∃ row v cells, (d.placed t).MergesInto t g rect row v cells ∧
        (result = none ↔ d.isAttached t = false ∨ ∀ x ∈ d.absorbed v cells, d.Caretless x) := by
  have same := wf.sameTree_placed t
  have hgs : g ∈ (d.placed t).children t := by rwa [same.children t]
  have ends := ends_mergeRect wf ht hg rect
  rw [Ends, run] at ends
  rcases ends with ⟨rfl, rfl⟩ | ⟨row, v, cells, d₁, h, absorbed, thinned, rfl⟩
  · exact .inl ⟨rfl, wf.untouched_placed t⟩
  · refine .inr ⟨row, v, cells, h, ?_⟩
    rw [Option.map_eq_none_iff, h.firstCaret?_eq_none (same.wellFormed wf) ((same.kind t).trans ht) hgs
      absorbed thinned, same.absorbed_eq, isAttached, isAttached,
      same.ancestors]
    simp only [same.caretless_iff]

/-- Two cells with an empty paragraph each, and in the second a nested table without rows. -/
def nestingDocument : Document Int :=
  Call.runAll [.buildTable .standard root { groups := [[[{}, {}]]] },
    .buildTable .standard 6 { groups := [] }] .empty

/-- The outcome of merging both cells. -/
def nestingMerged : Except EditError (Option Segment) × Document Int :=
  (mergeRect 2 ⟨0, 0, 0, 1⟩).run.run nestingDocument

theorem run_nestingDocument :
    (mergeRect 2 ⟨0, 0, 0, 1⟩).run.run nestingDocument = (.ok none, nestingMerged.2) := by
  have refused : nestingMerged.1 = .ok none := by decide +kernel
  exact Prod.ext refused rfl

theorem mergeRect_none_iff_nesting : nestingDocument.WellFormed ∧
    nestingDocument.kind? 1 = some .table ∧ 2 ∈ nestingDocument.children 1 ∧ ∃ result d',
      (mergeRect 2 ⟨0, 0, 0, 1⟩).run.run nestingDocument = (.ok result, d') ∧
      (result = none ∧ Untouched nestingDocument d' ∨ ∃ row v cells,
        (nestingDocument.placed 1).MergesInto 1 2 ⟨0, 0, 0, 1⟩ row v cells ∧
        (result = none ↔ nestingDocument.isAttached 1 = false ∨
          ∀ x ∈ nestingDocument.absorbed v cells, nestingDocument.Caretless x)) := by
  have wf : nestingDocument.WellFormed := Call.wellFormed_runAll _
  have table : nestingDocument.kind? 1 = some .table := by decide +kernel
  have group : 2 ∈ nestingDocument.children 1 := by decide +kernel
  exact ⟨wf, table, group, _, _, run_nestingDocument,
    mergeRect_none_iff wf table group run_nestingDocument⟩

/-- A merge may return no caret and still be made. -/
theorem mergeRect_none_touched : nestingDocument.WellFormed ∧ nestingDocument.isAttached 1 = true ∧
    nestingDocument.kind? 1 = some .table ∧ 2 ∈ nestingDocument.children 1 ∧ ∃ d',
      (mergeRect 2 ⟨0, 0, 0, 1⟩).run.run nestingDocument = (.ok none, d') ∧
      ¬ Untouched nestingDocument d' := by
  refine ⟨Call.wellFormed_runAll _, by decide +kernel, by decide +kernel, by decide +kernel, _,
    run_nestingDocument, fun untouched => ?_⟩
  have moved : nestingMerged.2.children 4 ≠ nestingDocument.children 4 := by decide +kernel
  exact moved (untouched.tree.children 4)

end RichTable.Action
