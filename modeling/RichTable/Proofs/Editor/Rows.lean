import Mathlib
import RichTable.Proofs.Edit.Undo

/-!
# Rows next to a selection

Rows that are inserted for a selection between two cells go next to all rows of both cells. Places
are counted over all rows of the table, so that the cells may lie in different row groups: a cell
occupies the rows from `first` to before `stop` (`OccupiesRows`), and new rows go before the smaller
`first` or before the larger `stop` of the two cells (`Side.outside`). Neither cell reaches over this
gap, so both keep their height (`Inserting.effectiveRowSpan_tidied`).
-/

namespace RichTable

/-- The gap next to the rows from `i` to before `p` and from `j` to before `q`, before which rows are
inserted. -/
def Side.outside (side : Side) (i p j q : Nat) : Nat :=
  match side with
  | .before => min i j
  | .after => max p q

namespace Document

variable {L : Type} {d d₁ d₂ e : Document L} {t g : NodeId} {offset : Nat}

/-! ## Places among all rows -/

/-- Among all rows of the table, those of the row group `g` start at place `offset`. -/
def GroupFrom (d : Document L) (t g : NodeId) (offset : Nat) : Prop :=
  ∃ above below, d.children t = above ++ g :: below ∧ (above.flatMap d.children).length = offset

theorem exists_groupFrom (hg : g ∈ d.children t) : ∃ offset, d.GroupFrom t g offset := by
  obtain ⟨above, below, split⟩ := List.append_of_mem hg
  exact ⟨_, above, below, split, rfl⟩

theorem GroupFrom.getElem?_tableRows (h : d.GroupFrom t g offset) {i : Nat}
    (hi : i < (d.children g).length) : (d.tableRows t)[offset + i]? = (d.children g)[i]? := by
  obtain ⟨above, below, split, rfl⟩ := h
  rw [tableRows, split, List.flatMap_append, List.flatMap_cons,
    List.getElem?_append_right (Nat.le_add_right _ _), Nat.add_sub_cancel_left,
    List.getElem?_append_left hi]

/-- A row of the group by its place. -/
theorem GroupFrom.place_eq (h : d.GroupFrom t g offset) (wf : d.WellFormed) {i r : Nat} {row : NodeId}
    (hi : (d.tableRows t)[i]? = some row) (hr : (d.children g)[r]? = some row) : i = offset + r := by
  have hr' : (d.tableRows t)[offset + r]? = some row :=
    (h.getElem?_tableRows (List.getElem?_eq_some_iff.1 hr).1).trans hr
  exact (List.getElem?_inj (List.getElem?_eq_some_iff.1 hi).1 (wf.nodup_tableRows t)).1
    (hi.trans hr'.symm)

/-- Rows of an attached table start in their order. -/
theorem WellFormed.startsBy_iff {e : Editor L} (wf : e.doc.WellFormed)
    (attached : root ∈ e.doc.ancestors t) {i j : Nat} {r s : NodeId}
    (hi : (e.doc.tableRows t)[i]? = some r) (hj : (e.doc.tableRows t)[j]? = some s) :
    e.startsBy r s = true ↔ i ≤ j := by
  have order : ∀ {i j r s}, (e.doc.tableRows t)[i]? = some r → (e.doc.tableRows t)[j]? = some s →
      i < j → e.doc.Precedes r s := fun hi hj hlt => by
    obtain ⟨hi', rfl⟩ := List.getElem?_eq_some_iff.1 hi
    obtain ⟨hj', rfl⟩ := List.getElem?_eq_some_iff.1 hj
    exact (List.pairwise_iff_getElem.1 (wf.pairwise_tableRows attached) _ _ hi' hj' hlt).precedes
  unfold Editor.startsBy
  rcases Nat.lt_trichotomy i j with hlt | rfl | hgt
  · obtain ⟨a, b, ha, hb, hab⟩ := order hi hj hlt
    simp only [ha, hb, missingFirstLE, decide_eq_true_eq]
    omega
  · obtain rfl := Option.some.inj (hi.symm.trans hj)
    cases e.doc.elementStart? r <;> simp [missingFirstLE]
  · obtain ⟨b, a, hb, ha, hba⟩ := order hj hi hgt
    simp only [ha, hb, missingFirstLE, decide_eq_true_eq]
    omega

/-! ## The rows of a cell -/

/-- Among all rows of the table, the cell is stored in row `first`, and it occupies the rows from there
to before `stop`. -/
structure OccupiesRows (d : Document L) (t c : NodeId) (first stop : Nat) : Prop where
  stored : ∃ row, (d.tableRows t)[first]? = some row ∧ c ∈ d.children row
  span : stop = first + d.effectiveRowSpan c
  occupied : ∀ {i row}, (d.tableRows t)[i]? = some row →
    (c ∈ d.occupants row ↔ first ≤ i ∧ i < stop)

theorem WellFormed.effectiveRowSpan_bounds (wf : d.WellFormed) (hg : d.kind? g = some .rowGroup)
    {r : Nat} {c : NodeId} (hs : Stored (d.rowsOf g) r c) :
    1 ≤ d.effectiveRowSpan c ∧ r + d.effectiveRowSpan c ≤ (d.children g).length := by
  have pos := wf.height_pos hg hs
  have hlt := hs.lt_length
  rw [length_rowsOf] at hlt
  rw [wf.effectiveRowSpan_eq hg hs]
  omega

theorem GroupFrom.occupiesRows (h : d.GroupFrom t g offset) (wf : d.WellFormed)
    (ht : d.kind? t = some .table) (hg : g ∈ d.children t) {r : Nat} {c : NodeId}
    (hs : Stored (d.rowsOf g) r c) :
    d.OccupiesRows t c (offset + r) (offset + r + d.effectiveRowSpan c) := by
  obtain ⟨row, hr, hc⟩ := stored_rowsOf.1 hs
  have bounds := wf.effectiveRowSpan_bounds (wf.kind_group ht hg) hs
  refine ⟨⟨row, ?_, hc⟩, rfl, fun {i row'} hi => ?_⟩
  · rw [h.getElem?_tableRows (List.getElem?_eq_some_iff.1 hr).1, hr]
  obtain ⟨q, hq, k, hk⟩ := exists_group_of_mem_tableRows (List.mem_of_getElem? hi)
  rw [wf.mem_occupants (wf.kind_group ht hq) hk]
  by_cases hqg : q = g
  · subst hqg
    have hlt := (List.getElem?_eq_some_iff.1 hk).1
    rw [hs.reaches_iff (wf.nodup_rowsOf q), h.place_eq wf hi hk,
      wf.effectiveRowSpan_eq (wf.kind_group ht hq) hs]
    omega
  · -- The rows that the cell occupies are rows of its own group.
    refine iff_of_false ?_ ?_
    · rintro ⟨r', hs', -⟩
      exact wf.not_stored_of_ne hqg hs' r hs
    · rintro ⟨hle, hlt⟩
      obtain ⟨k', rfl⟩ := Nat.exists_eq_add_of_le (show offset ≤ i by omega)
      rw [h.getElem?_tableRows (by omega)] at hi
      exact hqg (wf.parent_unique (List.mem_of_getElem? hk) (List.mem_of_getElem? hi))

theorem WellFormed.exists_occupiesRows (wf : d.WellFormed) (ht : d.kind? t = some .table) {c : NodeId}
    (hc : c ∈ d.tableCells t) : ∃ first stop, d.OccupiesRows t c first stop := by
  obtain ⟨g, hg, r, hs⟩ := mem_tableCells.1 hc
  obtain ⟨offset, place⟩ := exists_groupFrom hg
  exact ⟨_, _, place.occupiesRows wf ht hg hs⟩

namespace OccupiesRows

variable {c x y : NodeId} {first stop i p j q : Nat}

theorem rowOf?_eq (h : d.OccupiesRows t c first stop) (wf : d.WellFormed)
    (ht : d.kind? t = some .table) : d.rowOf? c = (d.tableRows t)[first]? := by
  obtain ⟨row, hr, hc⟩ := h.stored
  rw [wf.rowOf?_eq (wf.kind_tableRows ht (List.mem_of_getElem? hr)) hc, hr]

theorem exists_bottomRow? {e : Editor L} (h : e.doc.OccupiesRows t c first stop)
    (wf : e.doc.WellFormed) (ht : e.doc.kind? t = some .table) : first < stop ∧
      ∃ row, (e.doc.tableRows t)[stop - 1]? = some row ∧ e.bottomRow? c = some row := by
  obtain ⟨row, hrow, hc⟩ := h.stored
  obtain ⟨g, hg, r, hr⟩ := exists_group_of_mem_tableRows (List.mem_of_getElem? hrow)
  obtain ⟨offset, place⟩ := exists_groupFrom hg
  have bounds := wf.effectiveRowSpan_bounds (wf.kind_group ht hg) (stored_rowsOf.2 ⟨row, hr, hc⟩)
  have span := h.span
  have hfirst := place.place_eq wf hrow hr
  -- The last row counts from the first one, in the group as in the table.
  have hlast : r + e.doc.effectiveRowSpan c - 1 < (e.doc.children g).length := by omega
  obtain ⟨row', bottom⟩ : ∃ row', (e.doc.children g)[r + e.doc.effectiveRowSpan c - 1]? = some row' :=
    ⟨_, List.getElem?_eq_getElem hlast⟩
  refine ⟨by omega, row', ?_, ?_⟩
  · rw [show stop - 1 = offset + (r + e.doc.effectiveRowSpan c - 1) by omega,
      place.getElem?_tableRows hlast, bottom]
  · simp only [Editor.bottomRow?, h.rowOf?_eq wf ht, hrow, wf.mem_children.1 (List.mem_of_getElem? hr),
      wf.childIndex?_eq hr, bind, Option.bind_some, max_eq_left bounds.1, bottom]

/-- The row next to which rows are inserted is the first or the last one of both cells. -/
theorem exists_insertionRow? {e : Editor L} (hx : e.doc.OccupiesRows t x i p)
    (hy : e.doc.OccupiesRows t y j q) (wf : e.doc.WellFormed) (ht : e.doc.kind? t = some .table)
    (attached : root ∈ e.doc.ancestors t) (side : Side) : ∃ k row,
      e.insertionRow? x y side = some row ∧ (e.doc.tableRows t)[k]? = some row ∧
        side.gap k = side.outside i p j q := by
  cases side with
  | before =>
    obtain ⟨r, hr, -⟩ := hx.stored
    obtain ⟨s, hs, -⟩ := hy.stored
    simp only [Editor.insertionRow?, hx.rowOf?_eq wf ht, hy.rowOf?_eq wf ht, hr, hs, Editor.upperRow?,
      Side.gap, Side.outside, wf.startsBy_iff attached hr hs]
    split_ifs with hle
    · exact ⟨i, r, rfl, hr, (min_eq_left hle).symm⟩
    · exact ⟨j, s, rfl, hs, (min_eq_right (Nat.le_of_not_le hle)).symm⟩
  | after =>
    obtain ⟨ltx, r, hr, bottomx⟩ := hx.exists_bottomRow? wf ht
    obtain ⟨lty, s, hs, bottomy⟩ := hy.exists_bottomRow? wf ht
    simp only [Editor.insertionRow?, bottomx, bottomy, Editor.lowerRow?, Side.gap, Side.outside,
      wf.startsBy_iff attached hr hs]
    split_ifs with hle
    · exact ⟨q - 1, s, rfl, hs, by omega⟩
    · exact ⟨p - 1, r, rfl, hr, by omega⟩

end OccupiesRows

/-! ## The table with the new rows -/

theorem SameGroup.effectiveRowSpan_eq {d' : Document L} (h : SameGroup d d' g) (wf : d.WellFormed)
    (wf' : d'.WellFormed) (hg : d.kind? g = some .rowGroup) (hg' : d'.kind? g = some .rowGroup)
    {r : Nat} {c : NodeId} (hs : Stored (d.rowsOf g) r c) :
    d'.effectiveRowSpan c = d.effectiveRowSpan c := by
  obtain ⟨row, hr, hc⟩ := stored_rowsOf.1 hs
  have hrow := List.mem_of_getElem? hr
  have hs' : Stored (d'.rowsOf g) r c :=
    stored_rowsOf.2 ⟨row, h.rows.symm ▸ hr, (h.cells row hrow).symm ▸ hc⟩
  rw [wf'.effectiveRowSpan_eq hg' hs', wf.effectiveRowSpan_eq hg hs, h.rows]
  simp only [shape, extent_of_layout (h.layout row hrow c hc)]

namespace Inserting

variable [Length L] {first ρ count : Nat} {templates new : List NodeId}

theorem group_tidied (h : Inserting d₁ d₂ e t g first ρ count templates new) (clamp : Clamped d d₁ g)
    {q : NodeId} (hq : q ∈ d.children t) : (e.tidied t).kind? q = some .rowGroup := by
  refine h.poised.regular.kind_group ?_
  rw [h.poised.same.children, h.children_table, clamp.same.children]
  exact hq

theorem tableRows_tidied (h : Inserting d₁ d₂ e t g first ρ count templates new)
    (clamp : Clamped d d₁ g) (reg : d.Regular t) (place : d.GroupFrom t g offset) :
    (e.tidied t).tableRows t = (d.tableRows t).take (offset + first) ++ new ++
      (d.tableRows t).drop (offset + first) := by
  obtain ⟨above, below, split, rfl⟩ := place
  have children := clamp.same.children
  have gap_le : first ≤ (d.children g).length := by
    have := h.next
    rw [length_rowsOf, children] at this
    omega
  have other : ∀ q ∈ d.children t, q ≠ g → e.children q = d.children q := fun q hq hne => by
    have hq₁ : q ∈ d₁.children t := children t ▸ hq
    rw [h.children_eq (h.regular.wf.lt_size_child hq₁) hne, children]
  obtain ⟨-, nodup, disjoint⟩ := List.nodup_append.1 (split ▸ reg.wf.nodup t)
  have before : above.flatMap e.children = above.flatMap d.children :=
    List.flatMap_congr fun q hq => other q (by simp [split, hq]) (disjoint q hq g (by simp))
  have behind : below.flatMap e.children = below.flatMap d.children :=
    List.flatMap_congr fun q hq => other q (by simp [split, hq]) (by
      rintro rfl
      exact (List.nodup_cons.1 nodup).1 hq)
  rw [h.poised.same.tableRows, tableRows, tableRows, h.children_table, children, split,
    List.flatMap_append, List.flatMap_cons, List.flatMap_append, List.flatMap_cons, before, behind,
    h.children_group, children, List.take_length_add_append, List.take_append_of_le_length gap_le,
    List.drop_length_add_append, List.drop_append_of_le_length gap_le]
  simp only [List.append_assoc]

/-- A cell of the group that does not reach over the gap is as tall as before. -/
theorem effectiveRowSpan_group (h : Inserting d₁ d₂ e t g first ρ count templates new)
    (clamp : Clamped d d₁ g) (reg : d.Regular t) {r : Nat} {c : NodeId}
    (hs : Stored (d.rowsOf g) r c) (clear : ¬ (r < first ∧ first < r + d.effectiveRowSpan c)) :
    (e.tidied t).effectiveRowSpan c = d.effectiveRowSpan c := by
  have same := h.poised.same
  have children := clamp.same.children
  have hg : g ∈ d.children t := children t ▸ h.group
  have hs₁ : Stored (d₁.rowsOf g) r c := (clamp.same.rowsOf g).symm ▸ hs
  obtain ⟨row, hr, hcr⟩ := stored_rowsOf.1 hs₁
  have hrow := List.mem_of_getElem? hr
  have hs' : Stored ((e.tidied t).rowsOf g) (if r < first then r else r + count) c := by
    refine stored_rowsOf.2 ⟨row, (same.children g).symm ▸ h.getElem?_old hr, ?_⟩
    rw [same.children, h.children_eq (h.regular.wf.lt_size_child hrow) (h.row_ne h.group hrow)]
    exact hcr
  -- Once it has been cut at the end of the group, its height does not change any more.
  have height : (e.tidied t).shape.height c = d.effectiveRowSpan c := by
    obtain ⟨pos, cut⟩ := clamp.height_eq reg.wf (reg.kind_group hg) hs
    rw [← reg.wf.effectiveRowSpan_eq (reg.kind_group hg) hs] at pos cut
    have layout := h.layout_tidied (mem_tableCells.2 ⟨g, h.group, r, hs₁⟩)
    calc (e.tidied t).shape.height c = d₂.shape.height c := by
          simp only [shape, extent_of_layout layout]
      _ = max (d₁.stretched first count r c) 1 :=
          (h.stretch.shape_inside h.regular.wf h.kind_group hs₁).2.2
      _ = d.effectiveRowSpan c := by
          rw [stretched, cut, if_neg clear, max_eq_left pos]
  have fit := (h.fits_tidied hs').1
  rw [length_rowsOf] at fit
  rw [h.poised.regular.wf.effectiveRowSpan_eq (h.group_tidied clamp hg) hs', height]
  rw [height] at fit
  exact min_eq_left (by omega)

/-- A cell that does not reach over the gap is as tall as before. -/
theorem effectiveRowSpan_tidied (h : Inserting d₁ d₂ e t g first ρ count templates new)
    (clamp : Clamped d d₁ g) (reg : d.Regular t) (place : d.GroupFrom t g offset) {c : NodeId}
    {i p : Nat} (hc : d.OccupiesRows t c i p) (clear : ¬ (i < offset + first ∧ offset + first < p)) :
    (e.tidied t).effectiveRowSpan c = d.effectiveRowSpan c := by
  obtain ⟨row, hrow, hcr⟩ := hc.stored
  obtain ⟨q, hq, r, hr⟩ := exists_group_of_mem_tableRows (List.mem_of_getElem? hrow)
  have hs : Stored (d.rowsOf q) r c := stored_rowsOf.2 ⟨row, hr, hcr⟩
  by_cases hqg : q = g
  · subst hqg
    have span := hc.span
    have hi := place.place_eq reg.wf hrow hr
    exact h.effectiveRowSpan_group clamp reg hs (by omega)
  · exact (h.sameGroup clamp reg hq hqg).effectiveRowSpan_eq reg.wf h.poised.regular.wf
      (reg.kind_group hq) (h.group_tidied clamp hq) hs

end Inserting

/-- The cells at the ends of a selection are in one table. -/
theorem WellFormed.mem_tableCells_of_boundaryCells? (wf : d.WellFormed)
    (ht : d.kind? t = some .table) {a m : Position} {x y : NodeId}
    (found : d.boundaryCells? a m = some (x, y)) (hx : x ∈ d.tableCells t) : y ∈ d.tableCells t := by
  rcases eq_or_ne x y with rfl | hne
  · exact hx
  obtain ⟨t', separated⟩ := (wf.boundaryCells?_eq_distinct rfl hne).1 found
  have := (wf.tableOfCell?_eq ht hx).symm.trans (wf.tableOfCell?_eq separated.table separated.mem_left)
  exact Option.some.inj this ▸ separated.mem_right

end Document

/-- Rows inserted next to row `k` of all rows go into the gap next to it, and cells that do not reach
over the gap are as tall as before. -/
theorem Action.exists_insertRows_next {L : Type} [Length L] {d : Document L} {t reference : NodeId}
    (reg : d.Regular t) {k : Nat} (hk : (d.tableRows t)[k]? = some reference) {count : Nat}
    (pos : 1 ≤ count) (side : Side) :
    ∃ new range d', (insertRows reference count side).run.run d = (.ok (some range), d') ∧
      new.length = count ∧ (∀ row ∈ new, d.size ≤ row) ∧
      d'.tableRows t = (d.tableRows t).take (side.gap k) ++ new ++ (d.tableRows t).drop (side.gap k) ∧
      ∀ {c i p}, d.OccupiesRows t c i p → ¬ (i < side.gap k ∧ side.gap k < p) →
        d'.effectiveRowSpan c = d.effectiveRowSpan c := by
  obtain ⟨g, hg, ρ, hρ⟩ := Document.exists_group_of_mem_tableRows (List.mem_of_getElem? hk)
  obtain ⟨offset, place⟩ := Document.exists_groupFrom hg
  obtain ⟨_, _, run, d₁, d₂, e, templates, new, clamp, stages, rfl, rfl⟩ :=
    ensures_insertRows_stages reg hg hρ (show count ≠ 0 by omega) side
  have inserting : d₁.Inserting d₂ e t g (side.gap ρ) ρ count templates new := by
    cases side <;> exact stages
  have gap : side.gap k = offset + side.gap ρ := by
    rw [place.place_eq reg.wf hk hρ]
    cases side <;> simp only [Side.gap, Nat.add_assoc]
  rw [gap]
  refine ⟨new, _, _, run, inserting.length, fun row hr => ?_,
    inserting.tableRows_tidied clamp reg place,
    fun hc clear => inserting.effectiveRowSpan_tidied clamp reg place hc clear⟩
  exact clamp.same.size ▸ inserting.stretch.same.size ▸ (inserting.added.rows row hr).fresh

namespace EditorAction

open Document

variable {L : Type} [Length L] {e : Editor L} {t : NodeId}

/-- The insertion for a selection is the insertion next to a row, counted as an action on the table. -/
theorem insertRows_run {selection : Segment} {x y reference : NodeId} {count : Nat} {side : Side}
    (found : e.doc.boundaryCells? selection.start selection.stop = some (x, y))
    (next : e.insertionRow? x y side = some reference) (table : e.doc.tableOfCell? x = some t)
    {range : CellRange} {d' : Document L}
    (run : (Action.insertRows reference count side).run.run e.doc = (.ok (some range), d')) :
    (insertRows selection count side).run.run e =
      (.ok (some range), ({ e with doc := d' } : Editor L).touch t) := by
  have done : Ensures (insertRows selection count side) e fun result e' =>
      result = some range ∧ e' = ({ e with doc := d' } : Editor L).touch t := by
    simp only [insertRows, ensures_bind, ensures_get, found, next, table, ensures_onDocument]
    refine ⟨_, _, run, ?_⟩
    simp only [touchIf, Option.isSome_some, ensures_modify, ensures_pure, and_self]
  obtain ⟨_, _, run, rfl, rfl⟩ := done
  exact run

/-- Rows inserted for a selection between two cells go next to all rows of both, in one block, and
both cells are as tall as before. -/
theorem insertRows_outside_selection (reg : e.doc.Regular t) {selection : Segment} {x y : NodeId}
    (found : e.doc.boundaryCells? selection.start selection.stop = some (x, y))
    (hx : x ∈ e.doc.tableCells t) {count : Nat} (pos : 1 ≤ count) (side : Side) :
    ∃ i p j q new range d', e.doc.OccupiesRows t x i p ∧ e.doc.OccupiesRows t y j q ∧
      (insertRows selection count side).run.run e =
        (.ok (some range), ({ e with doc := d' } : Editor L).touch t) ∧
      new.length = count ∧ (∀ row ∈ new, e.doc.size ≤ row) ∧
      d'.tableRows t = (e.doc.tableRows t).take (side.outside i p j q) ++ new ++
        (e.doc.tableRows t).drop (side.outside i p j q) ∧
      d'.effectiveRowSpan x = e.doc.effectiveRowSpan x ∧
      d'.effectiveRowSpan y = e.doc.effectiveRowSpan y := by
  have wf := reg.wf
  have ht := reg.kind
  have attached : root ∈ e.doc.ancestors t := by
    obtain ⟨⟨-, up⟩, -⟩ := wf.attached_boundaryCells? found
    exact wf.attached_of_mem_ancestors up (wf.table_mem_ancestors ht hx)
  obtain ⟨i, p, rowsx⟩ := wf.exists_occupiesRows ht hx
  obtain ⟨j, q, rowsy⟩ :=
    wf.exists_occupiesRows ht (wf.mem_tableCells_of_boundaryCells? ht found hx)
  obtain ⟨k, reference, next, hk, gap⟩ := rowsx.exists_insertionRow? rowsy wf ht attached side
  obtain ⟨new, range, d', run, length, fresh, rows, height⟩ :=
    Action.exists_insertRows_next reg hk pos side
  -- Neither cell reaches over the gap: it is above or below all rows of both.
  have clear : ¬ (i < side.outside i p j q ∧ side.outside i p j q < p) ∧
      ¬ (j < side.outside i p j q ∧ side.outside i p j q < q) := by
    cases side <;> simp only [Side.outside] <;> omega
  rw [gap] at rows height
  exact ⟨i, p, j, q, new, range, d', rowsx, rowsy,
    insertRows_run found next (wf.tableOfCell?_eq ht hx) run, length, fresh, rows,
    height rowsx clear.1, height rowsy clear.2⟩

/-- The first cell of the second row group reaches over the two rows below it. -/
def towerRows : TableOutline Int where
  groups := [[[{ text := "a" }, { text := "b" }]],
    [[{ text := "c", rowSpan := 3 }, { text := "d" }], [{ text := "e" }], [{ text := "f" }],
      [{ text := "g" }, { text := "h" }]]]

/-- The document with the table of `towerRows`. -/
def towerRowsDocument : Document Int :=
  ((insertTable towerRows).run.run { config := .standard }).2.doc

/-- From the cell of a row that it reaches over back to the tall cell. -/
def towerRowsSelection : Segment := ⟨⟨40, .forward⟩, ⟨25, .backward⟩⟩

theorem insertRows_outside_selection_towerRows :
    towerRowsDocument.Regular 1 ∧
      towerRowsDocument.boundaryCells? towerRowsSelection.start towerRowsSelection.stop =
        some (19, 12) ∧
      19 ∈ towerRowsDocument.tableCells 1 ∧ 1 ≤ 2 ∧
      ∃ i p j q new range d', towerRowsDocument.OccupiesRows 1 19 i p ∧
        towerRowsDocument.OccupiesRows 1 12 j q ∧
        (insertRows towerRowsSelection 2 .after).run.run
            { doc := towerRowsDocument, config := .standard } =
          (.ok (some range), ({ doc := d', config := .standard } : Editor Int).touch 1) ∧
        new.length = 2 ∧ (∀ row ∈ new, towerRowsDocument.size ≤ row) ∧
        d'.tableRows 1 = (towerRowsDocument.tableRows 1).take (Side.after.outside i p j q) ++ new ++
          (towerRowsDocument.tableRows 1).drop (Side.after.outside i p j q) ∧
        d'.effectiveRowSpan 19 = towerRowsDocument.effectiveRowSpan 19 ∧
        d'.effectiveRowSpan 12 = towerRowsDocument.effectiveRowSpan 12 := by
  have regular : towerRowsDocument.Regular 1 := by
    have loaded : Loaded .standard towerRows towerRowsDocument 1 :=
      loaded_of_insertTable (by decide +kernel)
    exact (loaded.sound (by decide +kernel)).regular
  have ends : towerRowsDocument.boundaryCells? towerRowsSelection.start towerRowsSelection.stop =
      some (19, 12) ∧ 19 ∈ towerRowsDocument.tableCells 1 := by decide +kernel
  -- From here on only these facts count, and no step computes the document.
  generalize towerRowsDocument = d at regular ends ⊢
  exact ⟨regular, ends.1, ends.2, by decide,
    insertRows_outside_selection (e := { doc := d, config := .standard }) regular ends.1 ends.2
      (by decide) .after⟩

end EditorAction

end RichTable
