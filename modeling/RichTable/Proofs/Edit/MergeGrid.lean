import Mathlib
import RichTable.Proofs.Editor.Load

/-!
# Which rectangles can be merged, and what a merge shows

A rectangle of a row group can be merged if it is a union of whole cells (`Mergeable`). After the merge
every place of the rectangle shows the cell that was in its corner, every other place what it showed
before, and the rows that are gone are those of which nothing is left (`MergedGrid`).
-/

namespace RichTable

theorem foldl_max_le_iff {α : Type} {f : α → Nat} {l : List α} {w m : Nat} :
    l.foldl (fun w a => max w (f a)) w ≤ m ↔ w ≤ m ∧ ∀ a ∈ l, f a ≤ m := by
  induction l generalizing w with
  | nil => simp
  | cons a l ih =>
    rw [List.foldl_cons, ih, List.forall_mem_cons, Nat.max_le, and_assoc]

theorem exists_mapM_eq_some {α β : Type} {f : α → Option β} {l : List α}
    (h : ∀ a ∈ l, (f a).isSome) : ∃ m, l.mapM f = some m := by
  induction l with
  | nil => exact ⟨[], rfl⟩
  | cons a l ih =>
    obtain ⟨b, hb⟩ := Option.isSome_iff_exists.1 (h a (by simp))
    obtain ⟨m, hm⟩ := ih fun x hx => h x (by simp [hx])
    exact ⟨b :: m, by simp [List.mapM_cons, hb, hm]⟩

/-- The place in row `i` of the group and column `j` lies in the rectangle. -/
def CellRect.Holds (rect : CellRect) (i j : Nat) : Prop :=
  (rect.top ≤ i ∧ i ≤ rect.bottom) ∧ rect.left ≤ j ∧ j ≤ rect.right

instance CellRect.decidableHolds (rect : CellRect) (i j : Nat) : Decidable (rect.Holds i j) :=
  inferInstanceAs (Decidable (_ ∧ _))

namespace Document

variable {L : Type} {d d₁ e d' : Document L} {t g v : NodeId} {rect : CellRect} {cells : List NodeId}

/-- The place in row `i` of the group and column `j` is one that the cell takes up: a column of its
range, in one of the rows of its effective row span. -/
def Footprint (d : Document L) (c : NodeId) (i j : Nat) : Prop :=
  ∃ top range, d.originRow? c = some top ∧ d.columnRange? c = some range ∧
    (top ≤ i ∧ i < top + d.effectiveRowSpan c) ∧ range.first ≤ j ∧ j ≤ range.last

/-- The whole footprint of the cell lies in the rectangle. -/
def Inside (d : Document L) (rect : CellRect) (c : NodeId) : Prop :=
  ∀ i j, d.Footprint c i j → rect.Holds i j

/-- The rectangle lies in the row group, and every cell that covers a place of it lies inside. -/
structure Mergeable (d : Document L) (t g : NodeId) (rect : CellRect) : Prop where
  rows : rect.top ≤ rect.bottom ∧ rect.bottom < (d.children g).length
  columns : rect.left ≤ rect.right ∧ rect.right < d.columnCount t
  whole : ∀ {i j row c}, rect.Holds i j → (d.children g)[i]? = some row →
    d.coveringCell? row j = some c → d.Inside rect c

/-! ## Footprints -/

namespace Regular

theorem footprint_iff (reg : d.Regular t) (hg : g ∈ d.children t) {r : Nat} {c : NodeId}
    (hs : Stored (d.rowsOf g) r c) {i j : Nat} :
    d.Footprint c i j ↔ i < (d.children g).length ∧ d.shape.Covers (d.rowsOf g) i j c := by
  have hgk := reg.kind_group hg
  have hlt := hs.lt_length
  have hwidth := reg.wf.width_pos hgk hs
  have hheight := reg.wf.height_pos hgk hs
  rw [length_rowsOf] at hlt
  simp only [Footprint, reg.wf.originRow?_eq hgk hs, reg.wf.effectiveRowSpan_eq hgk hs,
    reg.columnRange?_eq (mem_tableCells.2 ⟨g, hg, r, hs⟩), Option.some.injEq, Shape.Covers,
    hs.reaches_iff (reg.wf.nodup_rowsOf g), Shape.Spans]
  constructor
  · rintro ⟨_, _, rfl, rfl, h⟩
    dsimp only at h
    omega
  · intro h
    refine ⟨_, _, rfl, rfl, ?_⟩
    dsimp only
    omega

theorem inside_iff (reg : d.Regular t) (hg : g ∈ d.children t) {r : Nat} {c : NodeId}
    (hs : Stored (d.rowsOf g) r c) : d.Inside rect c ↔ d.inRect rect c = true := by
  have hgk := reg.kind_group hg
  have hlt := hs.lt_length
  have hwidth := reg.wf.width_pos hgk hs
  have hheight := reg.wf.height_pos hgk hs
  rw [length_rowsOf] at hlt
  simp only [Inside, reg.footprint_iff hg hs, reg.inRect_iff hg hs, Shape.Covers,
    hs.reaches_iff (reg.wf.nodup_rowsOf g), Shape.Spans, CellRect.Holds]
  constructor
  · intro h
    -- The first and the last place of the footprint tell.
    have first := h r (d.shape.start c) (by omega)
    have last := h (r + min (d.shape.height c) ((d.children g).length - r) - 1)
      (d.shape.start c + d.shape.width c - 1) (by omega)
    omega
  · intro h i j hij
    omega

/-- Every row of a regular table reaches to the last column. -/
theorem rowWidth_eq (reg : d.Regular t) (hg : g ∈ d.children t) {i : Nat} {row : NodeId}
    (hi : (d.children g)[i]? = some row) : d.rowWidth row = d.columnCount t := by
  have hgk := reg.kind_group hg
  have tiling := reg.tiled g hg
  have ranges : ∀ {range}, range ∈ (d.occupants row).filterMap d.columnRange? ↔
      ∃ c, d.shape.Reaches (d.rowsOf g) i c ∧
        range = ⟨d.shape.start c, d.shape.start c + d.shape.width c - 1⟩ := fun {range} => by
    rw [List.mem_filterMap]
    refine exists_congr fun c => ?_
    rw [reg.wf.mem_occupants hgk hi]
    refine and_congr_right fun ⟨r, hs, _⟩ => ?_
    rw [reg.columnRange?_eq (mem_tableCells.2 ⟨g, hg, r, hs⟩), Option.some.injEq, eq_comm]
  apply le_antisymm
  · refine foldl_max_le_iff.2 ⟨Nat.zero_le _, fun range hr => ?_⟩
    obtain ⟨c, ⟨r, hs, -⟩, rfl⟩ := ranges.1 hr
    have := tiling.within hs
    have := tiling.width_pos hs
    dsimp only
    omega
  · rcases Nat.eq_zero_or_pos (d.columnCount t) with h | h
    · omega
    have hlt := lt_length_rowsOf hi
    obtain ⟨c, hr, hsp⟩ := tiling.covered hlt (j := d.columnCount t - 1) (by omega)
    have := (foldl_max_le_iff.1 (le_refl (d.rowWidth row))).2 _ (ranges.2 ⟨c, hr, rfl⟩)
    have := hsp.2
    dsimp only at *
    omega

end Regular

/-! ## Which rectangles can be merged -/

/-- The cells of a rectangle are those that lie inside it. -/
theorem Rectangle.mem_iff_inside (h : Rectangle d t g rect cells) (reg : d.Regular t)
    (hg : g ∈ d.children t) {r : Nat} {c : NodeId} (hs : Stored (d.rowsOf g) r c) :
    c ∈ cells ↔ d.Inside rect c := by
  constructor
  · intro hc i j hij
    obtain ⟨hi, hr, hsp⟩ := (reg.footprint_iff hg hs).1 hij
    exact h.inside hc i j (by rwa [length_rowsOf]) hr hsp
  · intro hc
    have hlt := hs.lt_length
    rw [length_rowsOf] at hlt
    have hwidth := reg.wf.width_pos (reg.kind_group hg) hs
    have hheight := reg.wf.height_pos (reg.kind_group hg) hs
    have own : d.shape.Covers (d.rowsOf g) r (d.shape.start c) c :=
      ⟨⟨r, hs, le_rfl, by omega⟩, le_rfl, by omega⟩
    obtain ⟨hrow, hcol⟩ := hc r (d.shape.start c) ((reg.footprint_iff hg hs).2 ⟨hlt, own⟩)
    exact h.mem_iff.2 ⟨r, _, hrow, hcol, own⟩

theorem Rectangle.mergeable (h : Rectangle d t g rect cells) (reg : d.Regular t)
    (hg : g ∈ d.children t) : d.Mergeable t g rect := by
  refine ⟨by simpa [length_rowsOf] using h.rows, h.columns, fun {i j row c} hij hi hc => ?_⟩
  obtain ⟨hr, hsp⟩ := (reg.coveringCell?_eq_some hg hi).1 hc
  obtain ⟨r, hs, -⟩ := id hr
  exact (h.mem_iff_inside reg hg hs).1 (h.mem_iff.2 ⟨i, j, hij.1, hij.2, hr, hsp⟩)

/-- There are candidates for every rectangle that can be merged. -/
theorem Mergeable.exists_candidates (h : d.Mergeable t g rect) (reg : d.Regular t)
    (hg : g ∈ d.children t) :
    ∃ cells, d.mergeCandidates? t rect (d.children g) = some cells := by
  have hgk := reg.kind_group hg
  obtain ⟨htop, hbottom⟩ := h.rows
  obtain ⟨hleft, hright⟩ := h.columns
  have htop' := List.getElem?_eq_getElem (htop.trans_lt hbottom)
  have hbottom' := List.getElem?_eq_getElem hbottom
  -- A cell that reaches the top row from above would be cut.
  have above : ((d.spannedCells (d.children g)[rect.top]).any (d.meetsColumns rect.columns)) =
      false := by
    rw [List.any_eq_false]
    intro c hc hmeets
    obtain ⟨r, hlt, hs, hreach⟩ := (reg.wf.mem_spannedCells hgk htop').1 hc
    have hwidth := reg.wf.width_pos hgk hs
    simp only [meetsColumns, reg.columnRange?_eq (mem_tableCells.2 ⟨g, hg, r, hs⟩), Option.any_some,
      ColumnRange.meets, CellRect.columns, Bool.and_eq_true] at hmeets
    obtain ⟨hfirst, hlast⟩ := hmeets.imp of_decide_eq_true of_decide_eq_true
    have covers : d.shape.Covers (d.rowsOf g) rect.top (max rect.left (d.shape.start c)) c :=
      ⟨⟨r, hs, hlt.le, hreach⟩, by rw [Shape.Spans]; omega⟩
    have hin := h.whole (j := max rect.left (d.shape.start c)) ⟨⟨le_rfl, htop⟩, by omega⟩ htop'
      ((reg.coveringCell?_eq_some hg htop').2 covers)
    have := ((reg.inRect_iff hg hs).1 ((reg.inside_iff hg hs).1 hin)).2.1
    omega
  have shown : ∀ p ∈ d.places g rect,
      ((d.coveringCell? p.1 p.2).filter (d.inRect rect)).isSome := fun p hp => by
    obtain ⟨i, hi, hrow, hj⟩ := mem_places.1 hp
    obtain ⟨c, hc⟩ := (reg.tiled g hg).covered (i := i) (j := p.2) (by rw [length_rowsOf]; omega)
      (by omega)
    have hcover := (reg.coveringCell?_eq_some hg hrow).2 hc
    obtain ⟨r, hs, -⟩ := hc.1
    rw [hcover, Option.filter_some_pos ((reg.inside_iff hg hs).1 (h.whole ⟨hi, hj⟩ hrow hcover))]
    rfl
  obtain ⟨all, hall⟩ := exists_mapM_eq_some shown
  refine ⟨all.eraseDups, ?_⟩
  have hcells : d.cellsOfRect? rect (d.children g) = some all := hall
  rw [mergeCandidates?, htop', hbottom']
  simp only [if_neg (show ¬ (rect.bottom < rect.top ∨ rect.right < rect.left ∨
    d.columnCount t ≤ rect.right) by omega), reg.rowWidth_eq hg htop', reg.rowWidth_eq hg hbottom',
    ne_eq, not_true_eq_false, if_false, above, hcells, Bool.false_eq_true, Option.map_some]

theorem Regular.mergeCandidates?_isSome_iff (reg : d.Regular t) (hg : g ∈ d.children t) :
    (d.mergeCandidates? t rect (d.children g)).isSome ↔ d.Mergeable t g rect := by
  constructor
  · intro h
    obtain ⟨cells, hcells⟩ := Option.isSome_iff_exists.1 h
    exact (reg.rectangle hg hcells).1.mergeable reg hg
  · intro h
    obtain ⟨cells, hcells⟩ := h.exists_candidates reg hg
    simp [hcells]

/-! ## What a merge shows -/

/-- Going from `d` to `d'`, a rectangle of the row group `g` has been merged. The rows that are gone are
those below the top row of the rectangle all of whose cells lie inside. In the rows that are left, the
places of the rectangle show the cell that was in its corner, and all others what they showed before. -/
structure MergedGrid (d d' : Document L) (t g : NodeId) (rect : CellRect) : Prop where
  groups : d'.children t = d.children t
  others : ∀ q ∈ d.children t, q ≠ g → d'.children q = d.children q
  order : (d'.children g).Sublist (d.children g)
  deleted : ∀ {i row}, (d.children g)[i]? = some row → (row ∉ d'.children g ↔
    (rect.top < i ∧ i ≤ rect.bottom) ∧ ∀ c ∈ d.children row, d.Inside rect c)
  inside : ∀ {i row j}, (d.children g)[i]? = some row → row ∈ d'.children g → rect.Holds i j →
    d'.coveringCell? row j = ((d.children g)[rect.top]?).bind (d.coveringCell? · rect.left)
  outside : ∀ {i row j}, (d.children g)[i]? = some row → row ∈ d'.children g → ¬ rect.Holds i j →
    d'.coveringCell? row j = d.coveringCell? row j
  elsewhere : ∀ q ∈ d.children t, q ≠ g → ∀ row ∈ d.children q, ∀ j,
    d'.coveringCell? row j = d.coveringCell? row j

theorem mem_emptied {i : Nat} {row : NodeId} : row ∈ d.emptied g rect cells i ↔
    (∃ k : Nat, i < k ∧ k ≤ rect.bottom ∧ (d.children g)[k]? = some row) ∧
      ∀ c ∈ d.children row, c ∈ cells := by
  rw [emptied, List.mem_filter, decide_eq_true_iff]
  refine and_congr_left' ?_
  rw [List.mem_iff_getElem?]
  simp only [List.getElem?_drop, List.getElem?_take]
  constructor
  · rintro ⟨m, hm⟩
    split_ifs at hm
    exact ⟨i + 1 + m, by omega, by omega, hm⟩
  · rintro ⟨k, h₁, h₂, hk⟩
    refine ⟨k - (i + 1), ?_⟩
    rw [show i + 1 + (k - (i + 1)) = k by omega, if_pos (by omega), hk]

namespace MergeStages

variable [Length L]

theorem regular' (h : MergeStages d d₁ e d' t g rect v cells) : d'.Regular t :=
  h.laid.regular h.tileable

theorem kind_cells (h : MergeStages d d₁ e d' t g rect v cells) :
    ∀ c ∈ cells, d.kind? c = some .cell :=
  h.rectangle.kind_cells h.regular h.group

/-- The rows that the first stage finds are those of the table. -/
theorem widened_eq (h : MergeStages d d₁ e d' t g rect v cells) :
    d₁.kind? t = some .table ∧ d₁.children t = d.children t ∧
      (∀ q ∈ d.children t, d₁.children q = d.children q ∧ d₁.rowsOf q = d.rowsOf q) := by
  obtain ⟨ht, htable, hrows, -⟩ :=
    h.widened.children_table h.regular h.group h.rectangle h.mem_survivor
  exact ⟨ht, htable, fun q hq => ⟨h.widened.children_eq h.mem_survivor h.kind_cells
    (h.regular.kind_group hq) (by decide), hrows q hq⟩⟩

theorem children_table (h : MergeStages d d₁ e d' t g rect v cells) :
    e.children t = d.children t := by
  obtain ⟨ht, htable, -⟩ := h.widened_eq
  rw [h.cleared.children_table h.widened.wf ht (htable ▸ h.group), htable]

theorem children_group (h : MergeStages d d₁ e d' t g rect v cells) :
    d'.children g = (d.children g).filter (· ∉ d.emptied g rect cells rect.top) := by
  have hgk := h.regular.kind_group h.group
  have same : ∀ row ∈ d.children g, d₁.children row = d.children row := fun row hrow =>
    h.widened.children_eq h.mem_survivor h.kind_cells (h.regular.wf.kind_row hgk hrow) (by decide)
  obtain ⟨-, -, hgroups⟩ := h.widened_eq
  have empty : d₁.emptied g rect cells rect.top = d.emptied g rect cells rect.top := by
    rw [emptied, emptied, (hgroups g h.group).1]
    refine List.filter_congr fun row hrow => ?_
    rw [same row (List.mem_of_mem_take (List.mem_of_mem_drop hrow))]
  rw [h.laid.same.children, h.cleared.left, empty, (hgroups g h.group).1]

/-- The places of the rectangle are covered by the merged cell, and all others as before. -/
theorem covers_group (h : MergeStages d d₁ e d' t g rect v cells) {p q j : Nat} {row c : NodeId}
    (hp : (d'.children g)[p]? = some row) (hq : (d.children g)[q]? = some row) :
    d'.shape.Covers (d'.rowsOf g) p j c ↔
      if rect.Holds q j then c = v else d.shape.Covers (d.rowsOf g) q j c := by
  obtain ⟨-, htable, hgroups⟩ := h.widened_eq
  have tile := h.tileable
  rw [h.laid.same.children] at hp
  have hlt := lt_length_rowsOf hp
  have hlt' : q < (d.rowsOf g).length := by
    rw [length_rowsOf]
    exact (List.getElem?_eq_some_iff.1 hq).1
  rw [h.laid.covers_iff tile.wf tile.kind (h.children_table ▸ h.group) hlt,
    h.cleared.covers hp ((hgroups g h.group).1 ▸ hq)]
  exact (h.widened.merging h.regular h.group h.rectangle h.mem_survivor h.stored h.corner).covers_iff
    (h.regular.wf.nodup_rowsOf g) hlt'

/-- Nothing happens in the other row groups. -/
theorem other (h : MergeStages d d₁ e d' t g rect v cells) {q : NodeId} (hq : q ∈ d.children t)
    (hne : q ≠ g) : e.children q = d.children q ∧ e.rowsOf q = d.rowsOf q ∧
      ∀ {r c}, Stored (d.rowsOf q) r c → e.cell? c = d.cell? c := by
  obtain ⟨ht, htable, hgroups⟩ := h.widened_eq
  have wf₁ := h.widened.wf
  have hgk := wf₁.kind_group ht (htable ▸ h.group)
  have hqk := wf₁.kind_group ht (htable ▸ hq)
  refine ⟨(h.cleared.children_other wf₁ hgk hqk hne).trans (hgroups q hq).1,
    (h.cleared.rowsOf_ne wf₁ hgk hqk hne).trans (hgroups q hq).2, fun {r c} hs => ?_⟩
  have hck := h.regular.wf.kind_stored (h.regular.kind_group hq) hs
  rw [h.cleared.cell?_other wf₁ hqk hne ((hgroups q hq).2 ▸ hs)]
  refine h.widened.frame.cell c (lt_size_of_kind? hck) ?_
  rintro rfl
  exact h.regular.wf.not_stored_of_ne hne hs _ h.stored

theorem covers_other (h : MergeStages d d₁ e d' t g rect v cells) {q : NodeId}
    (hq : q ∈ d.children t) (hne : q ≠ g) {i j : Nat} {c : NodeId} (hi : i < (d.rowsOf q).length) :
    d'.shape.Covers (d'.rowsOf q) i j c ↔ d.shape.Covers (d.rowsOf q) i j c := by
  obtain ⟨-, hrows, hcell⟩ := h.other hq hne
  have tile := h.tileable
  rw [h.laid.covers_iff tile.wf tile.kind (h.children_table ▸ hq) (hrows ▸ hi), hrows]
  have shape := fun {r c} (hs : Stored (d.rowsOf q) r c) => shape_of_cell? (hcell hs)
  exact Tiling.covers_clip (a := d.shape) (b := ⟨d.shape.start, e.shape.width, e.shape.height⟩)
    (fun _ => rfl) (fun hs => (shape hs).1.2) (fun hs _ _ => by rw [← (shape hs).2]) hi

/-- The table stays where it is. -/
theorem ancestors_table (h : MergeStages d d₁ e d' t g rect v cells) :
    d'.ancestors t = d.ancestors t := by
  have wf := h.regular.wf
  have wf₁ := h.widened.wf
  obtain ⟨ht, htable, -⟩ := h.widened_eq
  have hg := wf₁.mem_children.1 (htable ▸ h.group)
  have first : d₁.ancestors t = d.ancestors t := by
    refine h.widened.frame.ancestors wf wf₁ (lt_size_of_kind? h.regular.kind) ?_
    rintro p hp - hC
    have hc : p ∈ cells := hC.elim (fun e => e ▸ h.mem_survivor) id
    obtain ⟨row, q, -, -, -, hanc⟩ := wf.ancestors_tableCells (h.merged.mem p hc)
    have := wf.nodup_ancestors p
    rw [hanc] at this
    exact (List.nodup_cons.1 this).1 (by simp [hp])
  rw [h.laid.same.ancestors, ← first]
  refine h.cleared.frame.ancestors wf₁ h.cleared.wf (lt_size_of_kind? ht) ?_
  rintro p hp - (rfl | hrow)
  · exact wf₁.not_mem_ancestors_parent hg hp
  · refine wf₁.not_mem_ancestors_parent (wf₁.mem_children.1 hrow) ?_
    exact (wf₁.mem_ancestors_of_parent hg).2 (.inr hp)

theorem covers_corner (h : MergeStages d d₁ e d' t g rect v cells) :
    d.shape.Covers (d.rowsOf g) rect.top rect.left v := by
  have hgk := h.regular.kind_group h.group
  have hwidth := h.regular.wf.width_pos hgk h.stored
  have hheight := h.regular.wf.height_pos hgk h.stored
  exact ⟨⟨_, h.stored, le_rfl, by omega⟩, h.corner.le, by rw [h.corner]; omega⟩

theorem mergedGrid (h : MergeStages d d₁ e d' t g rect v cells) : MergedGrid d d' t g rect := by
  have reg := h.regular
  have reg' := h.regular'
  have hg := h.group
  have hgroups : d'.children t = d.children t := by rw [h.laid.same.children, h.children_table]
  have others : ∀ q ∈ d.children t, q ≠ g → d'.children q = d.children q := fun q hq hne =>
    (h.laid.same.children q).trans (h.other hq hne).1
  have covering : ∀ {i row j}, (d.children g)[i]? = some row → row ∈ d'.children g → ∀ c,
      (d'.coveringCell? row j = some c ↔
        if rect.Holds i j then c = v else d.coveringCell? row j = some c) :=
    fun {i row j} hi hrow c => by
      obtain ⟨p, hp⟩ := List.getElem?_of_mem hrow
      rw [reg'.coveringCell?_eq_some (hgroups ▸ hg) hp, reg.coveringCell?_eq_some hg hi]
      exact h.covers_group hp hi
  refine ⟨hgroups, others, ?_, fun {i row} hi => ?_, fun {i row j} hi hrow hj => ?_,
    fun {i row j} hi hrow hj => ?_, fun q hq hne row hrow j => ?_⟩
  · rw [h.children_group]
    exact List.filter_sublist
  · have inside : (∀ c ∈ d.children row, c ∈ cells) ↔ ∀ c ∈ d.children row, d.Inside rect c :=
      forall₂_congr fun c hc =>
        h.rectangle.mem_iff_inside reg hg (stored_rowsOf.2 ⟨row, hi, hc⟩)
    rw [h.children_group, List.mem_filter, decide_eq_true_iff, not_and, not_not,
      forall_prop_of_true (List.mem_of_getElem? hi), mem_emptied, inside]
    refine and_congr_left' ⟨?_, fun hi' => ⟨i, hi'.1, hi'.2, hi⟩⟩
    rintro ⟨k, h₁, h₂, hk⟩
    obtain rfl := reg.wf.index_unique hi hk
    exact ⟨h₁, h₂⟩
  · obtain ⟨top, htop, hv⟩ := stored_rowsOf.1 h.stored
    have corner : d.coveringCell? top rect.left = some v :=
      (reg.coveringCell?_eq_some hg htop).2 (h.covers_corner)
    rw [htop, Option.bind_some, corner, covering hi hrow, if_pos hj]
  · refine Option.ext fun c => ?_
    rw [covering hi hrow, if_neg hj]
  · obtain ⟨i, hi⟩ := List.getElem?_of_mem hrow
    refine Option.ext fun c => ?_
    rw [reg'.coveringCell?_eq_some (hgroups ▸ hq) ((others q hq hne).symm ▸ hi),
      reg.coveringCell?_eq_some hq hi]
    exact h.covers_other hq hne (by rw [length_rowsOf]; exact (List.getElem?_eq_some_iff.1 hi).1)

end MergeStages

end Document

namespace Action

open Document

variable {L : Type} [Length L] {d : Document L} {t g : NodeId}

/-- In a table that is part of the document, a merge is done exactly for a union of whole cells. If it
is not done, nothing happens. -/
theorem mergeRect_unites_whole_cells (reg : d.Regular t) (filled : d.Filled t)
    (attached : d.isAttached t = true) (hg : g ∈ d.children t) (rect : CellRect) :
    ∃ result d', (mergeRect g rect).run.run d = (.ok result, d') ∧
      (result.isSome ↔ d.Mergeable t g rect) ∧ (result.isSome → MergedGrid d d' t g rect) ∧
      (result = none → d' = d) := by
  obtain ⟨result, d', run, h⟩ := ensures_mergeRect_stages reg hg rect
  refine ⟨result, d', run, ?_⟩
  rw [← reg.mergeCandidates?_isSome_iff hg]
  cases hcand : d.mergeCandidates? t rect (d.children g) with
  | none =>
    rw [hcand] at h
    obtain ⟨rfl, rfl⟩ := h
    simp
  | some cells =>
    rw [hcand] at h
    obtain ⟨v, d₁, e, stages, rfl⟩ := h
    -- The merged cell is part of the document and holds a paragraph, so there is a caret in it.
    have selectable : d'.Selectable t := ⟨stages.regular'.wf, stages.regular'.kind,
      stages.ancestors_table ▸ reg.wf.isAttached_iff.1 attached,
      stages.merged.filled reg.wf reg.kind filled⟩
    have hv : v ∈ d'.tableCells t := by
      rw [stages.merged.cells]
      exact List.mem_filter.2 ⟨stages.merged.mem v stages.mem_survivor, keeps_iff.2 (.inl rfl)⟩
    obtain ⟨o, caret, -⟩ := selectable.exists_caret hv
    simp [caret, stages.mergedGrid]

/-- Four cells next to a tall one, and a row below them that the tall one reaches. -/
def besideTall : TableOutline Int where
  groups := [[[{ text := "a" }, { text := "b" }, { text := "tall", rowSpan := 3 }],
    [{ text := "c" }, { text := "d" }], [{ text := "e" }, { text := "f" }]]]

/-- The document with the table of `besideTall`. -/
def besideTallDocument : Document Int :=
  ((EditorAction.insertTable besideTall).run.run { config := .standard }).2.doc

theorem mergeRect_unites_whole_cells_besideTall :
    besideTallDocument.Regular 1 ∧ besideTallDocument.Filled 1 ∧
      besideTallDocument.isAttached 1 = true ∧ 2 ∈ besideTallDocument.children 1 ∧
      besideTallDocument.Mergeable 1 2 ⟨0, 1, 0, 1⟩ ∧
      ∃ result d', (mergeRect 2 ⟨0, 1, 0, 1⟩).run.run besideTallDocument = (.ok result, d') ∧
        result.isSome ∧ MergedGrid besideTallDocument d' 1 2 ⟨0, 1, 0, 1⟩ := by
  have loaded : Loaded .standard besideTall besideTallDocument 1 :=
    EditorAction.loaded_of_insertTable (by cbv)
  have sound := loaded.sound (by decide +kernel)
  have attached : besideTallDocument.isAttached 1 = true := by decide +kernel
  have group : 2 ∈ besideTallDocument.children 1 := by decide +kernel
  have mergeable : besideTallDocument.Mergeable 1 2 ⟨0, 1, 0, 1⟩ :=
    (sound.regular.mergeCandidates?_isSome_iff group).1 (by decide +kernel)
  obtain ⟨result, d', run, iff, grid, -⟩ :=
    mergeRect_unites_whole_cells sound.regular sound.filled attached group ⟨0, 1, 0, 1⟩
  exact ⟨sound.regular, sound.filled, attached, group, mergeable, result, d', run, iff.2 mergeable,
    grid (iff.2 mergeable)⟩

end Action

end RichTable
