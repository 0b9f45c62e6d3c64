import Mathlib
import RichTable.Proofs.Editor.Load
import RichTable.Proofs.Tree.Below

/-!
# What the places show after an edit of rows

Rows are deleted and inserted around the cells that reach over them. After a deletion the places that
are left show the cells that they showed, but for cells of the deleted rows, for which others stand in
(`RowsDeleted`). After an insertion the old rows show what they showed, and the new ones show the cells
that reach over the gap, and copies of the others (`RowsInserted`).
-/

namespace RichTable

namespace Side

/-- The row on the other side of the gap next to a row that has the rows `above` and `below` around
it. -/
def across (side : Side) (above below : List NodeId) : Option NodeId :=
  match side with
  | .before => above.getLast?
  | .after => below.head?

/-- The rows `above`, `reference` and `below` with `new` rows next to `reference`. -/
def insert (side : Side) (above : List NodeId) (reference : NodeId) (below new : List NodeId) :
    List NodeId :=
  match side with
  | .before => above ++ new ++ reference :: below
  | .after => above ++ reference :: (new ++ below)

end Side

namespace Document

variable {L : Type} {d d₁ d' e : Document L} {t g : NodeId}

/-- In `d'`, the cell `y` stands for the cell `x` of `d`: it is new and blank, and has the columns and
the background of `x`. -/
structure StandsFor (d d' : Document L) (x y : NodeId) : Prop where
  fresh : d.size ≤ y
  blank : d'.Blank y
  columns : d'.columnRange? y = d.columnRange? x
  background : (d'.cell? y).map (·.background) = (d.cell? x).map (·.background)

/-- A row group is the same in `d'`, with its rows, its cells and what they hold. Only borders may
differ. -/
structure SameGroup (d d' : Document L) (q : NodeId) : Prop where
  rows : d'.children q = d.children q
  cells : ∀ row ∈ d.children q, d'.children row = d.children row
  layout : ∀ row ∈ d.children q, ∀ c ∈ d.children row,
    (d'.cell? c).map (·.layout) = (d.cell? c).map (·.layout)
  inside : ∀ row ∈ d.children q, ∀ c ∈ d.children row, SameBelow d d' c
  text : ∀ row ∈ d.children q, ∀ c ∈ d.children row, d'.plainText c = d.plainText c

/-- The cell is stored in one of the rows `first` to `last` of the group. -/
def StoredWithin (d : Document L) (g : NodeId) (first last : Nat) (c : NodeId) : Prop :=
  ∃ i row, (first ≤ i ∧ i ≤ last) ∧ (d.children g)[i]? = some row ∧ c ∈ d.children row

/-- Going from `d` to `d'`, rows `first` to `last` of a row group have been deleted. A place that is
left shows what it showed, or a cell that stands for it if this was stored in a deleted row. The cell
that stands for it is stored in the row behind the deleted ones. -/
structure RowsDeleted (d d' : Document L) (t g : NodeId) (first last : Nat) : Prop where
  groups : d'.children t = d.children t
  rows : d'.children g = (d.children g).take first ++ (d.children g).drop (last + 1)
  columns : d'.columnCount t = d.columnCount t
  kept : ∀ {row j x}, row ∈ d'.children g → d.coveringCell? row j = some x →
    ¬ d.StoredWithin g first last x → d'.coveringCell? row j = some x
  replaced : ∀ {row j x}, row ∈ d'.children g → d.coveringCell? row j = some x →
    d.StoredWithin g first last x → ∃ next y, (d.children g)[last + 1]? = some next ∧
      y ∈ d'.children next ∧ StandsFor d d' x y ∧ ∀ row' ∈ d'.tableRows t, ∀ j',
        d'.coveringCell? row' j' = some y ↔ d.coveringCell? row' j' = some x
  others : ∀ q ∈ d.children t, q ≠ g → SameGroup d d' q

theorem background_of_layout {c c' : NodeId}
    (h : (d'.cell? c').map (·.layout) = (d.cell? c).map (·.layout)) :
    (d'.cell? c').map (·.background) = (d.cell? c).map (·.background) := by
  have := congrArg (Option.map fun layout : Nat × Nat × Option Nat × Option String => layout.2.2.2) h
  rwa [Option.map_map, Option.map_map] at this

/-! ## Cutting row spans -/

theorem Clamped.coveringCell?_eq (clamp : Clamped d d₁ g) (reg : d.Regular t) (reg₁ : d₁.Regular t)
    (hg : g ∈ d.children t) {row : NodeId} (hr : row ∈ d.tableRows t) (j : Nat) :
    d₁.coveringCell? row j = d.coveringCell? row j := by
  obtain ⟨q, hq, i, hi⟩ := exists_group_of_mem_tableRows hr
  have hlt := lt_length_rowsOf hi
  refine Option.ext fun c => ?_
  rw [reg₁.coveringCell?_eq_some (clamp.same.children t ▸ hq) (clamp.same.children q ▸ hi),
    reg.coveringCell?_eq_some hq hi]
  exact Clamped.covers_iff clamp reg.wf (reg.kind_group hg) hlt

/-- The cut changes row spans only. -/
theorem Clamped.exists_rowSpan (clamp : Clamped d d₁ g) (c : NodeId) : ∃ f : CellProps L → Nat,
    d₁.cell? c = (d.cell? c).map fun props => { props with rowSpan := f props } := by
  by_cases hc : ∃ r, Stored (d.rowsOf g) r c
  · obtain ⟨r, hs⟩ := hc
    exact ⟨fun _ => _, clamp.inside hs⟩
  · refine ⟨(·.rowSpan), ?_⟩
    rw [clamp.outside (not_exists.1 hc)]
    cases d.cell? c <;> rfl

/-! ## Other row groups -/

/-- An edit that gives other children to one row group and its rows only. -/
theorem SameGroup.of_frame {C P : NodeId → Prop} (frame : Frame C P d d') (wf : d.WellFormed)
    (ht : d.kind? t = some .table) (hg : g ∈ d.children t)
    (outer : ∀ x, C x → x = g ∨ x ∈ d.children g) {q : NodeId} (hq : q ∈ d.children t)
    (hne : q ≠ g) (layout : ∀ {r c}, Stored (d.rowsOf q) r c →
      (d'.cell? c).map (·.layout) = (d.cell? c).map (·.layout)) : SameGroup d d' q := by
  have hqk := wf.kind_group ht hq
  have hgk := wf.kind_group ht hg
  have stored : ∀ row ∈ d.children q, ∀ c ∈ d.children row, ∃ r, Stored (d.rowsOf q) r c :=
    fun row hr c hc => by
      obtain ⟨r, hr⟩ := List.getElem?_of_mem hr
      exact ⟨r, stored_rowsOf.2 ⟨row, hr, hc⟩⟩
  have inside : ∀ row ∈ d.children q, ∀ c ∈ d.children row, SameBelow d d' c :=
    fun row hr c hc => .of_frame frame fun x hx hC => by
      obtain ⟨r, hs⟩ := stored row hr c hc
      exact wf.not_mem_ancestors_tableRows (mem_tableCells.2 ⟨q, hq, r, hs⟩) hg (outer x hC) hx
  refine ⟨?_, fun row hr => ?_, fun row hr c hc => ?_, inside, fun row hr c hc => ?_⟩
  · refine frame.children q (lt_size_of_kind? hqk) fun hC => ?_
    refine (outer q hC).elim hne fun h => ?_
    rw [wf.kind_row hgk h] at hqk
    cases hqk
  · have hrk := wf.kind_row hqk hr
    refine frame.children row (lt_size_of_kind? hrk) fun hC => ?_
    rcases outer row hC with rfl | h
    · rw [hgk] at hrk
      cases hrk
    · exact hne (wf.parent_unique hr h)
  · obtain ⟨r, hs⟩ := stored row hr c hc
    exact layout hs
  · exact (inside row hr c hc).plainText wf (wf.lt_size_child hc) frame.size

/-- A table that has been laid out shows its tiling. -/
theorem Laid.coveringCell?_eq_some {n : Nat} {s : NodeId → Nat} (laid : Laid e d' t s)
    (tile : e.Tileable t n s) {q row x : NodeId} (hq : q ∈ e.children t) {i j : Nat}
    (hi : (e.children q)[i]? = some row) : d'.coveringCell? row j = some x ↔
      (⟨s, e.shape.width, e.shape.height⟩ : Shape).Covers (e.rowsOf q) i j x := by
  have hlt := lt_length_rowsOf hi
  rw [(laid.regular tile).coveringCell?_eq_some (laid.same.children t ▸ hq)
    (laid.same.children q ▸ hi)]
  exact laid.covers_iff tile.wf tile.kind hq hlt

theorem Tileable.coveringCell?_tidied [Length L] {n : Nat} {s : NodeId → Nat}
    (tile : e.Tileable t n s) {q row x : NodeId} (hq : q ∈ e.children t) {i j : Nat}
    (hi : (e.children q)[i]? = some row) : (e.tidied t).coveringCell? row j = some x ↔
      (⟨s, e.shape.width, e.shape.height⟩ : Shape).Covers (e.rowsOf q) i j x :=
  tile.laid_tidied.coveringCell?_eq_some tile hq hi

theorem Tileable.columnCount_tidied [Length L] {n : Nat} {s : NodeId → Nat}
    (tile : e.Tileable t n s) (rows : e.tableRows t ≠ []) : (e.tidied t).columnCount t = n :=
  (tile.laid_tidied.columnCount tile.kind).trans (tableWidth_of_tiling tile.tiling rows)

/-! ## Deleting rows -/

theorem storedWithin_iff {first last : Nat} {c : NodeId} : d.StoredWithin g first last c ↔
    ∃ r, Stored (d.rowsOf g) r c ∧ first ≤ r ∧ r ≤ last := by
  simp only [StoredWithin, stored_rowsOf]
  constructor
  · rintro ⟨i, row, ⟨h₁, h₂⟩, hi, hc⟩
    exact ⟨i, ⟨row, hi, hc⟩, h₁, h₂⟩
  · rintro ⟨i, ⟨row, hi, hc⟩, h₁, h₂⟩
    exact ⟨i, row, ⟨h₁, h₂⟩, hi, hc⟩

namespace Deleting

variable {d₂ d₃ : Document L} {first last : Nat} {cells : List NodeId} {copy : NodeId → NodeId}

theorem getElem?_shows (h : Deleting d₁ d₂ d₃ e t g first last cells copy) (i : Nat) :
    (e.children g)[i]? = (d₁.children g)[Tiling.RowDeletion.shows first last i]? := by
  rw [h.getElem?_children, Tiling.RowDeletion.shows]
  split_ifs <;> rfl

/-- The cells of the other row groups are what they were. -/
theorem cell?_other (h : Deleting d₁ d₂ d₃ e t g first last cells copy) {q : NodeId}
    (hq : q ∈ d₁.children t) (hne : q ≠ g) {r : Nat} {c : NodeId} (hs : Stored (d₁.rowsOf q) r c) :
    e.cell? c = d₁.cell? c :=
  (h.cell?_eq (h.lt_size_of_stored hq hs)).trans
    (h.shrink.outside (h.regular.wf.not_stored_of_ne hne hs))

theorem mem_tableCells_copy (h : Deleting d₁ d₂ d₃ e t g first last cells copy) {c : NodeId}
    (hc : c ∈ cells) : copy c ∈ e.tableCells t := by
  obtain ⟨r, hs, h₁, h₂, h₃⟩ := h.cells_iff.1 hc
  exact mem_tableCells.2 ⟨g, h.children_table ▸ h.group, first,
    h.stored_iff.2 (.inr (.inr ⟨rfl, r, c, hs, h₁, h₂, h₃, rfl⟩))⟩

/-- The frame of the whole edit. -/
theorem frame_tidied [Length L] (h : Deleting d₁ d₂ d₃ e t g first last cells copy)
    (clamp : Clamped d d₁ g) :
    Frame (fun x => x = g ∨ x ∈ d.children g) (fun _ => True) d (e.tidied t) := by
  have cut : Frame (fun x => x = g ∨ x ∈ d.children g) (fun _ => True) d d₁ :=
    clamp.same.frame (by simp) (by simp)
  have tidy : Frame (fun x => x = g ∨ x ∈ d.children g) (fun _ => True) e (e.tidied t) :=
    h.poised.same.frame (by simp) (by simp)
  refine (cut.trans (h.frame.mono (fun x _ hx => hx.imp_right fun hx => ?_) (fun _ _ => id)
    h.regular.wf)).trans tidy
  exact clamp.same.children g ▸ List.mem_of_getElem? hx

variable [Length L]

theorem layout_tidied (h : Deleting d₁ d₂ d₃ e t g first last cells copy) {c : NodeId}
    (hc : c ∈ e.tableCells t) :
    ((e.tidied t).cell? c).map (·.layout) = (e.cell? c).map (·.layout) := by
  obtain ⟨n, s, tile, carries⟩ := h.poised
  exact tile.laid_tidied.layout_of_columnIndex? ((carries c hc).resolve_right fun h => h.2)

/-- A recreated cell stands for the deleted one. -/
theorem standsFor (h : Deleting d₁ d₂ d₃ e t g first last cells copy) (clamp : Clamped d d₁ g)
    {c : NodeId} (hc : c ∈ cells) : StandsFor d (e.tidied t) c (copy c) := by
  obtain ⟨r, hs, -⟩ := h.cells_iff.1 hc
  obtain ⟨fresh, blank, cell⟩ := h.cell?_copy hs hc
  obtain ⟨span, cut⟩ := Clamped.exists_rowSpan clamp c
  rw [cut, Option.map_map] at cell
  have layout := h.layout_tidied (h.mem_tableCells_copy hc)
  refine ⟨clamp.same.size ▸ fresh, blank.of_sameTree h.poised.same,
    (columnRange?_of_layout layout).trans ?_, (background_of_layout layout).trans ?_⟩
  · rw [columnRange?, columnRange?, cell]
    cases d.cell? c <;> rfl
  · rw [cell]
    cases d.cell? c <;> rfl

theorem sameGroup (h : Deleting d₁ d₂ d₃ e t g first last cells copy) (clamp : Clamped d d₁ g)
    (reg : d.Regular t) {q : NodeId} (hq : q ∈ d.children t) (hne : q ≠ g) :
    SameGroup d (e.tidied t) q := by
  have children := clamp.same.children
  have hq₁ : q ∈ d₁.children t := children t ▸ hq
  refine .of_frame (h.frame_tidied clamp) reg.wf reg.kind (children t ▸ h.group) (fun _ => id) hq hne
    fun {r c} hs => ?_
  have hs₁ : Stored (d₁.rowsOf q) r c := (clamp.same.rowsOf q).symm ▸ hs
  have hc : c ∈ e.tableCells t := mem_tableCells.2 ⟨q, h.children_table ▸ hq₁, r,
    (h.rowsOf_eq hq₁ hne).symm ▸ hs₁⟩
  rw [h.layout_tidied hc, h.cell?_other hq₁ hne hs₁,
    clamp.outside (reg.wf.not_stored_of_ne hne hs)]

/-- The cells of the deleted rows are shown nowhere, and those that stand for them are shown where
they were. -/
theorem coveringCell?_copy (h : Deleting d₁ d₂ d₃ e t g first last cells copy) {x row : NodeId}
    (hx : x ∈ cells) (hrow : row ∈ (e.tidied t).tableRows t) (j : Nat) :
    (e.tidied t).coveringCell? row j = some (copy x) ↔ d₁.coveringCell? row j = some x := by
  have tile := h.tileable
  obtain ⟨r, hs, h₁, h₂, h₃⟩ := h.cells_iff.1 hx
  rw [h.poised.same.tableRows] at hrow
  obtain ⟨q, hq, i, hi⟩ := exists_group_of_mem_tableRows hrow
  rw [tile.coveringCell?_tidied hq hi]
  rw [h.children_table] at hq
  by_cases hqg : q = g
  · subst hqg
    rw [h.regular.coveringCell?_eq_some hq (h.getElem?_shows i ▸ hi)]
    exact h.rowDeletion.covers_new (h.regular.wf.nodup_rowsOf q) hs h₁ h₂ h₃
  · have hi₁ : (d₁.children q)[i]? = some row := by
      rwa [h.children_eq (h.regular.wf.lt_size_child hq) hqg
        (h.not_next_of_kind (h.regular.kind_group hq) (by decide))] at hi
    rw [h.regular.coveringCell?_eq_some hq hi₁, h.rowsOf_eq hq hqg]
    refine iff_of_false ?_ ?_
    · rintro ⟨⟨r', hs', -⟩, -⟩
      exact Nat.not_lt.2 (h.cell?_copy hs hx).1 (h.lt_size_of_stored hq hs')
    · rintro ⟨⟨r', hs', -⟩, -⟩
      exact h.regular.wf.not_stored_of_ne hqg hs' r hs

theorem rowsDeleted (h : Deleting d₁ d₂ d₃ e t g first last cells copy) (clamp : Clamped d d₁ g)
    (reg : d.Regular t) (part : ¬ (first = 0 ∧ last + 1 = (d.children g).length)) :
    RowsDeleted d (e.tidied t) t g first last := by
  have same := h.poised.same
  have children := clamp.same.children
  have nodup := h.regular.wf.nodup_rowsOf g
  have hg : g ∈ d.children t := children t ▸ h.group
  obtain ⟨hle, hlt⟩ := h.range
  rw [length_rowsOf, children] at hlt
  have groups : (e.tidied t).children t = d.children t := by
    rw [same.children, h.children_table, children]
  have rows : (e.tidied t).children g = (d.children g).take first ++ (d.children g).drop (last + 1) := by
    rw [same.children, h.rows, children]
  have old : ∀ {row}, row ∈ (e.tidied t).children g → row ∈ d.tableRows t := fun {row} hr => by
    rw [rows] at hr
    exact List.mem_flatMap.2 ⟨g, hg, (List.mem_append.1 hr).elim List.mem_of_mem_take
      List.mem_of_mem_drop⟩
  have cut : ∀ {row}, row ∈ d.tableRows t → ∀ j, d₁.coveringCell? row j = d.coveringCell? row j :=
    fun hr j => Clamped.coveringCell?_eq clamp reg h.regular hg hr j
  -- The row is found in both groups, and the cell that it showed in the first.
  have place : ∀ {row j x}, row ∈ (e.tidied t).children g → d.coveringCell? row j = some x →
      ∃ i r, (e.children g)[i]? = some row ∧ Stored (d₁.rowsOf g) r x ∧
        d₁.shape.Covers (d₁.rowsOf g) (Tiling.RowDeletion.shows first last i) j x :=
    fun {row j x} hr hx => by
      obtain ⟨i, hi⟩ := List.getElem?_of_mem (same.children g ▸ hr)
      rw [← cut (old hr), h.regular.coveringCell?_eq_some h.group (h.getElem?_shows i ▸ hi)] at hx
      obtain ⟨r, hs, -⟩ := id hx.1
      exact ⟨i, r, hi, hs, hx⟩
  refine ⟨groups, rows, ?_, fun {row j x} hr hx hout => ?_, fun {row j x} hr hx hin => ?_,
    fun q hq hne => h.sameGroup clamp reg hq hne⟩
  · rw [h.tileable.columnCount_tidied, columnCount, columnCount, clamp.table]
    have left : 0 < (e.children g).length := by
      rw [h.rows, children, List.length_append, List.length_take, List.length_drop]
      omega
    exact Action.tableRows_ne_nil_of_lt (h.children_table ▸ h.group) left
  · obtain ⟨i, r, hi, hs, covers⟩ := place hr hx
    rw [h.tileable.coveringCell?_tidied (h.children_table ▸ h.group) hi]
    refine (h.rowDeletion.covers_old nodup hs ?_).2 covers
    by_contra hr'
    exact hout (storedWithin_iff.2 ⟨r, clamp.same.rowsOf g ▸ hs, by omega, by omega⟩)
  · obtain ⟨i, r, hi, hs, covers⟩ := place hr hx
    obtain ⟨r', hs', h₁, h₂⟩ := storedWithin_iff.1 hin
    rw [← clamp.same.rowsOf] at hs'
    obtain rfl := hs'.row_unique nodup hs
    have h₃ := Tiling.RowDeletion.lt_of_reaches nodup hs' h₁ h₂ covers.1
    have hmem : x ∈ cells := h.cells_iff.2 ⟨r', hs', h₁, h₂, h₃⟩
    have hfit := h.fits hs'
    rw [length_rowsOf, children] at hfit
    have hnext := List.getElem?_eq_getElem (show last + 1 < (d.children g).length by omega)
    refine ⟨_, copy x, hnext, ?_, h.standsFor clamp hmem, fun row' hr' j' => ?_⟩
    · rw [same.children]
      exact (h.mem_next ((congrArg (·[last + 1]?) (children g)).trans hnext)).2 (.inr ⟨x, hmem, rfl⟩)
    · rw [h.coveringCell?_copy hmem hr', cut]
      obtain ⟨q, hq, hr''⟩ := List.mem_flatMap.1 hr'
      rw [groups] at hq
      by_cases hqg : q = g
      · exact old (hqg ▸ hr'')
      · exact List.mem_flatMap.2 ⟨q, hq, (h.sameGroup clamp reg hq hqg).rows ▸ hr''⟩

end Deleting

/-! ## Inserting rows -/

/-- The segment runs from the first place for the caret in the first cell of a row to the end of its
last cell. -/
def RowSegment (d : Document L) (row : NodeId) (s : Segment) : Prop :=
  ∃ first last, (d.children row).head? = some first ∧ (d.children row).getLast? = some last ∧
    d.firstCaret? first = some s.start ∧ d.edgePosition? last .afterEnd = some s.stop

/-- Going from `d` to `d'`, rows have been inserted next to the row `reference` of the row group `g`,
between it and the row `across`, if there is one. Old rows show what they showed. The new rows show the
cells that reach over the gap, that is, those that both rows next to it showed at the same column, and
of the other cells of `reference` copies. -/
structure RowsInserted (d d' : Document L) (t g reference : NodeId) (across : Option NodeId)
    (new : List NodeId) : Prop where
  groups : d'.children t = d.children t
  columns : d'.columnCount t = d.columnCount t
  fresh : ∀ row ∈ new, d.size ≤ row
  old : ∀ row ∈ d.tableRows t, ∀ j, d'.coveringCell? row j = d.coveringCell? row j
  stretched : ∀ {row j x}, row ∈ new → d.coveringCell? reference j = some x →
    across.bind (d.coveringCell? · j) = some x → d'.coveringCell? row j = some x
  copied : ∀ {row j x}, row ∈ new → d.coveringCell? reference j = some x →
    across.bind (d.coveringCell? · j) ≠ some x → ∃ y ∈ d'.children row,
      d'.coveringCell? row j = some y ∧ StandsFor d d' x y ∧
        (d'.cell? y).map (·.rowSpan) = some 1
  others : ∀ q ∈ d.children t, q ≠ g → SameGroup d d' q

/-- Of the cells that the row next to the gap shows, those are shown on the other side that reach over
the gap. -/
theorem Regular.shown_across_iff (reg : d.Regular t) (hg : g ∈ d.children t)
    (fits : ∀ {r c}, Stored (d.rowsOf g) r c → r + d.shape.height c ≤ (d.rowsOf g).length)
    {above below : List NodeId} {reference : NodeId} (rows : d.children g = above ++ reference :: below)
    {r j : Nat} {x : NodeId} (hs : Stored (d.rowsOf g) r x)
    (covers : d.shape.Covers (d.rowsOf g) above.length j x) (side : Side) :
    (side.across above below).bind (d.coveringCell? · j) = some x ↔
      r < (match side with | .before => above.length | .after => above.length + 1) ∧
        (match side with | .before => above.length | .after => above.length + 1) <
          r + d.shape.height x := by
  have nodup := reg.wf.nodup_rowsOf g
  obtain ⟨hle, hlt⟩ := (hs.reaches_iff nodup).1 covers.1
  have hfit := fits hs
  rw [length_rowsOf, rows, List.length_append, List.length_cons] at hfit
  have shown : ∀ {i : Nat} {row}, (d.children g)[i]? = some row →
      (d.coveringCell? row j = some x ↔ r ≤ i ∧ i < r + d.shape.height x) := fun hi => by
    rw [reg.coveringCell?_eq_some hg hi, hs.reaches_iff nodup, and_iff_left covers.2]
  cases side with
  | before =>
    rcases List.eq_nil_or_concat above with rfl | ⟨l, a, rfl⟩
    · simp [Side.across]
    · have hi : (d.children g)[l.length]? = some a := by simp [rows]
      simp only [Side.across, List.concat_eq_append, List.getLast?_concat, Option.bind_some, shown hi,
        List.length_append, List.length_singleton] at hlt ⊢
      omega
  | after =>
    cases below with
    | nil =>
      simp only [Side.across, List.head?_nil, Option.bind_none, reduceCtorEq, false_iff]
      rw [List.length_nil] at hfit
      omega
    | cons b below =>
      have hi : (d.children g)[above.length + 1]? = some b := by simp [rows]
      simp only [Side.across, List.head?_cons, Option.bind_some, shown hi]
      omega

theorem WellFormed.exists_rowSegment (wf : d.WellFormed) {row : NodeId}
    (hrow : d.kind? row = some .row) (attached : root ∈ d.ancestors row) (hne : d.children row ≠ [])
    (blank : ∀ c ∈ d.children row, d.Blank c) :
    ∃ s, d.cellsSegment? (d.children row) = some s ∧ d.RowSegment row s := by
  obtain ⟨o, ho⟩ := Option.isSome_iff_exists.1
    ((wf.contentStart?_isSome (lt_size_of_kind? hrow)).2 attached)
  obtain ⟨first, rest, hfirst⟩ := List.exists_cons_of_ne_nil hne
  obtain ⟨init, last, hlast⟩ : ∃ init last, d.children row = init ++ [last] :=
    ⟨_, _, (List.dropLast_append_getLast hne).symm⟩
  have mem : first ∈ d.children row := by simp [hfirst]
  obtain ⟨b, hb, hk, -⟩ := blank first mem
  obtain ⟨p, caret, -, c, hc, -, hle⟩ := wf.exists_firstCaret? (wf.kind_cell hrow mem) (by simp [hb])
    (by simpa [hb] using hk) ((wf.mem_ancestors_of_parent (wf.mem_children.1 mem)).2 (.inr attached))
  rw [wf.contentStart?_child (show d.children row = [] ++ first :: rest from hfirst) ho, symbols_nil,
    Option.some.injEq] at hc
  -- The cells follow each other, so the row ends with its last cell.
  have stop : d.edgePosition? last .afterEnd =
      some ⟨o + d.symbols (d.children row), .backward⟩ := by
    rw [edgePosition?, elementEnd?, wf.elementStart?_child hlast ho, hlast, symbols_append,
      symbols_cons, symbols_nil, Nat.add_zero, ← Nat.add_assoc]
    rfl
  have before : p ≤ o + d.symbols (d.children row) := by
    rw [hfirst, symbols_cons, symbolLength]
    omega
  have head : (d.children row).head? = some first := by rw [hfirst, List.head?_cons]
  have getLast : (d.children row).getLast? = some last := by rw [hlast, List.getLast?_concat]
  refine ⟨⟨⟨p, .forward⟩, ⟨o + d.symbols (d.children row), .backward⟩⟩, ?_, first, last, head, getLast,
    caret, stop⟩
  simp only [cellsSegment?, head, getLast, cellSegment?, caret, stop, Option.some_or,
    Segment.between, if_pos before]

/-- The range of whole rows has a segment for each row with cells. -/
theorem forall₂_wholeRows {rows : List NodeId}
    (segment : ∀ row ∈ rows, d.children row ≠ [] →
      ∃ s, d.cellsSegment? (d.children row) = some s ∧ d.RowSegment row s) :
    List.Forall₂ d.RowSegment (rows.filter (d.children · ≠ [])) (d.wholeRows t rows).segments := by
  induction rows with
  | nil => exact .nil
  | cons row rows ih =>
    have ih := ih fun r hr => segment r (by simp [hr])
    simp only [wholeRows, List.filterMap_cons, List.filter_cons] at ih ⊢
    by_cases hne : d.children row = []
    · simpa [hne, cellsSegment?] using ih
    · obtain ⟨s, hs, ok⟩ := segment row (by simp) hne
      rw [if_pos (by simpa using hne), hs]
      exact .cons ok ih

namespace Inserting

variable {d₂ : Document L} {first ρ count : Nat} {templates new : List NodeId}

theorem getElem?_old (h : Inserting d₁ d₂ e t g first ρ count templates new) {i : Nat} {row : NodeId}
    (hi : (d₁.children g)[i]? = some row) :
    (e.children g)[if i < first then i else i + count]? = some row := by
  have hlt := (List.getElem?_eq_some_iff.1 hi).1
  have hnext := h.next
  rw [length_rowsOf] at hnext
  rw [h.children_group, List.append_assoc]
  split_ifs with hif
  · rw [List.getElem?_append_left (by rw [List.length_take]; omega), List.getElem?_take, if_pos hif, hi]
  · rw [List.getElem?_append_right (by rw [List.length_take]; omega), List.length_take,
      min_eq_left (by omega), List.getElem?_append_right (by rw [h.length]; omega), h.length,
      List.getElem?_drop, show first + (i + count - first - count) = i by omega, hi]

theorem getElem?_new (h : Inserting d₁ d₂ e t g first ρ count templates new) {k : Nat} {row : NodeId}
    (hk : new[k]? = some row) : k < count ∧ (e.children g)[first + k]? = some row := by
  have hlt := (List.getElem?_eq_some_iff.1 hk).1
  have hnext := h.next
  rw [length_rowsOf] at hnext
  refine ⟨h.length ▸ hlt, ?_⟩
  rw [h.children_group, List.append_assoc, List.getElem?_append_right (by rw [List.length_take]; omega),
    List.length_take, min_eq_left (by omega), List.getElem?_append_left (by omega),
    show first + k - first = k by omega, hk]

/-- The frame of the whole edit. -/
theorem frame_tidied [Length L] (h : Inserting d₁ d₂ e t g first ρ count templates new)
    (clamp : Clamped d d₁ g) : Frame (· = g) (fun _ => True) d (e.tidied t) := by
  have cut : Frame (· = g) (fun _ => True) d d₁ := clamp.same.frame (by simp) (by simp)
  have stretch : Frame (· = g) (fun _ => True) d₁ d₂ := h.stretch.same.frame (by simp) (by simp)
  have tidy : Frame (· = g) (fun _ => True) e (e.tidied t) := h.poised.same.frame (by simp) (by simp)
  exact ((cut.trans stretch).trans (h.added.frame.mono (fun _ _ => id) (fun _ _ => False.elim)
    (h.stretch.same.wellFormed h.regular.wf))).trans tidy

/-- The old cells are shown in the old rows as before. -/
theorem coveringCell?_old [Length L] (h : Inserting d₁ d₂ e t g first ρ count templates new)
    {row : NodeId} (hrow : row ∈ d₁.tableRows t) (j : Nat) :
    (e.tidied t).coveringCell? row j = d₁.coveringCell? row j := by
  obtain ⟨copy, s, copies, old, insertion⟩ := h.exists_rowInsertion
  have tile := h.tileable_of_rowInsertion old insertion
  obtain ⟨q, hq, i, hi⟩ := exists_group_of_mem_tableRows hrow
  refine Option.ext fun x => ?_
  rw [h.regular.coveringCell?_eq_some hq hi]
  by_cases hqg : q = g
  · subst hqg
    have nodup := h.regular.wf.nodup_rowsOf q
    rw [tile.coveringCell?_tidied (h.children_table ▸ hq) (h.getElem?_old hi)]
    have shows : Tiling.RowInsertion.shows first ρ count (if i < first then i else i + count) = i := by
      unfold Tiling.RowInsertion.shows
      split_ifs <;> omega
    have outside : (if i < first then i else i + count) < first ∨
        first + count ≤ if i < first then i else i + count := by
      split_ifs <;> omega
    constructor
    · rintro ⟨reaches, spans⟩
      obtain ⟨r, hs⟩ := insertion.stored_of_reaches outside reaches
      exact ⟨shows ▸ ((insertion.reaches_old nodup hs).1 reaches).1, (insertion.spans_old hs).1 spans⟩
    · rintro ⟨reaches, spans⟩
      obtain ⟨r, hs, -⟩ := id reaches
      exact ⟨(insertion.reaches_old nodup hs).2 ⟨shows.symm ▸ reaches, by omega⟩,
        (insertion.spans_old hs).2 spans⟩
  · have hi' : (e.children q)[i]? = some row := by
      rwa [h.children_eq (h.regular.wf.lt_size_child hq) hqg]
    have hlt := lt_length_rowsOf hi
    have known := fun {r c} (hs : Stored (d₁.rowsOf q) r c) => h.lt_size_of_stored hq hs
    have other := fun {r c} (hs : Stored (d₁.rowsOf q) r c) =>
      h.stretch.shape_outside (h.regular.wf.not_stored_of_ne hqg hs)
    rw [tile.coveringCell?_tidied (h.children_table ▸ hq) hi', h.rowsOf_eq hq hqg]
    exact Tiling.covers_clip (a := d₁.shape) (b := ⟨s, e.shape.width, e.shape.height⟩)
      (fun hs => old _ (known hs)) (fun hs => (h.shape_eq (known hs)).1.trans (other hs).2.1)
      (fun hs _ _ => by rw [(h.shape_eq (known hs)).2, (other hs).2.2]) hlt

/-- In a new row, a cell that reaches over the gap is shown where it was shown in the row next to it. -/
theorem coveringCell?_stretched [Length L] (h : Inserting d₁ d₂ e t g first ρ count templates new)
    {row x : NodeId} (hrow : row ∈ new) {r j : Nat} (hs : Stored (d₁.rowsOf g) r x)
    (covers : d₁.shape.Covers (d₁.rowsOf g) ρ j x) (gap : r < first ∧ first < r + d₁.shape.height x) :
    (e.tidied t).coveringCell? row j = some x := by
  obtain ⟨copy, s, copies, old, insertion⟩ := h.exists_rowInsertion
  obtain ⟨k, hk⟩ := List.getElem?_of_mem hrow
  obtain ⟨hlt, hi⟩ := h.getElem?_new hk
  rw [(h.tileable_of_rowInsertion old insertion).coveringCell?_tidied
    (h.children_table ▸ h.group) hi]
  have shows : Tiling.RowInsertion.shows first ρ count (first + k) = ρ := by
    rw [Tiling.RowInsertion.shows, if_neg (by omega), if_pos (by omega)]
  refine ⟨(insertion.reaches_old (h.regular.wf.nodup_rowsOf g) hs).2 ⟨?_, fun _ _ => gap⟩,
    (insertion.spans_old hs).2 covers.2⟩
  exact shows.symm ▸ covers.1

/-- A copy stands for its template, one row high. -/
theorem standsFor [Length L] (h : Inserting d₁ d₂ e t g first ρ count templates new)
    (clamp : Clamped d d₁ g) {copy : Nat → NodeId → NodeId} {s : NodeId → Nat}
    (copies : ∀ k < count, ∀ c ∈ templates, IsCopy d₂ e c (copy k c))
    (old : ∀ x < d₁.size, s x = d₁.shape.start x)
    (insertion : Tiling.RowInsertion d₁.shape ⟨s, e.shape.width, e.shape.height⟩ first ρ count
      templates copy (d₁.rowsOf g) (e.rowsOf g)) {k : Nat} (hk : k < count) {x : NodeId}
    (hx : x ∈ templates) : StandsFor d (e.tidied t) x (copy k x) ∧
      ((e.tidied t).cell? (copy k x)).map (·.rowSpan) = some 1 := by
  have tile := h.tileable_of_rowInsertion old insertion
  have laid := tile.laid_tidied
  have same := laid.same
  obtain ⟨r, hs⟩ := h.stored_template hx
  obtain ⟨fresh, blank, cell⟩ := copies k hk x hx
  obtain ⟨start, width, -⟩ := insertion.new hk hx
  have mem : copy k x ∈ e.tableCells t := mem_tableCells.2 ⟨g, h.children_table ▸ h.group, first + k,
    insertion.stored_iff.2 (.inr (.inl ⟨by omega, by omega, x, hx, by rw [Nat.add_sub_cancel_left]⟩))⟩
  -- The format of the copy comes from the template, through both changes of row spans.
  obtain ⟨span, cut⟩ := Clamped.exists_rowSpan clamp x
  obtain ⟨p, hp⟩ : ∃ p, d.cell? x = some p := exists_cell? <| by
    rw [← clamp.same.kind]
    exact h.regular.wf.kind_stored h.kind_group hs
  rw [h.stretch.inside hs, cut, hp, Option.map_some, Option.map_some, Option.map_some] at cell
  obtain ⟨p', hp', -, rowSpan, background⟩ := laid.exists_props cell
  refine ⟨⟨clamp.same.size ▸ h.stretch.same.size ▸ fresh, blank.of_sameTree same, ?_, ?_⟩, ?_⟩
  · obtain ⟨hwidth, -, hstart⟩ := laid.shape_eq tile.wf tile.kind
    have columns : d.columnRange? x = d₁.columnRange? x := by
      rw [columnRange?, columnRange?, cut, hp]
      rfl
    rw [(laid.regular tile).columnRange?_eq (same.tableCells t ▸ mem), columns,
      h.regular.columnRange?_eq (mem_tableCells.2 ⟨g, h.group, r, hs⟩), hstart _ mem, hwidth,
      show s (copy k x) = _ from start, show e.shape.width (copy k x) = _ from width]
  · rw [hp', hp, Option.map_some, Option.map_some, background]
  · rw [hp', Option.map_some, rowSpan]

/-- Any other cell of the row next to the gap has a copy in every new row. -/
theorem exists_copy_shown [Length L] (h : Inserting d₁ d₂ e t g first ρ count templates new)
    (clamp : Clamped d d₁ g) {row x : NodeId} (hrow : row ∈ new) {r j : Nat}
    (hs : Stored (d₁.rowsOf g) r x) (covers : d₁.shape.Covers (d₁.rowsOf g) ρ j x)
    (gap : ¬ (r < first ∧ first < r + d₁.shape.height x)) :
    ∃ y ∈ (e.tidied t).children row, (e.tidied t).coveringCell? row j = some y ∧
      StandsFor d (e.tidied t) x y ∧ ((e.tidied t).cell? y).map (·.rowSpan) = some 1 := by
  obtain ⟨copy, s, copies, old, insertion⟩ := h.exists_rowInsertion
  have tile := h.tileable_of_rowInsertion old insertion
  obtain ⟨k, hk⟩ := List.getElem?_of_mem hrow
  obtain ⟨hlt, hi⟩ := h.getElem?_new hk
  obtain ⟨hle, hreach⟩ := (hs.reaches_iff (h.regular.wf.nodup_rowsOf g)).1 covers.1
  have hx : x ∈ templates := h.templates_iff.2 ⟨r, hs, hle, hreach, gap⟩
  have place : first + k - first = k := Nat.add_sub_cancel_left ..
  have stored : Stored (e.rowsOf g) (first + k) (copy k x) := insertion.stored_iff.2
    (.inr (.inl ⟨by omega, by omega, x, hx, by rw [place]⟩))
  have shown := (insertion.covers_copy (i := first + k) (j := j) (by omega) (by omega) hx).2 covers.2
  rw [place] at shown
  obtain ⟨row', hrow', hmem⟩ := stored_rowsOf.1 stored
  obtain rfl := Option.some.inj (hi.symm.trans hrow')
  exact ⟨copy k x, (tile.laid_tidied.same.children row).symm ▸ hmem,
    (tile.coveringCell?_tidied (h.children_table ▸ h.group) hi).2 shown,
    h.standsFor clamp copies old insertion hlt hx⟩

theorem sameGroup [Length L] (h : Inserting d₁ d₂ e t g first ρ count templates new)
    (clamp : Clamped d d₁ g) (reg : d.Regular t) {q : NodeId} (hq : q ∈ d.children t) (hne : q ≠ g) :
    SameGroup d (e.tidied t) q := by
  obtain ⟨s, tile, old⟩ := h.tileable
  have children := clamp.same.children
  have hq₁ : q ∈ d₁.children t := children t ▸ hq
  refine .of_frame (h.frame_tidied clamp) reg.wf reg.kind (children t ▸ h.group) (fun _ => .inl) hq hne
    fun {r c} hs => ?_
  have hs₁ : Stored (d₁.rowsOf q) r c := (clamp.same.rowsOf q).symm ▸ hs
  have hlt := h.lt_size_of_stored hq₁ hs₁
  have cell : e.cell? c = d₁.cell? c :=
    (h.cell?_eq hlt).trans (h.stretch.outside (h.regular.wf.not_stored_of_ne hne hs₁))
  rw [tile.laid_tidied.layout_of_columnIndex? ?_, cell, clamp.outside (reg.wf.not_stored_of_ne hne hs)]
  rw [columnIndex?, cell, old c hlt]
  exact h.regular.columnIndex?_eq (mem_tableCells.2 ⟨q, hq₁, r, hs₁⟩)

theorem rowsInserted [Length L] {side : Side} {above below : List NodeId} {reference : NodeId}
    (h : Inserting d₁ d₂ e t g (match side with | .before => above.length | .after => above.length + 1)
      above.length count templates new) (clamp : Clamped d d₁ g) (reg : d.Regular t)
    (rows : d.children g = above ++ reference :: below) :
    RowsInserted d (e.tidied t) t g reference (side.across above below) new := by
  obtain ⟨s, tile, -⟩ := h.tileable
  have same := tile.laid_tidied.same
  have children := clamp.same.children
  have hg : g ∈ d.children t := children t ▸ h.group
  have rows₁ : d₁.children g = above ++ reference :: below := (children g).trans rows
  have hρ : (d₁.children g)[above.length]? = some reference := by simp [rows₁]
  have mem : ∀ {row}, row ∈ above ++ reference :: below → row ∈ d.tableRows t := fun hr =>
    List.mem_flatMap.2 ⟨g, hg, rows ▸ hr⟩
  have cut : ∀ {row}, row ∈ d.tableRows t → ∀ j, d₁.coveringCell? row j = d.coveringCell? row j :=
    fun hr j => Clamped.coveringCell?_eq clamp reg h.regular hg hr j
  have across : ∀ j, (side.across above below).bind (d.coveringCell? · j) =
      (side.across above below).bind (d₁.coveringCell? · j) := fun j => by
    cases hrow : side.across above below with
    | none => rfl
    | some row =>
      refine (cut (mem ?_) j).symm
      cases side with
      | before => exact List.mem_append_left _ (List.mem_of_getLast? hrow)
      | after => exact List.mem_append_right _ (List.mem_cons_of_mem _ (List.mem_of_mem_head? hrow))
  -- The cell that the row next to the gap shows at a column.
  have place : ∀ {j x}, d.coveringCell? reference j = some x → ∃ r, Stored (d₁.rowsOf g) r x ∧
      d₁.shape.Covers (d₁.rowsOf g) above.length j x := fun {j x} hx => by
    rw [← cut (mem (by simp)), h.regular.coveringCell?_eq_some h.group hρ] at hx
    obtain ⟨r, hs, -⟩ := id hx.1
    exact ⟨r, hs, hx⟩
  refine ⟨by rw [same.children, h.children_table, children], ?_, fun row hr => ?_, fun row hr j => ?_,
    fun {row j x} hr hx hgap => ?_, fun {row j x} hr hx hgap => ?_,
    fun q hq hne => h.sameGroup clamp reg hq hne⟩
  · rw [tile.columnCount_tidied, columnCount, columnCount, clamp.table]
    have hrow := h.getElem?_old hρ
    exact List.ne_nil_of_mem (List.mem_flatMap.2 ⟨g, h.children_table ▸ h.group,
      List.mem_of_getElem? hrow⟩)
  · exact clamp.same.size ▸ h.stretch.same.size ▸ (h.added.rows row hr).fresh
  · rw [h.coveringCell?_old (clamp.same.tableRows t ▸ hr), cut hr]
  · obtain ⟨r, hs, covers⟩ := place hx
    rw [across, h.regular.shown_across_iff h.group h.fits rows₁ hs covers] at hgap
    exact h.coveringCell?_stretched hr hs covers hgap
  · obtain ⟨r, hs, covers⟩ := place hx
    rw [across, Ne, h.regular.shown_across_iff h.group h.fits rows₁ hs covers] at hgap
    exact h.exists_copy_shown clamp hr hs covers hgap

/-- In an attached table the range of the new rows has a segment for each of them that has cells. -/
theorem rowSegments [Length L] (h : Inserting d₁ d₂ e t g first ρ count templates new)
    (clamp : Clamped d d₁ g) (reg : d.Regular t) (attached : d.isAttached t = true) :
    List.Forall₂ (e.tidied t).RowSegment (new.filter ((e.tidied t).children · ≠ []))
      ((e.tidied t).wholeRows t new).segments := by
  have same := h.poised.same
  have wf' := h.poised.regular.wf
  have hg : g ∈ d.children t := clamp.same.children t ▸ h.group
  have up : root ∈ (e.tidied t).ancestors t := by
    rw [(h.frame_tidied clamp).ancestors reg.wf wf' (lt_size_of_kind? reg.kind)]
    · exact reg.wf.isAttached_iff.1 attached
    · rintro p hp - rfl
      exact reg.wf.not_mem_ancestors_parent (reg.wf.mem_children.1 hg) hp
  refine forall₂_wholeRows fun row hr hne => ?_
  have added := h.added.rows row hr
  obtain ⟨copy, hcells, copies⟩ := added.copies
  have hrow : row ∈ (e.tidied t).children g := by
    rw [same.children, h.children_group]
    simp [hr]
  have hgroup : g ∈ (e.tidied t).children t := by
    rw [same.children, h.children_table]
    exact h.group
  refine wf'.exists_rowSegment ((same.kind row).trans added.kind) ?_ hne fun c hc => ?_
  · rw [wf'.mem_ancestors_of_parent (wf'.mem_children.1 hrow),
      wf'.mem_ancestors_of_parent (wf'.mem_children.1 hgroup)]
    exact .inr (.inr up)
  · rw [same.children, hcells] at hc
    obtain ⟨x, hx, rfl⟩ := List.mem_map.1 hc
    exact (copies x hx).blank.of_sameTree same

end Inserting

end Document

namespace Action

open Document

variable {L : Type} [Length L] {d : Document L} {t g : NodeId}

/-- Deleting some rows of a row group, but not all of them, leaves the other rows with what they
showed. -/
theorem deleteRowInterval_shows_rest (reg : d.Regular t) (hg : g ∈ d.children t) {first last : Nat}
    (range : first ≤ last ∧ last < (d.children g).length)
    (part : ¬ (first = 0 ∧ last + 1 = (d.children g).length)) :
    ∃ d', (deleteRowInterval g first last).run.run d = (.ok true, d') ∧
      RowsDeleted d d' t g first last := by
  have stages : Ensures (deleteRowInterval g first last) d fun done d' => done = true ∧
      ∃ d₁ d₂ d₃ e cells copy, Clamped d d₁ g ∧ Deleting d₁ d₂ d₃ e t g first last cells copy ∧
        d' = e.tidied t := by
    simp only [deleteRowInterval, ensures_bind,
      ensures_requireParent (reg.wf.tableOf?_eq reg.kind hg), ensures_get]
    rw [if_neg (by omega), if_neg part]
    exact ensures_deletePart_stages reg hg range (tableRows_ne_nil_of_lt hg range.2)
  obtain ⟨_, d', run, rfl, d₁, d₂, d₃, e, cells, copy, clamp, deleting, rfl⟩ := stages
  exact ⟨_, run, deleting.rowsDeleted clamp reg part⟩

/-- Two cells reach into the second row and out of it, one of them below the last row. -/
def crossedRows : TableOutline Int where
  groups := [[[{ text := "a", rowSpan := 2 }, { text := "b" }, { text := "c" }],
    [{ text := "d", rowSpan := 9 }, { text := "e" }], [{ text := "f" }, { text := "g" }],
    [{ text := "h" }, { text := "i" }]]]

/-- The document with the table of `crossedRows`. -/
def crossedRowsDocument : Document Int :=
  ((EditorAction.insertTable crossedRows).run.run { config := .standard }).2.doc

theorem deleteRowInterval_shows_rest_crossedRows :
    crossedRowsDocument.Regular 1 ∧ 2 ∈ crossedRowsDocument.children 1 ∧
      (1 ≤ 2 ∧ 2 < (crossedRowsDocument.children 2).length) ∧
      ¬ (1 = 0 ∧ 2 + 1 = (crossedRowsDocument.children 2).length) ∧
      ∃ d', (deleteRowInterval 2 1 2).run.run crossedRowsDocument = (.ok true, d') ∧
        RowsDeleted crossedRowsDocument d' 1 2 1 2 := by
  have loaded : Loaded .standard crossedRows crossedRowsDocument 1 :=
    EditorAction.loaded_of_insertTable (by decide +kernel)
  have sound := loaded.sound (by decide +kernel)
  have group : 2 ∈ crossedRowsDocument.children 1 := by decide +kernel
  have range : 1 ≤ 2 ∧ 2 < (crossedRowsDocument.children 2).length := by decide +kernel
  have part : ¬ (1 = 0 ∧ 2 + 1 = (crossedRowsDocument.children 2).length) := by simp
  exact ⟨sound.regular, group, range, part,
    deleteRowInterval_shows_rest sound.regular group range part⟩

/-- Inserting rows next to a row of an attached table leaves the old rows with what they showed, and
selects the new ones. -/
theorem insertRows_shows_gap (reg : d.Regular t) (attached : d.isAttached t = true)
    (hg : g ∈ d.children t) {above below : List NodeId} {reference : NodeId}
    (rows : d.children g = above ++ reference :: below) {count : Nat} (pos : 1 ≤ count)
    (side : Side) : ∃ new range d',
      (insertRows reference count side).run.run d = (.ok (some range), d') ∧
      new.length = count ∧ d'.children g = side.insert above reference below new ∧
      RowsInserted d d' t g reference (side.across above below) new ∧
      List.Forall₂ d'.RowSegment (new.filter (d'.children · ≠ [])) range.segments := by
  have hρ : (d.children g)[above.length]? = some reference := by simp [rows]
  have hcount : count ≠ 0 := by omega
  obtain ⟨_, _, run, d₁, d₂, e, templates, new, clamp, inserting, rfl, rfl⟩ :=
    ensures_insertRows_stages reg hg hρ hcount side
  refine ⟨new, _, _, run, inserting.length, ?_, inserting.rowsInserted clamp reg rows,
    inserting.rowSegments clamp reg attached⟩
  rw [inserting.poised.same.children, inserting.children_group, clamp.same.children, rows]
  cases side with
  | before => simp [Side.insert]
  | after => simp [Side.insert, List.take_append]

/-- Of the cells that the second row shows, one reaches up and one reaches down. -/
def hookedRows : TableOutline Int where
  groups := [[[{ text := "a", rowSpan := 2 }, { text := "b" }, { text := "c" }],
    [{ text := "d" }, { text := "e", rowSpan := 7 }], [{ text := "f" }, { text := "g" }]]]

/-- The document with the table of `hookedRows`. -/
def hookedRowsDocument : Document Int :=
  ((EditorAction.insertTable hookedRows).run.run { config := .standard }).2.doc

theorem insertRows_shows_gap_hookedRows :
    hookedRowsDocument.Regular 1 ∧ hookedRowsDocument.isAttached 1 = true ∧
      2 ∈ hookedRowsDocument.children 1 ∧
      hookedRowsDocument.children 2 = [3] ++ 13 :: [20] ∧ 1 ≤ 2 ∧
      ∃ new range d', (insertRows 13 2 .after).run.run hookedRowsDocument = (.ok (some range), d') ∧
        new.length = 2 ∧ d'.children 2 = Side.after.insert [3] 13 [20] new ∧
        RowsInserted hookedRowsDocument d' 1 2 13 (some 20) new ∧
        List.Forall₂ d'.RowSegment (new.filter (d'.children · ≠ [])) range.segments := by
  have loaded : Loaded .standard hookedRows hookedRowsDocument 1 :=
    EditorAction.loaded_of_insertTable (by decide +kernel)
  have sound := loaded.sound (by decide +kernel)
  have attached : hookedRowsDocument.isAttached 1 = true := by decide +kernel
  have group : 2 ∈ hookedRowsDocument.children 1 := by decide +kernel
  have rows : hookedRowsDocument.children 2 = [3] ++ 13 :: [20] := by decide +kernel
  exact ⟨sound.regular, attached, group, rows, by decide,
    insertRows_shows_gap sound.regular attached group rows (by decide) .after⟩

end Action

end RichTable
