import Mathlib
import RichTable.Proofs.Edit.ColumnGrid
import RichTable.Proofs.Edit.MergeGrid

/-!
# What the places show after a cell has been split

A split takes columns away from a cell, from its end, and gives each to a new blank cell in the same
rows. All other places show what they showed (`CellSplit`).
-/

namespace RichTable

namespace Document

variable {L : Type} {d d' e : Document L} {t g row cell : NodeId} {r count : Nat}
  {props : CellProps L} {s : NodeId → Nat} {new : Nat → NodeId}

/-- Going from `d` to `d'`, the cell `x` in the columns `range` has given its last `count` columns to
new blank cells, one to each. -/
structure CellSplit (d d' : Document L) (t x : NodeId) (range : ColumnRange) (count : Nat) :
    Prop where
  regular : d'.Regular t
  groups : d'.children t = d.children t
  rows : ∀ g ∈ d.children t, d'.children g = d.children g
  columns : d'.columnCount t = d.columnCount t
  text : d'.plainText x = d.plainText x
  before : d.columnRange? x = some range
  after : d'.columnRange? x = some ⟨range.first, range.last - count⟩
  new : ∃ f : Nat → NodeId, ∀ i < count, (d'.cell? (f i)).map (·.columnSpan) = some 1 ∧
    CopiedBeside d d' t (range.last - count + 1 + i) (range.last - count + 1 + i) x (f i)
  rest : ∀ row ∈ d.tableRows t, ∀ j,
    ¬ (d.coveringCell? row j = some x ∧ range.last - count < j) →
      d'.coveringCell? row j = d.coveringCell? row j

theorem Regular.mem_tableCells_of_coveringCell? (reg : d.Regular t) {x : NodeId} {j : Nat}
    (hr : row ∈ d.tableRows t) (hx : d.coveringCell? row j = some x) : x ∈ d.tableCells t := by
  obtain ⟨q, hq, i, hi⟩ := exists_group_of_mem_tableRows hr
  obtain ⟨⟨i', hs, -⟩, -⟩ := (reg.coveringCell?_eq_some hq hi).1 hx
  exact Document.mem_tableCells.2 ⟨q, hq, i', hs⟩

/-- The stages of a split from `d` to `d'`: columns are carved off a cell that is wider than that, and
the table is laid out. -/
structure SplitStages (d e d' : Document L) (t g row cell : NodeId) (r : Nat) (props : CellProps L)
    (s : NodeId → Nat) (count : Nat) (new : Nat → NodeId) : Prop where
  regular : d.Regular t
  group : g ∈ d.children t
  at_row : (d.children g)[r]? = some row
  mem : cell ∈ d.children row
  found : d.cell? cell = some props
  wide : count < props.columnSpan
  carved : CarvedOff d e t row cell props (d.columnCount t) d.shape.start s count new
  laid : Laid e d' t s

namespace SplitStages

theorem row_mem (h : SplitStages d e d' t g row cell r props s count new) : row ∈ d.children g :=
  List.mem_of_getElem? h.at_row

theorem kind_row (h : SplitStages d e d' t g row cell r props s count new) :
    d.kind? row = some .row :=
  h.regular.wf.kind_row (h.regular.kind_group h.group) h.row_mem

theorem mem_tableRows (h : SplitStages d e d' t g row cell r props s count new) :
    row ∈ d.tableRows t :=
  List.mem_flatMap.2 ⟨g, h.group, h.row_mem⟩

theorem mem_tableCells (h : SplitStages d e d' t g row cell r props s count new) :
    cell ∈ d.tableCells t :=
  List.mem_flatMap.2 ⟨row, h.mem_tableRows, h.mem⟩

theorem tree (h : SplitStages d e d' t g row cell r props s count new) :
    e.children t = d.children t ∧ (∀ q ∈ d.children t, e.children q = d.children q) ∧
      e.tableRows t = d.tableRows t :=
  h.carved.frame.tableRows h.regular.wf h.regular.kind fun _ hx => hx ▸ h.kind_row

theorem fresh_ne (h : SplitStages d e d' t g row cell r props s count new) {k : Nat} (hk : k < count)
    {x : NodeId} (hx : x < d.size) : x ≠ new k :=
  (hx.trans_le (h.carved.fresh k hk)).ne

/-! ## The cells of the rows -/

/-- The row has got the new cells, and the other rows have the cells that they had. -/
theorem stored_iff (h : SplitStages d e d' t g row cell r props s count new) {q : NodeId}
    (hq : q ∈ d.children t) {i : Nat} {x : NodeId} : Stored (e.rowsOf q) i x ↔
      Stored (d.rowsOf q) i x ∨ (d.children q)[i]? = some row ∧ ∃ k < count, x = new k := by
  rw [stored_rowsOf, stored_rowsOf, h.tree.2.1 q hq]
  constructor
  · rintro ⟨p, hp, hx⟩
    by_cases hpr : p = row
    · subst hpr
      rcases (h.carved.mem_iff x).1 hx with hx | new
      · exact .inl ⟨p, hp, hx⟩
      · exact .inr ⟨hp, new⟩
    · have hlt := h.regular.wf.lt_size_child (List.mem_of_getElem? hp)
      rw [h.carved.frame.children p hlt hpr] at hx
      exact .inl ⟨p, hp, hx⟩
  · rintro (⟨p, hp, hx⟩ | ⟨hp, new⟩)
    · refine ⟨p, hp, ?_⟩
      by_cases hpr : p = row
      · subst hpr
        exact (h.carved.mem_iff x).2 (.inl hx)
      · have hlt := h.regular.wf.lt_size_child (List.mem_of_getElem? hp)
        rwa [h.carved.frame.children p hlt hpr]
    · exact ⟨row, hp, (h.carved.mem_iff x).2 (.inr new)⟩

theorem width_cell (h : SplitStages d e d' t g row cell r props s count new) :
    d.shape.width cell = props.columnSpan :=
  (h.regular.steady.shape_eq h.mem_tableCells h.found).1

theorem shape_old (h : SplitStages d e d' t g row cell r props s count new) {x : NodeId}
    (hx : x < d.size) : e.shape.width x = (if x = cell then d.shape.width x - count
      else d.shape.width x) ∧ e.shape.height x = d.shape.height x := by
  by_cases hxc : x = cell
  · subst hxc
    have wide := h.wide
    simp only [shape, extent_eq h.found, extent_eq h.carved.left, CellProps.extent, CellProps.width,
      CellProps.height, if_true, and_true]
    omega
  · simp [shape, extent, h.carved.frame.cell x hx hxc, hxc]

theorem shape_new (h : SplitStages d e d' t g row cell r props s count new) {k : Nat}
    (hk : k < count) : e.shape.width (new k) = 1 ∧ e.shape.height (new k) = d.shape.height cell := by
  simp [shape, extent_eq h.found, extent_eq (h.carved.copy k hk), CellProps.extent, CellProps.width,
    CellProps.height]

/-! ## Places -/

/-- The old cells cover what they covered, but for the columns that were carved off. -/
theorem covers_old (h : SplitStages d e d' t g row cell r props s count new) {q : NodeId}
    (hq : q ∈ d.children t) {i j : Nat} {x : NodeId} (hx : x < d.size) :
    (⟨s, e.shape.width, e.shape.height⟩ : Shape).Covers (e.rowsOf q) i j x ↔
      d.shape.Covers (d.rowsOf q) i j x ∧
        ¬ (x = cell ∧ d.shape.start cell + (props.columnSpan - count) ≤ j) := by
  have stored : ∀ {i}, Stored (e.rowsOf q) i x ↔ Stored (d.rowsOf q) i x := by
    intro i
    rw [h.stored_iff hq, or_iff_left]
    rintro ⟨-, k, hk, rfl⟩
    exact h.fresh_ne hk hx rfl
  obtain ⟨width, height⟩ := h.shape_old hx
  have wide := h.wide
  have hw := h.width_cell
  simp only [Shape.Covers, Shape.Reaches, stored, Shape.Spans, width, height, h.carved.start x hx,
    and_assoc]
  refine and_congr_right fun _ => ?_
  by_cases hxc : x = cell
  · subst hxc
    rw [if_pos rfl]
    simp only [true_and]
    omega
  · simp [hxc]

/-- The new cells cover one column each in the rows of the old one. -/
theorem covers_new (h : SplitStages d e d' t g row cell r props s count new) {q : NodeId}
    (hq : q ∈ d.children t) {i j k : Nat} (hk : k < count) :
    (⟨s, e.shape.width, e.shape.height⟩ : Shape).Covers (e.rowsOf q) i j (new k) ↔
      d.shape.Covers (d.rowsOf q) i j cell ∧
        j = d.shape.start cell + (props.columnSpan - count) + k := by
  have wf := h.regular.wf
  have stored : ∀ {i}, Stored (e.rowsOf q) i (new k) ↔ Stored (d.rowsOf q) i cell := by
    intro i
    rw [h.stored_iff hq, stored_rowsOf, stored_rowsOf]
    constructor
    · rintro (⟨p, -, hp⟩ | ⟨hp, -⟩)
      · exact absurd rfl (h.fresh_ne hk (wf.lt_size_child hp))
      · exact ⟨row, hp, h.mem⟩
    · rintro ⟨p, hp, hc⟩
      rw [wf.parent_unique hc h.mem] at hp
      exact .inr ⟨hp, k, hk, rfl⟩
  obtain ⟨width, height⟩ := h.shape_new hk
  have wide := h.wide
  have hw := h.width_cell
  simp only [Shape.Covers, Shape.Reaches, stored, Shape.Spans, width, height, h.carved.place k hk,
    and_assoc]
  refine and_congr_right fun _ => ?_
  omega

theorem coveringCell?_eq_some (h : SplitStages d e d' t g row cell r props s count new)
    {q row' x : NodeId} (hq : q ∈ d.children t) {i j : Nat} (hi : (d.children q)[i]? = some row') :
    d'.coveringCell? row' j = some x ↔
      (⟨s, e.shape.width, e.shape.height⟩ : Shape).Covers (e.rowsOf q) i j x :=
  h.laid.coveringCell?_eq_some h.carved.tile (h.tree.1 ▸ hq) (h.tree.2.1 q hq ▸ hi)

theorem coveringCell?_old (h : SplitStages d e d' t g row cell r props s count new)
    {row' x : NodeId} (hr : row' ∈ d.tableRows t) (hx : x < d.size) (j : Nat) :
    d'.coveringCell? row' j = some x ↔ d.coveringCell? row' j = some x ∧
      ¬ (x = cell ∧ d.shape.start cell + (props.columnSpan - count) ≤ j) := by
  obtain ⟨q, hq, i, hi⟩ := exists_group_of_mem_tableRows hr
  rw [h.coveringCell?_eq_some hq hi, h.regular.coveringCell?_eq_some hq hi, h.covers_old hq hx,
    Shape.Covers]

theorem coveringCell?_new (h : SplitStages d e d' t g row cell r props s count new)
    {row' : NodeId} (hr : row' ∈ d.tableRows t) {k : Nat} (hk : k < count) (j : Nat) :
    d'.coveringCell? row' j = some (new k) ↔ d.coveringCell? row' j = some cell ∧
      j = d.shape.start cell + (props.columnSpan - count) + k := by
  obtain ⟨q, hq, i, hi⟩ := exists_group_of_mem_tableRows hr
  rw [h.coveringCell?_eq_some hq hi, h.regular.coveringCell?_eq_some hq hi, h.covers_new hq hk,
    Shape.Covers]

theorem old_or_new (h : SplitStages d e d' t g row cell r props s count new) {row' x : NodeId}
    (hr : row' ∈ d.tableRows t) {j : Nat} (hx : d'.coveringCell? row' j = some x) :
    x < d.size ∨ ∃ k < count, x = new k := by
  obtain ⟨q, hq, i, hi⟩ := exists_group_of_mem_tableRows hr
  obtain ⟨⟨i', hs, -⟩, -⟩ := (h.coveringCell?_eq_some hq hi).1 hx
  rcases (h.stored_iff hq).1 hs with hs | ⟨-, new⟩
  · exact .inl (lt_size_of_kind? (h.regular.wf.kind_stored (h.regular.kind_group hq) hs))
  · exact .inr new

/-- Other places show what they showed. -/
theorem coveringCell?_rest (h : SplitStages d e d' t g row cell r props s count new)
    {row' : NodeId} (hr : row' ∈ d.tableRows t) {j : Nat}
    (rest : ¬ (d.coveringCell? row' j = some cell ∧
      d.shape.start cell + (props.columnSpan - count) ≤ j)) :
    d'.coveringCell? row' j = d.coveringCell? row' j := by
  ext x
  constructor
  · intro hx
    rcases h.old_or_new hr hx with old | ⟨k, hk, rfl⟩
    · exact ((h.coveringCell?_old hr old j).1 hx).1
    · obtain ⟨hcell, hj⟩ := (h.coveringCell?_new hr hk j).1 hx
      exact absurd ⟨hcell, by omega⟩ rest
  · intro hx
    have old := lt_size_of_kind? (h.regular.wf.kind_tableCells h.regular.kind
      (h.regular.mem_tableCells_of_coveringCell? hr hx))
    refine (h.coveringCell?_old hr old j).2 ⟨hx, ?_⟩
    rintro ⟨rfl, hj⟩
    exact rest ⟨hx, hj⟩

/-! ## The cell and its parts -/

theorem mem_tableCells_old (h : SplitStages d e d' t g row cell r props s count new) {x : NodeId}
    (hx : x ∈ d.children row) : x ∈ e.tableCells t :=
  List.mem_flatMap.2 ⟨row, h.tree.2.2 ▸ h.mem_tableRows, (h.carved.mem_iff x).2 (.inl hx)⟩

theorem mem_tableCells_new (h : SplitStages d e d' t g row cell r props s count new) {k : Nat}
    (hk : k < count) : new k ∈ e.tableCells t :=
  List.mem_flatMap.2 ⟨row, h.tree.2.2 ▸ h.mem_tableRows, (h.carved.mem_iff _).2 (.inr ⟨k, hk, rfl⟩)⟩

theorem regular' (h : SplitStages d e d' t g row cell r props s count new) : d'.Regular t :=
  h.laid.regular h.carved.tile

theorem columnRange?_cell (h : SplitStages d e d' t g row cell r props s count new) :
    d'.columnRange? cell = some ⟨d.shape.start cell,
      d.shape.start cell + (props.columnSpan - count) - 1⟩ := by
  have hlt := h.regular.wf.lt_size_child h.mem
  obtain ⟨width, -, start⟩ := h.laid.shape_eq h.carved.tile.wf h.carved.tile.kind
  have hc := h.mem_tableCells_old h.mem
  rw [h.regular'.columnRange?_eq ((h.laid.same.tableCells t).symm ▸ hc), start _ hc,
    h.carved.start _ hlt, width, (h.shape_old hlt).1, if_pos rfl, h.width_cell]

theorem columnRange?_new (h : SplitStages d e d' t g row cell r props s count new) {k : Nat}
    (hk : k < count) : d'.columnRange? (new k) =
      some ⟨d.shape.start cell + (props.columnSpan - count) + k,
        d.shape.start cell + (props.columnSpan - count) + k⟩ := by
  obtain ⟨width, -, start⟩ := h.laid.shape_eq h.carved.tile.wf h.carved.tile.kind
  rw [h.regular'.columnRange?_eq ((h.laid.same.tableCells t).symm ▸ h.mem_tableCells_new hk),
    start _ (h.mem_tableCells_new hk), h.carved.place k hk, width, (h.shape_new hk).1,
    Nat.add_sub_cancel]

/-- Nothing below the cell has changed. -/
theorem sameBelow (h : SplitStages d e d' t g row cell r props s count new) :
    SameBelow d d' cell := by
  have wf := h.regular.wf
  have outer : ∀ x, cell ∈ d.ancestors x → ¬ x = row := by
    rintro x hx rfl
    exact wf.not_mem_ancestors_tableRows h.mem_tableCells h.group (.inr h.row_mem) hx
  intro x hx
  obtain ⟨children, kind, text⟩ := SameBelow.of_frame h.carved.frame outer x hx
  have same := h.laid.same
  exact ⟨(same.children x).trans children, (same.kind x).trans kind, (same.text x).trans text⟩

theorem copiedBeside (h : SplitStages d e d' t g row cell r props s count new) {k : Nat}
    (hk : k < count) : CopiedBeside d d' t (d.shape.start cell + (props.columnSpan - count) + k)
      (d.shape.start cell + (props.columnSpan - count) + k) cell (new k) where
  fresh := h.carved.fresh k hk
  blank := (h.carved.blank k hk).of_sameTree h.laid.same
  stored p hp := by
    rw [h.regular.wf.parent_unique hp h.mem, h.laid.same.children]
    exact (h.carved.mem_iff _).2 (.inr ⟨k, hk, rfl⟩)
  rowSpan := by
    obtain ⟨p, hp, -, span, -⟩ := h.laid.exists_props (h.carved.copy k hk)
    simp [hp, h.found, span]
  background := by
    obtain ⟨p, hp, -, -, background⟩ := h.laid.exists_props (h.carved.copy k hk)
    simp [hp, h.found, background]
  shown row' hr j := by
    rw [h.coveringCell?_new hr hk, and_comm]
    exact and_congr_right fun hj => by rw [hj]

/-- A split gives the last columns of the cell to new blank cells. -/
theorem cellSplit (h : SplitStages d e d' t g row cell r props s count new) :
    ∃ range, CellSplit d d' t cell range count := by
  have wf := h.regular.wf
  have hlt := wf.lt_size_child h.mem
  have same := h.laid.same
  have wide := h.wide
  obtain ⟨groups, rows, -⟩ := h.tree
  have size : d.size ≤ d'.size := h.carved.frame.size.trans same.size.ge
  -- The first column that is given away.
  have hfirst : d.shape.start cell + props.columnSpan - 1 - count + 1 =
      d.shape.start cell + (props.columnSpan - count) := by omega
  refine ⟨⟨d.shape.start cell, d.shape.start cell + props.columnSpan - 1⟩, ?_⟩
  constructor
  case regular => exact h.regular'
  case groups => rw [same.children, groups]
  case rows => exact fun q hq => by rw [same.children, rows q hq]
  case columns =>
    rw [h.laid.columnCount h.carved.tile.kind, tableWidth_of_tiling h.carved.tile.tiling
      (List.ne_nil_of_mem (h.tree.2.2 ▸ h.mem_tableRows))]
  case text => exact h.sameBelow.plainText wf hlt size
  case before => rw [h.regular.columnRange?_eq h.mem_tableCells, h.width_cell]
  case after =>
    rw [h.columnRange?_cell]
    congr 2
    dsimp only
    omega
  case new =>
    refine ⟨new, fun i hi => ?_⟩
    obtain ⟨p, hp, span, -⟩ := h.laid.exists_props (h.carved.copy i hi)
    dsimp only
    rw [hfirst]
    exact ⟨by simp [hp, span], h.copiedBeside hi⟩
  case rest =>
    intro row' hr j rest
    refine h.coveringCell?_rest hr fun shown => rest ⟨shown.1, ?_⟩
    dsimp only
    omega

/-- The cell stays where it is. -/
theorem ancestors_cell (h : SplitStages d e d' t g row cell r props s count new) :
    d'.ancestors cell = d.ancestors cell := by
  have wf := h.regular.wf
  have hrow := lt_size_of_kind? h.kind_row
  have row_eq : e.ancestors row = d.ancestors row :=
    h.carved.frame.ancestors wf h.carved.tile.wf hrow fun _ _ hne => hne
  have below : cell ∈ e.children row := (h.carved.mem_iff cell).2 (.inl h.mem)
  have wfe := h.carved.tile.wf
  rw [h.laid.same.ancestors, wfe.ancestors_of_parent (wfe.mem_children.1 below), row_eq,
    wf.ancestors_of_parent (wf.mem_children.1 h.mem)]

theorem hasParagraphs (h : SplitStages d e d' t g row cell r props s count new)
    (paragraphs : d.HasParagraphs cell) : d'.HasParagraphs cell := by
  have wf := h.regular.wf
  have below := h.sameBelow
  rw [HasParagraphs, (below.self wf (wf.lt_size_child h.mem)).1]
  refine ⟨paragraphs.1, fun b hb => ?_⟩
  rw [((below.child wf hb).self wf (wf.lt_size_child hb)).2.1, paragraphs.2 b hb]

end SplitStages

/-! ## The cells of a row -/

/-- The column ranges and the row spans of the cells of a row. -/
def rowLayout (d : Document L) (row : NodeId) : List (Option ColumnRange × Option Nat) :=
  (d.children row).map fun c => (d.columnRange? c, (d.cell? c).map (·.rowSpan))

/-- The row has a cell with these columns and this row span. -/
def Stores (d : Document L) (row : NodeId) (range : ColumnRange) (span : Nat) : Prop :=
  ∃ c ∈ d.children row, d.columnRange? c = some range ∧ (d.cell? c).map (·.rowSpan) = some span

/-- The cells of a row come in the order of their columns. -/
theorem Regular.pairwise_rowLayout (reg : d.Regular t) (hr : row ∈ d.tableRows t) :
    (d.rowLayout row).Pairwise fun a b =>
      (a.1.map (·.first)).getD 0 < (b.1.map (·.first)).getD 0 := by
  obtain ⟨g, hg, i, hi⟩ := exists_group_of_mem_tableRows hr
  have tiling := reg.tiled g hg
  have hrow : d.children row ∈ d.rowsOf g := List.mem_map_of_mem (List.mem_of_getElem? hi)
  rw [rowLayout, List.pairwise_map]
  refine (tiling.ordered _ hrow).imp_of_mem fun {b c} hb hc hlt => ?_
  have cell : ∀ {x}, x ∈ d.children row → x ∈ d.tableCells t := fun hx =>
    List.mem_flatMap.2 ⟨row, hr, hx⟩
  have := tiling.width_pos (stored_rowsOf.2 ⟨row, hi, hb⟩)
  rw [reg.columnRange?_eq (cell hb), reg.columnRange?_eq (cell hc)]
  simp only [Option.map_some, Option.getD_some]
  omega

theorem Regular.mem_rowLayout (reg : d.Regular t) (hr : row ∈ d.tableRows t)
    {a : Option ColumnRange × Option Nat} :
    a ∈ d.rowLayout row ↔ ∃ range span, a = (some range, some span) ∧ d.Stores row range span := by
  rw [rowLayout, List.mem_map]
  constructor
  · rintro ⟨c, hc, rfl⟩
    have hct : c ∈ d.tableCells t := List.mem_flatMap.2 ⟨row, hr, hc⟩
    obtain ⟨props, hp⟩ := exists_cell? (reg.wf.kind_tableCells reg.kind hct)
    have range := reg.columnRange?_eq hct
    have span : (d.cell? c).map (·.rowSpan) = some props.rowSpan := by rw [hp, Option.map_some]
    exact ⟨_, _, Prod.ext range span, c, hc, range, span⟩
  · rintro ⟨range, span, rfl, c, hc, hrange, hspan⟩
    exact ⟨c, hc, Prod.ext hrange hspan⟩

/-- The layout of a row says which cells it has. -/
theorem Regular.rowLayout_eq (reg : d.Regular t) (reg' : d'.Regular t) (hr : row ∈ d.tableRows t)
    (hr' : row ∈ d'.tableRows t)
    (same : ∀ range span, d'.Stores row range span ↔ d.Stores row range span) :
    d'.rowLayout row = d.rowLayout row := by
  have sorted := reg.pairwise_rowLayout hr
  have sorted' := reg'.pairwise_rowLayout hr'
  have perm : (d'.rowLayout row).Perm (d.rowLayout row) := by
    refine (List.perm_ext_iff_of_nodup ?_ ?_).2 fun a => ?_
    · exact sorted'.imp fun h e => absurd h (by rw [e]; exact lt_irrefl _)
    · exact sorted.imp fun h e => absurd h (by rw [e]; exact lt_irrefl _)
    · simp only [reg.mem_rowLayout hr, reg'.mem_rowLayout hr', same]
  exact perm.eq_of_pairwise (fun _ _ _ _ h h' => absurd h (lt_asymm h')) sorted' sorted

/-- A place in the row of a cell and in one of its columns is covered by this cell only. -/
theorem Regular.eq_of_covers (reg : d.Regular t) (hg : g ∈ d.children t)
    (hr : (d.children g)[r]? = some row) {b c : NodeId} {j : Nat} (hb : b ∈ d.children row)
    (hj : d.shape.Spans j b) (covers : d.shape.Covers (d.rowsOf g) r j c) : b = c := by
  have hs : Stored (d.rowsOf g) r b := stored_rowsOf.2 ⟨row, hr, hb⟩
  have pos := (reg.tiled g hg).height_pos hs
  exact (reg.tiled g hg).disjoint hs.lt_length ⟨r, hs, le_rfl, by omega⟩ hj covers.1 covers.2

/-- Two cells of a row that start in the same column are one. -/
theorem Regular.eq_of_start (reg : d.Regular t) (hg : g ∈ d.children t)
    (hr : (d.children g)[r]? = some row) {b c : NodeId} (hb : b ∈ d.children row)
    (hc : c ∈ d.children row) (start : d.shape.start b = d.shape.start c) : b = c := by
  have tiling := reg.tiled g hg
  have hs : Stored (d.rowsOf g) r c := stored_rowsOf.2 ⟨row, hr, hc⟩
  have wide := tiling.width_pos (stored_rowsOf.2 ⟨row, hr, hb⟩)
  have wide' := tiling.width_pos hs
  have tall := tiling.height_pos hs
  exact reg.eq_of_covers hg hr hb (j := d.shape.start b) ⟨le_rfl, by omega⟩
    ⟨⟨r, hs, le_rfl, by omega⟩, by omega, by omega⟩

theorem Regular.first_eq_start (reg : d.Regular t) (hr : row ∈ d.tableRows t) {c : NodeId}
    {range : ColumnRange} (hc : c ∈ d.children row) (h : d.columnRange? c = some range) :
    range.first = d.shape.start c := by
  rw [reg.columnRange?_eq (List.mem_flatMap.2 ⟨row, hr, hc⟩), Option.some.injEq] at h
  rw [← h]

theorem Regular.stores_unique (reg : d.Regular t) (hg : g ∈ d.children t)
    (hr : (d.children g)[r]? = some row) {range range' : ColumnRange} {span span' : Nat}
    (h : d.Stores row range span) (h' : d.Stores row range' span')
    (first : range.first = range'.first) : range = range' ∧ span = span' := by
  have hrow : row ∈ d.tableRows t := List.mem_flatMap.2 ⟨g, hg, List.mem_of_getElem? hr⟩
  obtain ⟨b, hb, hrange, hspan⟩ := h
  obtain ⟨c, hc, hrange', hspan'⟩ := h'
  rw [reg.first_eq_start hrow hb hrange, reg.first_eq_start hrow hc hrange'] at first
  obtain rfl := reg.eq_of_start hg hr hb hc first
  rw [hrange, Option.some.injEq] at hrange'
  rw [hspan, Option.some.injEq] at hspan'
  exact ⟨hrange', hspan'⟩

namespace SplitStages

/-- Other cells keep their columns and their row spans. -/
theorem layout_rest (h : SplitStages d e d' t g row cell r props s count new) {x : NodeId}
    (hx : x ∈ d.children row) (hne : x ≠ cell) : d'.columnRange? x = d.columnRange? x ∧
      (d'.cell? x).map (·.rowSpan) = (d.cell? x).map (·.rowSpan) := by
  have hlt := h.regular.wf.lt_size_child hx
  have hxt : x ∈ d.tableCells t := List.mem_flatMap.2 ⟨row, h.mem_tableRows, hx⟩
  have hxe := h.mem_tableCells_old hx
  obtain ⟨width, -, start⟩ := h.laid.shape_eq h.carved.tile.wf h.carved.tile.kind
  have cell_eq := h.carved.frame.cell x hlt hne
  constructor
  · rw [h.regular'.columnRange?_eq ((h.laid.same.tableCells t).symm ▸ hxe),
      h.regular.columnRange?_eq hxt, start x hxe, h.carved.start x hlt, width,
      (h.shape_old hlt).1, if_neg hne]
  · obtain ⟨p, hp⟩ := exists_cell? (h.regular.wf.kind_tableCells h.regular.kind hxt)
    obtain ⟨p', hp', -, span, -⟩ := h.laid.exists_props (cell_eq.trans hp)
    rw [hp, hp', Option.map_some, Option.map_some, span]

/-- A cell that has given away all columns but one has left a cell in each of them. -/
theorem stores_iff (h : SplitStages d e d' t g row cell r props s (props.columnSpan - 1) new)
    {range : ColumnRange} {span : Nat} : d'.Stores row range span ↔
      (∃ j, d.shape.start cell ≤ j ∧ j < d.shape.start cell + props.columnSpan ∧
        range = ⟨j, j⟩ ∧ span = props.rowSpan) ∨
      d.Stores row range span ∧ range.first ≠ d.shape.start cell := by
  have wide := h.wide
  have hr := h.mem_tableRows
  have one : props.columnSpan - (props.columnSpan - 1) = 1 := by omega
  have left := h.columnRange?_cell
  rw [one, Nat.add_sub_cancel] at left
  have leftSpan : (d'.cell? cell).map (·.rowSpan) = some props.rowSpan := by
    obtain ⟨p, hp, -, span, -⟩ := h.laid.exists_props h.carved.left
    rw [hp, Option.map_some, span]
  have part := fun {k} (hk : k < props.columnSpan - 1) => h.columnRange?_new hk
  have partSpan : ∀ {k}, k < props.columnSpan - 1 →
      (d'.cell? (new k)).map (·.rowSpan) = some props.rowSpan := fun hk => by
    obtain ⟨p, hp, -, span, -⟩ := h.laid.exists_props (h.carved.copy _ hk)
    rw [hp, Option.map_some, span]
  rw [one] at part
  unfold Stores
  simp only [h.laid.same.children, h.carved.mem_iff]
  constructor
  · rintro ⟨c, hc | ⟨k, hk, rfl⟩, hrange, hspan⟩
    · by_cases hcc : c = cell
      · subst hcc
        rw [left, Option.some.injEq] at hrange
        rw [leftSpan, Option.some.injEq] at hspan
        exact .inl ⟨_, le_rfl, by omega, hrange.symm, hspan.symm⟩
      · obtain ⟨range_eq, span_eq⟩ := h.layout_rest hc hcc
        rw [range_eq] at hrange
        refine .inr ⟨⟨c, hc, hrange, span_eq ▸ hspan⟩, fun first => hcc ?_⟩
        rw [h.regular.first_eq_start hr hc hrange] at first
        exact h.regular.eq_of_start h.group h.at_row hc h.mem first
    · rw [part hk, Option.some.injEq] at hrange
      rw [partSpan hk, Option.some.injEq] at hspan
      exact .inl ⟨_, by omega, by omega, hrange.symm, hspan.symm⟩
  · rintro (⟨j, h₁, h₂, rfl, rfl⟩ | ⟨⟨c, hc, hrange, hspan⟩, first⟩)
    · by_cases hj : j = d.shape.start cell
      · subst hj
        exact ⟨cell, .inl h.mem, left, leftSpan⟩
      · obtain ⟨k, rfl⟩ : ∃ k, j = d.shape.start cell + 1 + k :=
          ⟨j - (d.shape.start cell + 1), by omega⟩
        exact ⟨new k, .inr ⟨k, by omega, rfl⟩, part (by omega), partSpan (by omega)⟩
    · have hcc : c ≠ cell := by
        rintro rfl
        exact first (h.regular.first_eq_start hr hc hrange)
      obtain ⟨range_eq, span_eq⟩ := h.layout_rest hc hcc
      exact ⟨c, .inl hc, range_eq.trans hrange, span_eq.trans hspan⟩

end SplitStages

/-! ## Cells that are merged in one row -/

/-- In the columns from `left` to `right` the row has cells that take up one place each. -/
def Singles (d : Document L) (row : NodeId) (left right : Nat) : Prop :=
  ∀ j, left ≤ j → j ≤ right → d.Stores row ⟨j, j⟩ 1

theorem Regular.shape_of_single (reg : d.Regular t) (hr : row ∈ d.tableRows t) {c : NodeId} {j : Nat}
    (hc : c ∈ d.children row) (range : d.columnRange? c = some ⟨j, j⟩)
    (span : (d.cell? c).map (·.rowSpan) = some 1) :
    d.shape.start c = j ∧ d.shape.width c = 1 ∧ d.shape.height c = 1 := by
  have hct : c ∈ d.tableCells t := List.mem_flatMap.2 ⟨row, hr, hc⟩
  obtain ⟨props, hp⟩ := exists_cell? (reg.wf.kind_tableCells reg.kind hct)
  obtain ⟨width, height⟩ := reg.steady.shape_eq hct hp
  have pos := (reg.spans c hct props hp).1
  have start := reg.first_eq_start hr hc range
  rw [hp, Option.map_some, Option.some.injEq] at span
  rw [reg.columnRange?_eq hct, Option.some.injEq, ColumnRange.mk.injEq] at range
  omega

theorem Singles.mergeable {left right : Nat} (h : d.Singles row left right) (reg : d.Regular t)
    (hg : g ∈ d.children t) (hr : (d.children g)[r]? = some row) (hle : left ≤ right) :
    d.Mergeable t g ⟨r, r, left, right⟩ := by
  have hrow : row ∈ d.tableRows t := List.mem_flatMap.2 ⟨g, hg, List.mem_of_getElem? hr⟩
  have single : ∀ j, left ≤ j → j ≤ right → ∃ c ∈ d.children row,
      Stored (d.rowsOf g) r c ∧ d.shape.start c = j ∧ d.shape.width c = 1 ∧ d.shape.height c = 1 := by
    intro j h₁ h₂
    obtain ⟨c, hc, range, span⟩ := h j h₁ h₂
    exact ⟨c, hc, stored_rowsOf.2 ⟨row, hr, hc⟩, reg.shape_of_single hrow hc range span⟩
  constructor
  case rows => exact ⟨le_rfl, (List.getElem?_eq_some_iff.1 hr).1⟩
  case columns =>
    obtain ⟨c, -, hs, start, width, -⟩ := single right hle le_rfl
    have := (reg.tiled g hg).within hs
    exact ⟨hle, by dsimp only; omega⟩
  case whole =>
    intro i j row' c hold hi covering
    obtain ⟨rows, columns⟩ := hold
    dsimp only at rows columns
    obtain rfl : i = r := by omega
    obtain rfl : row = row' := Option.some.inj (hr.symm.trans hi)
    obtain ⟨b, hb, hs, start, width, height⟩ := single j columns.1 columns.2
    obtain rfl : b = c := reg.eq_of_covers hg hr hb ⟨by omega, by omega⟩
      ((reg.coveringCell?_eq_some hg hr).1 covering)
    intro i' j' place
    obtain ⟨-, reaches, spans⟩ := (reg.footprint_iff hg hs).1 place
    rw [hs.reaches_iff (reg.wf.nodup_rowsOf g)] at reaches
    rw [Shape.Spans] at spans
    simp only [CellRect.Holds]
    omega

namespace MergeStages

variable [Length L] {d₁ : Document L} {left right : Nat} {v : NodeId} {cells : List NodeId}

/-- A merge in one row deletes no row and cuts no row span. -/
theorem of_row (h : MergeStages d d₁ e d' t g ⟨r, r, left, right⟩ v cells)
    (hr : (d.children g)[r]? = some row) : d'.children g = d.children g ∧
      d'.children row = (d.children row).filter (keeps v cells) ∧
      ∀ c, e.cell? c = d₁.cell? c := by
  have hgroup : d'.children g = d.children g := by
    rw [h.children_group, List.filter_eq_self]
    intro p hp
    refine decide_eq_true fun gone => ?_
    obtain ⟨⟨k, h₁, h₂, -⟩, -⟩ := mem_emptied.1 gone
    dsimp only at h₁ h₂
    omega
  have hrow := List.mem_of_getElem? hr
  obtain ⟨-, -, groups⟩ := h.widened_eq
  have hgroups := (groups g h.group).1
  have same : d₁.children row = d.children row := h.widened.children_eq h.mem_survivor h.kind_cells
    (h.regular.wf.kind_row (h.regular.kind_group h.group) hrow) (by decide)
  refine ⟨hgroup, ?_, h.cleared.whole ?_⟩
  · rw [h.laid.same.children, h.cleared.upper row ?_, same]
    rw [hgroups]
    exact List.mem_of_getElem? (i := r) (by rw [List.getElem?_take]; simpa using hr)
  · rw [hgroups, ← hgroup, h.laid.same.children]

theorem mem_row (h : MergeStages d d₁ e d' t g ⟨r, r, left, right⟩ v cells)
    (hr : (d.children g)[r]? = some row) : v ∈ d.children row ∧ v ∈ d'.children row := by
  obtain ⟨row', hr', hv⟩ := stored_rowsOf.1 h.stored
  obtain rfl : row = row' := Option.some.inj (hr.symm.trans hr')
  refine ⟨hv, ?_⟩
  rw [(h.of_row hr).2.1]
  exact List.mem_filter.2 ⟨hv, keeps_iff.2 (.inl rfl)⟩

theorem mem_tableRows' (h : MergeStages d d₁ e d' t g ⟨r, r, left, right⟩ v cells)
    (hr : (d.children g)[r]? = some row) : row ∈ d'.tableRows t :=
  List.mem_flatMap.2 ⟨g, by rw [h.laid.same.children, h.children_table]; exact h.group,
    (h.of_row hr).1 ▸ List.mem_of_getElem? hr⟩

/-- The merged cell takes up the rectangle. -/
theorem layout_survivor (h : MergeStages d d₁ e d' t g ⟨r, r, left, right⟩ v cells)
    (hr : (d.children g)[r]? = some row) : d'.columnRange? v = some ⟨left, right⟩ ∧
      ∃ props, d'.cell? v = some props ∧ props.columnSpan = right - left + 1 ∧ props.rowSpan = 1 := by
  obtain ⟨p, hp⟩ := exists_cell? (h.kind_cells v h.mem_survivor)
  have widened := (h.of_row hr).2.2 v
  rw [h.widened.cell, hp, Option.map_some] at widened
  obtain ⟨p', hp', columns, rows, -⟩ := h.laid.exists_props widened
  have hle := h.rectangle.columns.1
  have hvt : v ∈ d'.tableCells t :=
    List.mem_flatMap.2 ⟨row, h.mem_tableRows' hr, (h.mem_row hr).2⟩
  obtain ⟨-, -, start⟩ := h.laid.shape_eq h.tileable.wf h.tileable.kind
  have width := (h.regular'.steady.shape_eq hvt hp').1
  simp only [CellRect.widen] at columns rows
  dsimp only at hle
  refine ⟨?_, p', hp', columns, by omega⟩
  rw [h.regular'.columnRange?_eq hvt, start v (h.laid.same.tableCells t ▸ hvt), h.corner, width,
    columns]
  congr 2
  dsimp only
  omega

/-- Other cells of the row keep their columns and their row spans. -/
theorem layout_rest (h : MergeStages d d₁ e d' t g ⟨r, r, left, right⟩ v cells)
    (hr : (d.children g)[r]? = some row) {c : NodeId} (hc : c ∈ d.children row) (hn : c ∉ cells) :
    d'.columnRange? c = d.columnRange? c ∧
      (d'.cell? c).map (·.rowSpan) = (d.cell? c).map (·.rowSpan) := by
  have hrow : row ∈ d.tableRows t := List.mem_flatMap.2 ⟨g, h.group, List.mem_of_getElem? hr⟩
  have hct : c ∈ d.tableCells t := List.mem_flatMap.2 ⟨row, hrow, hc⟩
  have hct' : c ∈ d'.tableCells t := by
    rw [h.merged.cells]
    exact List.mem_filter.2 ⟨hct, keeps_iff.2 (.inr hn)⟩
  obtain ⟨p, hp⟩ := exists_cell? (h.regular.wf.kind_tableCells h.regular.kind hct)
  have hne : c ≠ v := fun e => hn (e ▸ h.mem_survivor)
  have same : e.cell? c = some p := by
    rw [(h.of_row hr).2.2, h.widened.frame.cell c (h.regular.wf.lt_size_child hc) hne, hp]
  obtain ⟨p', hp', columns, rows, -⟩ := h.laid.exists_props same
  obtain ⟨-, -, start⟩ := h.laid.shape_eq h.tileable.wf h.tileable.kind
  constructor
  · rw [h.regular'.columnRange?_eq hct', h.regular.columnRange?_eq hct,
      start c (h.laid.same.tableCells t ▸ hct'), (h.regular'.steady.shape_eq hct' hp').1,
      (h.regular.steady.shape_eq hct hp).1, columns]
  · rw [hp, hp', Option.map_some, Option.map_some, rows]

/-- The row has the merged cell in place of those that start in the rectangle. -/
theorem stores_iff (h : MergeStages d d₁ e d' t g ⟨r, r, left, right⟩ v cells)
    (hr : (d.children g)[r]? = some row) {range : ColumnRange} {span : Nat} :
    d'.Stores row range span ↔ range = ⟨left, right⟩ ∧ span = 1 ∨
      d.Stores row range span ∧ ¬ (left ≤ range.first ∧ range.first ≤ right) := by
  have hrow : row ∈ d.tableRows t := List.mem_flatMap.2 ⟨g, h.group, List.mem_of_getElem? hr⟩
  -- A cell of the row is merged if it starts in the rectangle.
  have merged_iff : ∀ {c}, c ∈ d.children row → (c ∈ cells ↔
      left ≤ d.shape.start c ∧ d.shape.start c ≤ right) := by
    intro c hc
    have hs : Stored (d.rowsOf g) r c := stored_rowsOf.2 ⟨row, hr, hc⟩
    have tall := (h.regular.tiled g h.group).height_pos hs
    have wide := (h.regular.tiled g h.group).width_pos hs
    have reaches : d.shape.Reaches (d.rowsOf g) r c := ⟨r, hs, le_rfl, by omega⟩
    have spans : d.shape.Spans (d.shape.start c) c := ⟨le_rfl, by omega⟩
    constructor
    · intro hcells
      exact (h.rectangle.inside hcells r _ hs.lt_length reaches spans).2
    · intro hstart
      exact h.rectangle.mem_iff.2 ⟨r, _, ⟨le_rfl, le_rfl⟩, hstart, reaches, spans⟩
  obtain ⟨survivor, props, hp, -, rows⟩ := h.layout_survivor hr
  have survivorSpan : (d'.cell? v).map (·.rowSpan) = some 1 := by rw [hp, Option.map_some, rows]
  unfold Stores
  simp only [(h.of_row hr).2.1, List.mem_filter, keeps_iff]
  constructor
  · rintro ⟨c, ⟨hc, rfl | hn⟩, hrange, hspan⟩
    · rw [survivor, Option.some.injEq] at hrange
      rw [survivorSpan, Option.some.injEq] at hspan
      exact .inl ⟨hrange.symm, hspan.symm⟩
    · obtain ⟨range_eq, span_eq⟩ := h.layout_rest hr hc hn
      rw [range_eq] at hrange
      refine .inr ⟨⟨c, hc, hrange, span_eq ▸ hspan⟩, ?_⟩
      rw [h.regular.first_eq_start hrow hc hrange]
      exact fun hstart => hn ((merged_iff hc).2 hstart)
  · rintro (⟨rfl, rfl⟩ | ⟨⟨c, hc, hrange, hspan⟩, hstart⟩)
    · exact ⟨v, ⟨(h.mem_row hr).1, .inl rfl⟩, survivor, survivorSpan⟩
    · rw [h.regular.first_eq_start hrow hc hrange] at hstart
      have hn : c ∉ cells := fun hcells => hstart ((merged_iff hc).1 hcells)
      obtain ⟨range_eq, span_eq⟩ := h.layout_rest hr hc hn
      exact ⟨c, ⟨hc, .inr hn⟩, range_eq.trans hrange, span_eq.trans hspan⟩

end MergeStages

/-- If there is a single cell again in every column of the rectangle, and the rest of the row has not
changed, the row has the cells that it had. -/
theorem Singles.rowLayout_eq {left right : Nat} (h : d.Singles row left right) (reg : d.Regular t)
    (reg' : d'.Regular t) (hg : g ∈ d.children t) (hr : (d.children g)[r]? = some row)
    (hr' : row ∈ d'.tableRows t)
    (stores : ∀ {range span}, d'.Stores row range span ↔
      (∃ j, left ≤ j ∧ j ≤ right ∧ range = ⟨j, j⟩ ∧ span = 1) ∨
        d.Stores row range span ∧ ¬ (left ≤ range.first ∧ range.first ≤ right)) :
    d'.rowLayout row = d.rowLayout row := by
  have hrow : row ∈ d.tableRows t := List.mem_flatMap.2 ⟨g, hg, List.mem_of_getElem? hr⟩
  refine reg.rowLayout_eq reg' hrow hr' fun range span => stores.trans ?_
  constructor
  · rintro (⟨j, h₁, h₂, rfl, rfl⟩ | ⟨stored, -⟩)
    · exact h j h₁ h₂
    · exact stored
  · intro stored
    by_cases inside : left ≤ range.first ∧ range.first ≤ right
    · obtain ⟨range_eq, span_eq⟩ := reg.stores_unique hg hr stored
        (h range.first inside.1 inside.2) rfl
      exact .inl ⟨range.first, inside.1, inside.2, range_eq, span_eq⟩
    · exact .inr ⟨stored, inside⟩

end Document

namespace Action

open Document

variable {L : Type} [Length L] {d : Document L} {t g row : NodeId} {r : Nat}

theorem ensures_splitCell_carves {x : NodeId} {props : CellProps L} {selection : Segment}
    (reg : d.Regular t) (hg : g ∈ d.children t) (hr : (d.children g)[r]? = some row)
    (hx : x ∈ d.children row) (hp : d.cell? x = some props)
    (resolved : d.boundaryCells? selection.start selection.stop = some (x, x))
    (horizontal vertical : Nat) :
    Ensures (splitCell selection horizontal vertical) d fun result d' =>
      if min horizontal (props.columnSpan - 1) = 0 then result = none ∧ d' = d
      else result = (d'.firstCaret? x).map .collapsed ∧ ∃ e s new,
        SplitStages d e d' t g row x r props s (min horizontal (props.columnSpan - 1)) new := by
  refine (ensures_splitCell_stages reg hg hr hx hp resolved horizontal vertical).mono ?_
  intro result d' h
  split_ifs at h ⊢ with zero
  · exact h
  · obtain ⟨caret, e, s, new, edit, carved⟩ := h
    exact ⟨caret, e, s, new, reg, hg, hr, hx, hp, by omega, carved, edit.laid⟩

/-- Single cells that are merged in one row come back if the merged cell is split again. -/
theorem mergeRect_splitCell {left right : Nat} (reg : d.Regular t) (hg : g ∈ d.children t)
    (hr : (d.children g)[r]? = some row) (hle : left ≤ right) (singles : d.Singles row left right) :
    Ensures (mergeRect g ⟨r, r, left, right⟩) d fun result d' => ∃ x ∈ d'.children row,
      d'.columnRange? x = some ⟨left, right⟩ ∧
      (d.isAttached t = true → (∀ j, left ≤ j → j ≤ right → ∀ c, d.coveringCell? row j = some c →
        d.HasParagraphs c) →
          ∃ p, result = some (.collapsed p) ∧ d'.boundaryCells? p p = some (x, x)) ∧
      ∀ selection : Segment, d'.boundaryCells? selection.start selection.stop = some (x, x) →
        ∀ horizontal vertical, right - left ≤ horizontal →
          Ensures (splitCell selection horizontal vertical) d' fun _ d'' =>
            d''.rowLayout row = d.rowLayout row := by
  refine (ensures_mergeRect_stages reg hg ⟨r, r, left, right⟩).mono fun result d' h => ?_
  obtain ⟨cells, hcand⟩ := Option.isSome_iff_exists.1
    ((reg.mergeCandidates?_isSome_iff hg).2 (singles.mergeable reg hg hr hle))
  rw [hcand] at h
  obtain ⟨v, d₁, e, stages, rfl⟩ := h
  have reg' := stages.regular'
  have hr' := stages.mem_tableRows' hr
  obtain ⟨range, props, hp, columns, rows⟩ := stages.layout_survivor hr
  have hv := (stages.mem_row hr).2
  have hvt : v ∈ d'.tableCells t := List.mem_flatMap.2 ⟨row, hr', hv⟩
  refine ⟨v, hv, range, fun attached paragraphs => ?_, fun selection resolved horizontal vertical
    enough => ?_⟩
  · -- The merged cell is part of the document and holds a paragraph, so there is a caret in it.
    have filled : d'.HasParagraphs v := by
      refine stages.merged.hasParagraphs reg.wf reg.kind fun c hc => ?_
      obtain ⟨i, j, hi, hj, covers⟩ := stages.rectangle.mem_iff.1 hc
      obtain rfl : i = r := le_antisymm hi.2 hi.1
      exact paragraphs j hj.1 hj.2 c ((reg.coveringCell?_eq_some hg hr).2 covers)
    have inside : root ∈ d'.ancestors v := by
      obtain ⟨_, _, -, -, -, ancestors⟩ := reg'.wf.ancestors_tableCells hvt
      rw [ancestors, stages.ancestors_table]
      simp [reg.wf.isAttached_iff.1 attached]
    obtain ⟨p, caret, -, -, found⟩ := reg'.wf.exists_caret_inside reg'.kind hvt inside filled
    exact ⟨p, by rw [caret, Option.map_some], found⟩
  · have hg' : g ∈ d'.children t := by
      rw [stages.laid.same.children, stages.children_table]
      exact hg
    have at_row : (d'.children g)[r]? = some row := (stages.of_row hr).1 ▸ hr
    refine (ensures_splitCell_carves reg' hg' at_row hv hp resolved horizontal vertical).mono ?_
    intro _ d'' h
    have start : d'.shape.start v = left := (reg'.first_eq_start hr' hv range).symm
    rw [show min horizontal (props.columnSpan - 1) = props.columnSpan - 1 by omega] at h
    split_ifs at h with one
    · -- There was one cell, and nothing has been merged or split.
      obtain ⟨-, rfl⟩ := h
      obtain rfl : left = right := by omega
      refine singles.rowLayout_eq reg reg' hg hr hr' ?_
      intro range span
      rw [stages.stores_iff hr]
      refine or_congr_left ⟨fun h => ⟨left, le_rfl, le_rfl, h⟩, ?_⟩
      rintro ⟨j, h₁, h₂, h⟩
      obtain rfl : j = left := by omega
      exact h
    · obtain ⟨-, e', s, new, split⟩ := h
      refine singles.rowLayout_eq reg split.regular' hg hr ?_ ?_
      · rw [split.laid.same.tableRows, split.tree.2.2]
        exact hr'
      · intro range span
        rw [split.stores_iff, stages.stores_iff hr, start, columns, rows]
        constructor
        · rintro (⟨j, h₁, h₂, h⟩ | ⟨⟨rfl, -⟩ | rest, hne⟩)
          · exact .inl ⟨j, h₁, by omega, h⟩
          · exact absurd rfl hne
          · exact .inr rest
        · rintro (⟨j, h₁, h₂, h⟩ | rest)
          · exact .inl ⟨j, h₁, by omega, h⟩
          · refine .inr ⟨.inr rest, fun first => rest.2 ?_⟩
            omega

/-- A split takes as many columns from the end of a cell as asked for, but for the first, and gives
each to a new blank cell. It undoes a merge of single cells in one row. -/
theorem splitCell_carves_last_columns (reg : d.Regular t) :
    (∀ x ∈ d.tableCells t, d.HasParagraphs x → ∀ props, d.cell? x = some props →
      ∀ selection : Segment, d.boundaryCells? selection.start selection.stop = some (x, x) →
      ∀ horizontal vertical, ∃ result d',
        (splitCell selection horizontal vertical).run.run d = (.ok result, d') ∧
        (result.isSome ↔ 1 ≤ min horizontal (props.columnSpan - 1)) ∧
        (result = none → d' = d) ∧
        ∀ segment, result = some segment →
          (∃ range, CellSplit d d' t x range (min horizontal (props.columnSpan - 1))) ∧
          ∃ p, segment = .collapsed p ∧ d'.isCaret p = true ∧ d'.holds p x = true) ∧
    ∀ g ∈ d.children t, ∀ r row, (d.children g)[r]? = some row → ∀ left right, left ≤ right →
      d.Singles row left right → ∃ x result d',
        (mergeRect g ⟨r, r, left, right⟩).run.run d = (.ok result, d') ∧
        x ∈ d'.children row ∧ d'.columnRange? x = some ⟨left, right⟩ ∧
        (d.isAttached t = true → (∀ j, left ≤ j → j ≤ right → ∀ c,
          d.coveringCell? row j = some c → d.HasParagraphs c) →
            ∃ p, result = some (.collapsed p) ∧ d'.boundaryCells? p p = some (x, x)) ∧
        ∀ selection : Segment, d'.boundaryCells? selection.start selection.stop = some (x, x) →
          ∀ horizontal vertical, right - left ≤ horizontal → ∃ result' d'',
            (splitCell selection horizontal vertical).run.run d' = (.ok result', d'') ∧
            d''.rowLayout row = d.rowLayout row := by
  constructor
  · intro x hx paragraphs props hp selection resolved horizontal vertical
    obtain ⟨g, hg, r, hs⟩ := mem_tableCells.1 hx
    obtain ⟨row, hr, hxr⟩ := stored_rowsOf.1 hs
    obtain ⟨result, d', run, h⟩ :=
      ensures_splitCell_carves reg hg hr hxr hp resolved horizontal vertical
    refine ⟨result, d', run, ?_⟩
    split_ifs at h with zero
    · obtain ⟨rfl, rfl⟩ := h
      simp [zero]
    · obtain ⟨rfl, e, s, new, split⟩ := h
      have inside : root ∈ d'.ancestors x := by
        rw [split.ancestors_cell]
        exact (reg.wf.attached_boundaryCells? resolved).1.2
      have reg' := split.regular'
      obtain ⟨p, caret, stands, holds, -⟩ := reg'.wf.exists_caret_inside reg'.kind
        ((split.laid.same.tableCells t).symm ▸ split.mem_tableCells_old hxr) inside
        (split.hasParagraphs paragraphs)
      rw [caret, Option.map_some]
      refine ⟨iff_of_true rfl (by omega), fun gone => absurd gone (Option.some_ne_none _),
        fun segment given => ?_⟩
      exact ⟨split.cellSplit, p, (Option.some.inj given).symm, stands, holds⟩
  · intro g hg r row hr left right hle singles
    obtain ⟨result, d', run, x, hx, range, caret, split⟩ :=
      mergeRect_splitCell reg hg hr hle singles
    exact ⟨x, result, d', run, hx, range, caret, split⟩

/-- A wide cell that is taller than its row group, and a row of single cells below. -/
def wideAndTall : TableOutline Int where
  groups := [[[{ text := "a" },
        { text := "tall", columnSpan := 3, rowSpan := 4, background := some "#eee" },
        { text := "b" }],
      [{ text := "c" }, { text := "d" }]],
    [[{ text := "e" }, { text := "f" }, {}, { text := "g" }, { text := "h" }]]]

/-- The document with the table of `wideAndTall`. -/
def wideAndTallDocument : Document Int :=
  ((EditorAction.insertTable wideAndTall).run.run { config := .standard }).2.doc

theorem splitCell_carves_last_columns_wideAndTall : wideAndTallDocument.Regular 1 ∧
    (∃ segment d', (splitCell ⟨⟨8, .forward⟩, ⟨16, .backward⟩⟩ 2 5).run.run wideAndTallDocument =
      (.ok (some segment), d') ∧ ∃ range, CellSplit wideAndTallDocument d' 1 7 range 2) ∧
    ∃ p d' result d'', (mergeRect 20 ⟨0, 0, 1, 3⟩).run.run wideAndTallDocument =
        (.ok (some (.collapsed p)), d') ∧
      (splitCell (.collapsed p) 2 0).run.run d' = (.ok result, d'') ∧
      d''.rowLayout 21 = wideAndTallDocument.rowLayout 21 := by
  have loaded : Loaded .standard wideAndTall wideAndTallDocument 1 :=
    EditorAction.loaded_of_insertTable (by decide +kernel)
  have sound := loaded.sound (by decide +kernel)
  obtain ⟨split, merge⟩ := splitCell_carves_last_columns sound.regular
  have span : (wideAndTallDocument.cell? 7).map (·.columnSpan) = some 3 := by decide +kernel
  obtain ⟨props, cell, columns⟩ := Option.map_eq_some_iff.1 span
  refine ⟨sound.regular, ?_, ?_⟩
  · obtain ⟨result, d', run, some_iff, -, parts⟩ := split 7 (by decide +kernel)
      (sound.filled 7 (by decide +kernel)) props cell ⟨⟨8, .forward⟩, ⟨16, .backward⟩⟩
      (by decide +kernel) 2 5
    rw [columns] at some_iff parts
    obtain ⟨segment, rfl⟩ := Option.isSome_iff_exists.1 (some_iff.2 (by decide))
    exact ⟨segment, d', run, (parts segment rfl).1⟩
  · have singles : wideAndTallDocument.Singles 21 1 3 := by
      intro j h₁ h₃
      interval_cases j
      · exact ⟨25, by decide +kernel⟩
      · exact ⟨28, by decide +kernel⟩
      · exact ⟨30, by decide +kernel⟩
    obtain ⟨x, result, d', run, -, -, caret, restored⟩ := merge 20 (by decide +kernel) 0 21
      (by decide +kernel) 1 3 (by decide) singles
    obtain ⟨p, rfl, found⟩ := caret (by decide +kernel) fun j _ _ c covering =>
      sound.filled c (sound.regular.mem_tableCells_of_coveringCell? (by decide +kernel) covering)
    obtain ⟨result', d'', run', layout⟩ := restored (.collapsed p) found 2 0 (by decide)
    exact ⟨p, d', result', d'', run, run', layout⟩

end Action

end RichTable
