import Mathlib
import RichTable.Grid.Placement
import RichTable.Proofs.Grid.Tiling
import RichTable.Proofs.Tree.Frame

/-!
# Tables of a well-formed document

The questions of `Grid.Query` answered for the cells that a row group stores. A document gives its
cells a `shape`, so a row group (`rowsOf`) may be tiled in the sense of `Tiling`; the cells that
occupy row `i` of the group are those that reach it (`WellFormed.mem_occupants`).
-/

namespace RichTable

/-! ## Sorting -/

theorem insertSorted_eq_orderedInsert {α : Type} (le : α → α → Bool) (a : α) (bs : List α) :
    insertSorted le a bs = bs.orderedInsert (le · ·) a := by
  induction bs with
  | nil => rfl
  | cons b bs ih => rw [insertSorted, List.orderedInsert_cons, ih]

/-- The sort of a row is the insertion sort of lists. -/
theorem sortBy_eq_insertionSort {α : Type} (le : α → α → Bool) (as : List α) :
    sortBy le as = as.insertionSort (le · ·) := by
  induction as with
  | nil => rfl
  | cons a as ih => rw [sortBy, List.insertionSort_cons, ih, insertSorted_eq_orderedInsert]

theorem sortBy_perm {α : Type} (le : α → α → Bool) (as : List α) : (sortBy le as).Perm as := by
  rw [sortBy_eq_insertionSort]
  exact List.perm_insertionSort (le · ·) as

/-! ## Cells and rows -/

namespace Document

variable {L : Type} {d : Document L}

/-- The cells of a row group, by row. -/
def rowsOf (d : Document L) (group : NodeId) : List (List NodeId) := (d.children group).map d.children

/-- The cells of a table, in reading order. -/
def tableCells (d : Document L) (table : NodeId) : List NodeId :=
  (d.tableRows table).flatMap d.children

/-- The first row of its group that a cell occupies. -/
def topRow (d : Document L) (c : NodeId) : Nat := (d.originRow? c).getD 0

/-- First columns, widths and heights of cells; a cell without a column starts at column 0. -/
def shape (d : Document L) : Shape where
  start c := (d.columnIndex? c).getD 0
  width c := (d.extent c).width
  height c := (d.extent c).height

theorem extent_eq {c : NodeId} {props : CellProps L} (h : d.cell? c = some props) :
    d.extent c = props.extent := by
  simp [extent, h]

theorem shape_of_cell? {d' : Document L} {c : NodeId} (h : d'.cell? c = d.cell? c) :
    (d'.shape.start c = d.shape.start c ∧ d'.shape.width c = d.shape.width c) ∧
      d'.shape.height c = d.shape.height c := by
  simp [shape, columnIndex?, extent, h]

theorem stored_rowsOf {g c : NodeId} {r : Nat} :
    Stored (d.rowsOf g) r c ↔ ∃ row, (d.children g)[r]? = some row ∧ c ∈ d.children row := by
  simp [Stored, rowsOf]

@[simp]
theorem length_rowsOf (g : NodeId) : (d.rowsOf g).length = (d.children g).length := by
  simp [rowsOf]

theorem lt_length_rowsOf {g row : NodeId} {i : Nat} (h : (d.children g)[i]? = some row) :
    i < (d.rowsOf g).length := by
  rw [length_rowsOf]
  exact (List.getElem?_eq_some_iff.1 h).1

theorem flatten_rowsOf (g : NodeId) : (d.rowsOf g).flatten = (d.children g).flatMap d.children :=
  rfl

theorem flatten_cellGrid (t : NodeId) : (d.cellGrid t).flatten.flatten = d.tableCells t := by
  simp [cellGrid, tableCells, tableRows, List.flatMap_def, List.map_flatten, List.map_map,
    Function.comp_def]

theorem tableCells_eq_flatMap (t : NodeId) :
    d.tableCells t = (d.children t).flatMap fun g => (d.rowsOf g).flatten := by
  rw [tableCells, tableRows, List.flatMap_assoc]
  rfl

theorem mem_tableCells {t c : NodeId} :
    c ∈ d.tableCells t ↔ ∃ g ∈ d.children t, ∃ r, Stored (d.rowsOf g) r c := by
  simp only [tableCells, tableRows, List.mem_flatMap, stored_rowsOf]
  constructor
  · rintro ⟨row, ⟨g, hg, hr⟩, hc⟩
    obtain ⟨i, hi⟩ := List.getElem?_of_mem hr
    exact ⟨g, hg, i, row, hi, hc⟩
  · rintro ⟨g, hg, i, row, hi, hc⟩
    exact ⟨row, ⟨g, hg, List.mem_of_getElem? hi⟩, hc⟩

theorem parentOfKind?_eq {c p : NodeId} {k : Kind} (hp : d.parent? c = some p)
    (hk : d.kind? p = some k) : d.parentOfKind? c k = some p := by
  simp [parentOfKind?, hp, hk]

namespace WellFormed

/-! ## Where nodes stand -/

theorem parent_unique (wf : d.WellFormed) {c p q : NodeId} (hp : c ∈ d.children p)
    (hq : c ∈ d.children q) : p = q :=
  Option.some.inj ((wf.mem_children.1 hp).symm.trans (wf.mem_children.1 hq))

theorem nodup_flatMap (wf : d.WellFormed) {l : List NodeId} (h : l.Nodup) :
    (l.flatMap d.children).Nodup :=
  List.nodup_flatMap.2 ⟨fun p _ => wf.nodup p,
    h.imp fun hne _ hp hq => hne (wf.parent_unique hp hq)⟩

theorem nodup_rowsOf (wf : d.WellFormed) (g : NodeId) : (d.rowsOf g).flatten.Nodup :=
  wf.nodup_flatMap (wf.nodup g)

theorem nodup_tableRows (wf : d.WellFormed) (t : NodeId) : (d.tableRows t).Nodup :=
  wf.nodup_flatMap (wf.nodup t)

theorem nodup_tableCells (wf : d.WellFormed) (t : NodeId) : (d.tableCells t).Nodup :=
  wf.nodup_flatMap (wf.nodup_tableRows t)

/-- Cells of a row group are in no other. -/
theorem not_stored_of_ne (wf : d.WellFormed) {g q : NodeId} (hne : q ≠ g) {r : Nat} {c : NodeId}
    (hs : Stored (d.rowsOf q) r c) (i : Nat) : ¬ Stored (d.rowsOf g) i c := by
  intro hi
  obtain ⟨row, hr, hc⟩ := stored_rowsOf.1 hs
  obtain ⟨row', hr', hc'⟩ := stored_rowsOf.1 hi
  obtain rfl := wf.parent_unique hc hc'
  exact hne (wf.parent_unique (List.mem_of_getElem? hr) (List.mem_of_getElem? hr'))

theorem index_unique (wf : d.WellFormed) {p c : NodeId} {i j : Nat}
    (hi : (d.children p)[i]? = some c) (hj : (d.children p)[j]? = some c) : i = j :=
  (List.getElem?_inj (List.getElem?_eq_some_iff.1 hi).1 (wf.nodup p)).1 (hi.trans hj.symm)

theorem childIndex?_eq (wf : d.WellFormed) {p c : NodeId} {i : Nat}
    (h : (d.children p)[i]? = some c) : d.childIndex? c = some i := by
  rw [childIndex?, wf.mem_children.1 (List.mem_of_getElem? h), Option.bind_some,
    List.idxOf?_eq_some_iff]
  obtain ⟨hi, e⟩ := List.getElem?_eq_some_iff.1 h
  refine ⟨hi, e, fun j hj hjc => hj.ne ?_⟩
  exact wf.index_unique (List.getElem?_eq_some_iff.2 ⟨hj.trans hi, hjc⟩) h

theorem rowOf?_eq (wf : d.WellFormed) {row c : NodeId} (hr : d.kind? row = some .row)
    (hc : c ∈ d.children row) : d.rowOf? c = some row :=
  parentOfKind?_eq (wf.mem_children.1 hc) hr

theorem groupOf?_eq (wf : d.WellFormed) {g row : NodeId} (hg : d.kind? g = some .rowGroup)
    (hr : row ∈ d.children g) : d.groupOf? row = some g :=
  parentOfKind?_eq (wf.mem_children.1 hr) hg

theorem tableOf?_eq (wf : d.WellFormed) {t g : NodeId} (ht : d.kind? t = some .table)
    (hg : g ∈ d.children t) : d.tableOf? g = some t :=
  parentOfKind?_eq (wf.mem_children.1 hg) ht

/-! ## Cells of a row group -/

section Group

variable {g : NodeId}

theorem kind_stored (wf : d.WellFormed) (hg : d.kind? g = some .rowGroup) {r : Nat} {c : NodeId}
    (h : Stored (d.rowsOf g) r c) : d.kind? c = some .cell := by
  obtain ⟨row, hr, hc⟩ := stored_rowsOf.1 h
  exact wf.kind_cell (wf.kind_row hg (List.mem_of_getElem? hr)) hc

theorem width_pos (wf : d.WellFormed) (hg : d.kind? g = some .rowGroup) {r : Nat} {c : NodeId}
    (h : Stored (d.rowsOf g) r c) : 0 < d.shape.width c := by
  obtain ⟨props, hp⟩ := exists_cell? (wf.kind_stored hg h)
  simp only [shape, extent_eq hp, CellProps.extent, CellProps.width]
  omega

theorem height_pos (wf : d.WellFormed) (hg : d.kind? g = some .rowGroup) {r : Nat} {c : NodeId}
    (h : Stored (d.rowsOf g) r c) : 0 < d.shape.height c := by
  obtain ⟨props, hp⟩ := exists_cell? (wf.kind_stored hg h)
  simp only [shape, extent_eq hp, CellProps.extent, CellProps.height]
  omega

theorem originRow?_eq (wf : d.WellFormed) (hg : d.kind? g = some .rowGroup) {r : Nat} {c : NodeId}
    (h : Stored (d.rowsOf g) r c) : d.originRow? c = some r := by
  obtain ⟨row, hr, hc⟩ := stored_rowsOf.1 h
  rw [originRow?, wf.rowOf?_eq (wf.kind_row hg (List.mem_of_getElem? hr)) hc, Option.bind_some,
    wf.childIndex?_eq hr]

theorem topRow_eq (wf : d.WellFormed) (hg : d.kind? g = some .rowGroup) {r : Nat} {c : NodeId}
    (h : Stored (d.rowsOf g) r c) : d.topRow c = r := by
  rw [topRow, wf.originRow?_eq hg h, Option.getD_some]

/-- The height of a cell, cut at the end of the row group. -/
theorem effectiveRowSpan_eq (wf : d.WellFormed) (hg : d.kind? g = some .rowGroup) {r : Nat}
    {c : NodeId} (h : Stored (d.rowsOf g) r c) :
    d.effectiveRowSpan c = min (d.shape.height c) ((d.children g).length - r) := by
  obtain ⟨row, hr, hc⟩ := stored_rowsOf.1 h
  obtain ⟨props, hp⟩ := exists_cell? (wf.kind_stored hg h)
  have hrow := List.mem_of_getElem? hr
  have hlt : r < (d.children g).length := (List.getElem?_eq_some_iff.1 hr).1
  simp only [effectiveRowSpan, hp, wf.rowOf?_eq (wf.kind_row hg hrow) hc, wf.childIndex?_eq hr,
    wf.groupOf?_eq hg hrow, bind, Option.bind_some, pure, Option.getD_some, shape, extent_eq hp,
    CellProps.extent]
  omega

theorem coversRow_iff (wf : d.WellFormed) (hg : d.kind? g = some .rowGroup) {r i : Nat}
    {c row : NodeId} (h : Stored (d.rowsOf g) r c) (hi : (d.children g)[i]? = some row) :
    d.coversRow c row = true ↔ r ≤ i ∧ i < r + d.shape.height c := by
  have hlt : i < (d.children g).length := (List.getElem?_eq_some_iff.1 hi).1
  simp only [coversRow, wf.originRow?_eq hg h, wf.childIndex?_eq hi, wf.effectiveRowSpan_eq hg h,
    Bool.and_eq_true, decide_eq_true_eq]
  omega

theorem spannedCells_eq (wf : d.WellFormed) (hg : d.kind? g = some .rowGroup) {i : Nat}
    {row : NodeId} (hi : (d.children g)[i]? = some row) :
    d.spannedCells row = d.sortByColumn
      (((d.children g).take i).zipIdx.flatMap fun (above, r) =>
        (d.children above).filter fun cell =>
          (d.cell? cell).any fun props => i < r + props.height) := by
  rw [spannedCells, wf.groupOf?_eq hg (List.mem_of_getElem? hi), wf.childIndex?_eq hi]

theorem mem_spannedCells (wf : d.WellFormed) (hg : d.kind? g = some .rowGroup) {i : Nat}
    {row c : NodeId} (hi : (d.children g)[i]? = some row) :
    c ∈ d.spannedCells row ↔ ∃ r < i, Stored (d.rowsOf g) r c ∧ i < r + d.shape.height c := by
  rw [wf.spannedCells_eq hg hi, sortByColumn, (sortBy_perm _ _).mem_iff]
  simp only [List.mem_flatMap, List.mem_filter, Prod.exists, List.mem_zipIdx_iff_getElem?,
    List.getElem?_take]
  constructor
  · rintro ⟨above, r, hr, hc, hh⟩
    split at hr
    · next hlt =>
      refine ⟨r, hlt, stored_rowsOf.2 ⟨above, hr, hc⟩, ?_⟩
      obtain ⟨props, hp⟩ :=
        exists_cell? (wf.kind_cell (wf.kind_row hg (List.mem_of_getElem? hr)) hc)
      simpa [hp, shape, extent_eq hp, CellProps.extent] using hh
    · cases hr
  · rintro ⟨r, hlt, hs, hh⟩
    obtain ⟨above, hr, hc⟩ := stored_rowsOf.1 hs
    refine ⟨above, r, by rw [if_pos hlt, hr], hc, ?_⟩
    obtain ⟨props, hp⟩ := exists_cell? (wf.kind_stored hg hs)
    simpa [hp, shape, extent_eq hp, CellProps.extent] using hh

theorem mem_occupants (wf : d.WellFormed) (hg : d.kind? g = some .rowGroup) {i : Nat}
    {row c : NodeId} (hi : (d.children g)[i]? = some row) :
    c ∈ d.occupants row ↔ d.shape.Reaches (d.rowsOf g) i c := by
  rw [occupants, List.mem_append, wf.mem_spannedCells hg hi]
  constructor
  · rintro (hc | ⟨r, hlt, hs, hh⟩)
    · have hs : Stored (d.rowsOf g) i c := stored_rowsOf.2 ⟨row, hi, hc⟩
      have := wf.height_pos hg hs
      exact ⟨i, hs, le_rfl, by omega⟩
    · exact ⟨r, hs, hlt.le, hh⟩
  · rintro ⟨r, hs, hle, hh⟩
    rcases Nat.lt_or_eq_of_le hle with hlt | rfl
    · exact .inr ⟨r, hlt, hs, hh⟩
    · obtain ⟨row', hr, hc⟩ := stored_rowsOf.1 hs
      rw [hi, Option.some.injEq] at hr
      exact .inl (hr ▸ hc)

theorem nodup_spannedCells (wf : d.WellFormed) (row : NodeId) : (d.spannedCells row).Nodup := by
  unfold spannedCells
  split
  · next g i _ _ =>
    rw [sortByColumn, (sortBy_perm _ _).nodup_iff]
    refine List.nodup_flatMap.2 ⟨fun _ _ => (wf.nodup _).filter _, ?_⟩
    have firsts : (((d.children g).take i).zipIdx.map Prod.fst).Nodup := by
      rw [List.zipIdx_map_fst]
      exact (wf.nodup g).sublist (List.take_sublist _ _)
    refine (List.pairwise_map.1 firsts).imp fun hne c hp hq => hne ?_
    exact wf.parent_unique (List.mem_filter.1 hp).1 (List.mem_filter.1 hq).1
  · exact List.nodup_nil

theorem nodup_occupants (wf : d.WellFormed) (hg : d.kind? g = some .rowGroup) {i : Nat}
    {row : NodeId} (hi : (d.children g)[i]? = some row) : (d.occupants row).Nodup := by
  refine List.Nodup.append (wf.nodup _) (wf.nodup_spannedCells _) fun c hc hs => ?_
  obtain ⟨r, hlt, hs, -⟩ := (wf.mem_spannedCells hg hi).1 hs
  exact hlt.ne (hs.row_unique (wf.nodup_rowsOf g) (stored_rowsOf.2 ⟨row, hi, hc⟩))

end Group

end WellFormed

/-! ## Columns -/

theorem start_eq {c : NodeId} {j : Nat} (h : d.columnIndex? c = some j) : d.shape.start c = j := by
  simp [shape, h]

theorem columnRange?_eq {c : NodeId} {j : Nat} (h : d.columnIndex? c = some j) :
    d.columnRange? c = some ⟨j, j + d.shape.width c - 1⟩ := by
  unfold columnIndex? at h
  obtain ⟨props, hp, hj⟩ := Option.bind_eq_some_iff.1 h
  simp [columnRange?, hp, hj, shape, extent_eq hp, CellProps.extent]

theorem columnRange?_isSome {c : NodeId} :
    (d.columnRange? c).isSome ↔ (d.columnIndex? c).isSome := by
  unfold columnRange? columnIndex?
  cases d.cell? c <;> simp

theorem covers_iff {c : NodeId} (h : (d.columnIndex? c).isSome) (hw : 0 < d.shape.width c)
    (j : Nat) : d.covers j c = true ↔ d.shape.Spans j c := by
  obtain ⟨first, hf⟩ := Option.isSome_iff_exists.1 h
  simp only [covers, columnRange?_eq hf, Option.any_some, ColumnRange.covers, Bool.and_eq_true,
    decide_eq_true_eq, Shape.Spans, start_eq hf]
  omega

end Document

end RichTable
