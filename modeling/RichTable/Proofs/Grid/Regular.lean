import Mathlib
import RichTable.Edit.Row
import RichTable.Proofs.Grid.Place

/-!
# Regular tables

`gridFault?` sorts the column ranges of a row and follows them from left to right. It finds no fault
exactly if every column is counted once, so a settled table without a fault is tiled and conversely
(`WellFormed.gridFault?_eq_none_iff`). A `Regular` table is settled and tiled, and has no spans of
zero.

The converse direction is how every edit ends: whoever has a tiling at hand, with whatever columns,
may place the table (`WellFormed.tiled_placed`).
-/

namespace RichTable

/-! ## Sorted ranges -/

theorem pairwise_sortBy {α : Type} {le : α → α → Bool} (total : ∀ a b, le a b = false → le b a)
    (trans : ∀ a b c, le a b → le b c → le a c) (as : List α) :
    (sortBy le as).Pairwise (le · ·) := by
  have isTotal : Std.Total fun a b => le a b = true :=
    ⟨fun a b => (Bool.eq_false_or_eq_true (le a b)).imp id (total a b)⟩
  have isTrans : IsTrans α fun a b => le a b = true := ⟨trans⟩
  rw [sortBy_eq_insertionSort]
  exact List.pairwise_insertionSort (le · ·) as

theorem pairwise_sortedRanges (rs : List ColumnRange) :
    (sortBy ColumnRange.le rs).Pairwise fun r s => r.first ≤ s.first := by
  refine (pairwise_sortBy (fun r s => ?_) (fun r s u => ?_) rs).imp fun {r s} => ?_
  all_goals
    simp only [ColumnRange.le, Bool.or_eq_false_iff, Bool.or_eq_true, Bool.and_eq_true,
      decide_eq_true_eq, decide_eq_false_iff_not, Bool.and_eq_false_iff, beq_iff_eq, beq_eq_false_iff_ne]
    omega

theorem countP_covers_cons (r : ColumnRange) (rs : List ColumnRange) (j : Nat) :
    (r :: rs).countP (·.covers j) =
      rs.countP (·.covers j) + if r.first ≤ j ∧ j ≤ r.last then 1 else 0 := by
  simp only [List.countP_cons, ColumnRange.covers, Bool.and_eq_true, decide_eq_true_eq]

/-- Ranges that follow each other from `next` to `m` count every column between once. -/
theorem countP_of_followRanges {next m : Nat} {rs : List ColumnRange}
    (full : ∀ r ∈ rs, r.first ≤ r.last) (h : followRanges next rs = .ok m) :
    next ≤ m ∧ ∀ j, rs.countP (·.covers j) = if next ≤ j ∧ j < m then 1 else 0 := by
  induction rs generalizing next with
  | nil =>
    simp only [followRanges, Except.ok.injEq] at h
    exact ⟨h.le, fun j => by rw [List.countP_nil, if_neg (by omega)]⟩
  | cons r rs ih =>
    have hr := full r (by simp)
    simp only [followRanges] at h
    split at h
    · next e =>
      obtain ⟨hle, count⟩ := ih (fun s hs => full s (by simp [hs])) h
      refine ⟨by omega, fun j => ?_⟩
      rw [countP_covers_cons, count j]
      split_ifs <;> omega
    · cases h

/-- Ranges in order that count every column between `next` and `m` once, and no other, follow each
other. -/
theorem followRanges_of_countP {next m : Nat} {rs : List ColumnRange}
    (sorted : rs.Pairwise fun r s => r.first ≤ s.first) (full : ∀ r ∈ rs, r.first ≤ r.last)
    (hle : next ≤ m)
    (count : ∀ j, rs.countP (·.covers j) = if next ≤ j ∧ j < m then 1 else 0) :
    followRanges next rs = .ok m := by
  induction rs generalizing next with
  | nil =>
    have := count next
    rw [List.countP_nil] at this
    split_ifs at this with h
    rw [followRanges, show next = m by omega]
  | cons r rs ih =>
    obtain ⟨hfirst, hsorted⟩ := List.pairwise_cons.1 sorted
    have hr := full r (by simp)
    have bound : ∀ j, r.first ≤ j → j ≤ r.last → next ≤ j ∧ j < m := fun j h₁ h₂ => by
      have := count j
      rw [countP_covers_cons, if_pos ⟨h₁, h₂⟩] at this
      split_ifs at this with h
      exact h
    have hstart : r.first = next := by
      -- Column `next` is covered, and not by a range behind `r`.
      refine Nat.le_antisymm ?_ (bound r.first le_rfl hr).1
      have := bound r.last hr le_rfl
      have one := count next
      rw [if_pos (by omega)] at one
      obtain ⟨s, hs, hcov⟩ := List.countP_pos_iff.1 (show 0 < _ by rw [one]; exact Nat.one_pos)
      simp only [ColumnRange.covers, Bool.and_eq_true, decide_eq_true_eq] at hcov
      rcases List.mem_cons.1 hs with rfl | hs
      · exact hcov.1
      · exact (hfirst s hs).trans hcov.1
    rw [followRanges, if_pos hstart]
    refine ih hsorted (fun s hs => full s (by simp [hs])) (bound r.last hr le_rfl).2 fun j => ?_
    have := count j
    rw [countP_covers_cons] at this
    have := (bound r.last hr le_rfl).2
    split_ifs at * <;> omega

/-- In a list without repetition a property is counted once if one element has it. -/
theorem countP_eq_one_iff {α : Type} {l : List α} (h : l.Nodup) {p : α → Bool} :
    l.countP p = 1 ↔ ∃ c, ∀ x, x ∈ l ∧ p x ↔ x = c := by
  rw [List.countP_eq_length_filter, List.length_eq_one_iff]
  refine exists_congr fun c => ?_
  simp only [← List.mem_filter, ← List.mem_singleton (b := c)]
  constructor
  · intro e x
    rw [e]
  · intro e
    have perm := (List.perm_ext_iff_of_nodup (h.filter p) (List.nodup_singleton c)).2 e
    exact List.perm_singleton.1 perm

namespace Document

open Placement

variable {L : Type} {d : Document L} {t g : NodeId} {n : Nat}

/-! ## Faults -/

theorem followRanges_sortedRanges (cells : List NodeId) :
    followRanges 0 (d.sortedRanges cells) = .ok n ↔
      ∀ j, cells.countP (d.covers j) = if j < n then 1 else 0 := by
  have full : ∀ r ∈ d.sortedRanges cells, r.first ≤ r.last := fun r hr => by
    obtain ⟨c, -, hc⟩ := List.mem_filterMap.1 ((sortBy_perm _ _).mem_iff.1 hr)
    have placed := columnRange?_isSome.1 (Option.isSome_of_eq_some hc)
    obtain ⟨props, hp, hj⟩ := Option.bind_eq_some_iff.1 hc
    obtain ⟨j, -, rfl⟩ := Option.map_eq_some_iff.1 hj
    simp only [CellProps.width]
    omega
  have count : ∀ j, (d.sortedRanges cells).countP (·.covers j) = cells.countP (d.covers j) :=
    fun j => by
      rw [sortedRanges, (sortBy_perm _ _).countP_eq, List.countP_filterMap]
      refine List.countP_congr fun c _ => ?_
      unfold covers
      cases d.columnRange? c <;> rfl
  simp only [← count]
  constructor
  · intro h
    simpa using (countP_of_followRanges full h).2
  · intro h
    exact followRanges_of_countP (pairwise_sortedRanges _) full (Nat.zero_le _) (by simpa using h)

theorem rowFault?_eq_none {count group index : Nat} {row : NodeId} :
    d.rowFault? count group index row = none ↔
      (∀ c ∈ d.occupants row, (d.columnIndex? c).isSome) ∧
        ∀ j, (d.occupants row).countP (d.covers j) = if j < count then 1 else 0 := by
  rw [← followRanges_sortedRanges]
  unfold rowFault? unplaced?
  split
  · next c hc =>
    have hnone := List.find?_some hc
    refine iff_of_false (by simp) fun h => ?_
    rw [Option.isNone_iff_eq_none] at hnone
    have := columnRange?_isSome.2 (h.1 c (List.mem_of_find?_eq_some hc))
    simp [hnone] at this
  · next hnone =>
    have placed : ∀ c ∈ d.occupants row, (d.columnIndex? c).isSome := fun c hc => by
      rw [← columnRange?_isSome, ← Option.ne_none_iff_isSome]
      simpa using List.find?_eq_none.1 hnone c hc
    rw [and_iff_right placed]
    cases followRanges 0 (d.sortedRanges (d.occupants row)) with
    | error e =>
      obtain ⟨r, next⟩ := e
      dsimp only
      split_ifs <;> simp
    | ok width => simp

theorem gridFault?_eq_none : d.gridFault? t = none ↔
    ∀ g ∈ d.children t, ∀ row ∈ d.children g,
      (∀ c ∈ d.occupants row, (d.columnIndex? c).isSome) ∧
        ∀ j, (d.occupants row).countP (d.covers j) = if j < d.columnCount t then 1 else 0 := by
  simp only [gridFault?, List.findSome?_eq_none_iff, rowFault?_eq_none, Prod.forall]
  constructor
  · intro h g hg row hr
    obtain ⟨i, hi⟩ := List.getElem?_of_mem hg
    obtain ⟨k, hk⟩ := List.getElem?_of_mem hr
    exact h g i (List.mem_zipIdx_iff_getElem?.2 hi) row k (List.mem_zipIdx_iff_getElem?.2 hk)
  · intro h g i hg row k hr
    exact h g (List.mem_of_getElem? (List.mem_zipIdx_iff_getElem?.1 hg)) row
      (List.mem_of_getElem? (List.mem_zipIdx_iff_getElem?.1 hr))

/-! ## Tilings -/

theorem WellFormed.occupies_iff (wf : d.WellFormed) (hg : d.kind? g = some .rowGroup)
    (placed : ∀ {r c}, Stored (d.rowsOf g) r c → (d.columnIndex? c).isSome) {i j : Nat}
    {row c : NodeId} (hi : (d.children g)[i]? = some row) :
    c ∈ d.occupants row ∧ d.covers j c = true ↔
      d.shape.Reaches (d.rowsOf g) i c ∧ d.shape.Spans j c := by
  rw [wf.mem_occupants hg hi]
  refine and_congr_right fun ⟨r, hs, _⟩ => ?_
  exact covers_iff (placed hs) (wf.width_pos hg hs) j

theorem WellFormed.countP_of_tiling (wf : d.WellFormed) (hg : d.kind? g = some .rowGroup)
    (placed : ∀ {r c}, Stored (d.rowsOf g) r c → (d.columnIndex? c).isSome)
    (tiling : Tiling n d.shape (d.rowsOf g)) {row : NodeId} (hr : row ∈ d.children g) (j : Nat) :
    (d.occupants row).countP (d.covers j) = if j < n then 1 else 0 := by
  obtain ⟨i, hi⟩ := List.getElem?_of_mem hr
  have hlt := lt_length_rowsOf hi
  have covers := fun {c} => wf.occupies_iff hg placed hi (j := j) (c := c)
  split
  · next hj =>
    obtain ⟨c, hc⟩ := tiling.covered hlt hj
    refine (countP_eq_one_iff (wf.nodup_occupants hg hi)).2 ⟨c, fun x => ?_⟩
    rw [covers]
    constructor
    · exact fun h => tiling.disjoint hlt h.1 h.2 hc.1 hc.2
    · rintro rfl
      exact hc
  · next hj =>
    refine List.countP_eq_zero.2 fun c hc h => hj ?_
    obtain ⟨⟨r, hs, -⟩, hspan⟩ := covers.1 ⟨hc, h⟩
    have := tiling.within hs
    exact Nat.lt_of_lt_of_le hspan.2 this

theorem WellFormed.tiling_of_countP (wf : d.WellFormed) (hg : d.kind? g = some .rowGroup)
    (placed : ∀ {r c}, Stored (d.rowsOf g) r c → (d.columnIndex? c).isSome)
    (ordered : ∀ row ∈ d.rowsOf g, row.Pairwise fun b c =>
      d.shape.start b + d.shape.width b ≤ d.shape.start c)
    (count : ∀ row ∈ d.children g, ∀ j,
      (d.occupants row).countP (d.covers j) = if j < n then 1 else 0) :
    Tiling n d.shape (d.rowsOf g) := by
  have covers : ∀ {i j row c}, (d.children g)[i]? = some row →
      (c ∈ d.occupants row ∧ d.covers j c = true ↔
        d.shape.Reaches (d.rowsOf g) i c ∧ d.shape.Spans j c) := wf.occupies_iff hg placed
  have rowAt : ∀ {i}, i < (d.rowsOf g).length → ∃ row, (d.children g)[i]? = some row := fun {i} hi =>
    ⟨_, List.getElem?_eq_getElem (by simpa using hi)⟩
  refine ⟨wf.nodup_rowsOf g, wf.width_pos hg, wf.height_pos hg, fun {r c} hs => ?_, ordered,
    fun {i j} hi hj => ?_, fun {i j b c} hi hb hbj hc hcj => ?_⟩
  · obtain ⟨row, hr, -⟩ := stored_rowsOf.1 hs
    have hw := wf.width_pos hg hs
    have hh := wf.height_pos hg hs
    have last := (covers hr (c := c) (j := d.shape.start c + d.shape.width c - 1)).2
      ⟨⟨r, hs, le_rfl, by omega⟩, by omega, by omega⟩
    have pos := List.countP_pos_iff.2 ⟨c, last.1, last.2⟩
    rw [count row (List.mem_of_getElem? hr)] at pos
    split_ifs at pos <;> omega
  · obtain ⟨row, hr⟩ := rowAt hi
    have one := count row (List.mem_of_getElem? hr) j
    rw [if_pos hj] at one
    obtain ⟨c, hc⟩ := (countP_eq_one_iff (wf.nodup_occupants hg hr)).1 one
    exact ⟨c, (covers hr).1 ((hc c).2 rfl)⟩
  · obtain ⟨row, hr⟩ := rowAt hi
    have hb := (covers hr).2 ⟨hb, hbj⟩
    have hc := (covers hr).2 ⟨hc, hcj⟩
    have one := count row (List.mem_of_getElem? hr) j
    have pos := List.countP_pos_iff.2 ⟨b, hb⟩
    split_ifs at one
    · obtain ⟨x, hx⟩ := (countP_eq_one_iff (wf.nodup_occupants hg hr)).1 one
      exact ((hx b).1 hb).trans ((hx c).1 hc).symm
    · omega

/-- Every row group of the table is tiled by its cells. -/
def Tiled (d : Document L) (t : NodeId) : Prop :=
  ∀ g ∈ d.children t, Tiling (d.columnCount t) d.shape (d.rowsOf g)

/-- A settled table has no fault exactly if it is tiled. -/
theorem WellFormed.gridFault?_eq_none_iff (wf : d.WellFormed) (ht : d.kind? t = some .table)
    (settled : d.Settled t) : d.gridFault? t = none ↔ d.Tiled t := by
  obtain ⟨placed, columns, -⟩ := (wf.settled_iff ht).1 settled
  have stored : ∀ {g}, g ∈ d.children t → ∀ {r c}, Stored (d.rowsOf g) r c →
      (d.columnIndex? c).isSome := fun hg _ _ hs => placed _ (mem_tableCells.2 ⟨_, hg, _, hs⟩)
  rw [gridFault?_eq_none]
  refine forall₂_congr fun g hg => ⟨fun h => ?_, fun h row hr => ⟨fun c hc => ?_, fun j => ?_⟩⟩
  · exact wf.tiling_of_countP (wf.kind_group ht hg) (stored hg)
      (pairwise_of_groupStarts_eq (columns g hg)) fun row hr => (h row hr).2
  · obtain ⟨i, hi⟩ := List.getElem?_of_mem hr
    obtain ⟨r, hs, -⟩ := (wf.mem_occupants (wf.kind_group ht hg) hi).1 hc
    exact stored hg hs
  · exact wf.countP_of_tiling (wf.kind_group ht hg) (stored hg) h hr j

/-- The table is settled and tiled, and no span of its cells is zero. -/
structure Regular (d : Document L) (t : NodeId) : Prop where
  wf : d.WellFormed
  kind : d.kind? t = some .table
  settled : d.Settled t
  tiled : d.Tiled t
  spans : ∀ c ∈ d.tableCells t, ∀ props, d.cell? c = some props →
    1 ≤ props.columnSpan ∧ 1 ≤ props.rowSpan

/-! ## Placing a tiled table -/

theorem columns_of_tiling {s : NodeId → Nat}
    (h : ∀ g ∈ d.children t, Tiling n ⟨s, d.shape.width, d.shape.height⟩ (d.rowsOf g)) :
    d.Columns t s :=
  fun g hg => (h g hg).groupStarts_eq

/-- A table with a row needs the columns of its tiling. -/
theorem tableWidth_of_tiling {s : NodeId → Nat}
    (h : ∀ g ∈ d.children t, Tiling n ⟨s, d.shape.width, d.shape.height⟩ (d.rowsOf g))
    (row : d.tableRows t ≠ []) : tableWidth (d.extents t) = n := by
  have width : ∀ g ∈ d.children t, d.children g ≠ [] →
      groupWidth [] ((d.rowsOf g).map (·.map d.extent)) = n :=
    fun g hg hne => (h g hg).groupWidth_eq (by simpa [rowsOf] using hne)
  have fold : ∀ (gs : List NodeId) (w : Nat), (∀ g ∈ gs, g ∈ d.children t) → w ≤ n →
      (w = n ∨ ∃ g ∈ gs, d.children g ≠ []) →
      (gs.map fun g => ((d.rowsOf g).map (·.map d.extent))).foldl
        (fun w group => max w (groupWidth [] group)) w = n := by
    intro gs
    induction gs with
    | nil => exact fun w _ _ hw => by simpa using hw
    | cons g gs ih =>
      intro w hmem hle hw
      rw [List.map_cons, List.foldl_cons]
      by_cases hg : d.children g = []
      · have hzero : groupWidth [] ((d.rowsOf g).map (·.map d.extent)) = 0 := by
          simp [rowsOf, hg, groupWidth]
        rw [hzero, Nat.max_zero]
        refine ih w (fun x hx => hmem x (by simp [hx])) hle (hw.imp_right ?_)
        rintro ⟨x, hx, hne⟩
        rcases List.mem_cons.1 hx with rfl | hx
        · exact absurd hg hne
        · exact ⟨x, hx, hne⟩
      · rw [width g (hmem g (by simp)) hg, Nat.max_eq_right hle]
        exact ih n (fun x hx => hmem x (by simp [hx])) le_rfl (.inl rfl)
  obtain ⟨r, hr⟩ := List.exists_mem_of_ne_nil _ row
  obtain ⟨g, hg, hrg⟩ := List.mem_flatMap.1 hr
  have extents : d.extents t = (d.children t).map fun g => (d.rowsOf g).map (·.map d.extent) := by
    simp [extents, cellGrid, rowsOf]
  rw [tableWidth, extents]
  exact fold _ 0 (fun _ => id) (Nat.zero_le _) (.inr ⟨g, hg, List.ne_nil_of_mem hrg⟩)

theorem WellFormed.shape_placed (wf : d.WellFormed) (ht : d.kind? t = some .table)
    {s : NodeId → Nat} (hs : d.Columns t s) :
    (d.placed t).shape.width = d.shape.width ∧ (d.placed t).shape.height = d.shape.height ∧
      ∀ c ∈ d.tableCells t, (d.placed t).shape.start c = s c :=
  ⟨funext fun c => by simp [shape, wf.extent_placed], funext fun c => by
    simp [shape, wf.extent_placed], fun _ hc => start_eq (wf.columnIndex?_placed ht hs hc)⟩

/-- Placing a table finds the tiling there is. -/
theorem WellFormed.tiled_placed (wf : d.WellFormed) (ht : d.kind? t = some .table)
    {s : NodeId → Nat}
    (h : ∀ g ∈ d.children t, Tiling n ⟨s, d.shape.width, d.shape.height⟩ (d.rowsOf g)) :
    (d.placed t).Tiled t := by
  have same := wf.sameTree_placed t
  obtain ⟨hw, hh, hst⟩ := wf.shape_placed ht (columns_of_tiling h)
  intro g hg
  rw [same.children] at hg
  rw [same.rowsOf]
  have eq : ∀ {r c}, Stored (d.rowsOf g) r c → (d.placed t).shape.start c = s c := fun hs =>
    hst _ (mem_tableCells.2 ⟨g, hg, _, hs⟩)
  have tiling := (h g hg).congr eq (fun _ => congrFun hw _) fun _ => congrFun hh _
  by_cases hne : d.children g = []
  · rw [show d.rowsOf g = [] by simp [rowsOf, hne]]
    exact .nil
  · have row : d.tableRows t ≠ [] := fun e => hne (List.flatMap_eq_nil_iff.1 e g hg)
    rwa [wf.columnCount_placed ht, tableWidth_of_tiling h row]

/-! ## Questions about a regular table -/

theorem exists_group_of_mem_tableRows {row : NodeId} (h : row ∈ d.tableRows t) :
    ∃ g ∈ d.children t, ∃ i : Nat, (d.children g)[i]? = some row := by
  obtain ⟨g, hg, hr⟩ := List.mem_flatMap.1 h
  obtain ⟨i, hi⟩ := List.getElem?_of_mem hr
  exact ⟨g, hg, i, hi⟩

theorem WellFormed.kind_tableRows (wf : d.WellFormed) (ht : d.kind? t = some .table) {row : NodeId}
    (h : row ∈ d.tableRows t) : d.kind? row = some .row := by
  obtain ⟨g, hg, hr⟩ := List.mem_flatMap.1 h
  exact wf.kind_row (wf.kind_group ht hg) hr

theorem WellFormed.kind_tableCells (wf : d.WellFormed) (ht : d.kind? t = some .table) {c : NodeId}
    (h : c ∈ d.tableCells t) : d.kind? c = some .cell := by
  obtain ⟨row, hr, hc⟩ := List.mem_flatMap.1 h
  exact wf.kind_cell (wf.kind_tableRows ht hr) hc

/-- A table without rows needs no columns. -/
theorem tableWidth_of_no_rows (h : d.tableRows t = []) : tableWidth (d.extents t) = 0 := by
  have empty : ∀ g ∈ d.children t, d.children g = [] := List.flatMap_eq_nil_iff.1 h
  have fold : ∀ gs : List NodeId, (∀ g ∈ gs, d.children g = []) →
      (gs.map fun g => ((d.rowsOf g).map (·.map d.extent))).foldl
        (fun w group => max w (groupWidth [] group)) 0 = 0 := by
    intro gs
    induction gs with
    | nil => exact fun _ => rfl
    | cons g gs ih =>
      intro hgs
      have hzero : groupWidth [] ((d.rowsOf g).map (·.map d.extent)) = 0 := by
        simp [rowsOf, hgs g (by simp), groupWidth]
      rw [List.map_cons, List.foldl_cons, hzero]
      exact ih fun x hx => hgs x (by simp [hx])
  simpa [tableWidth, extents, cellGrid, rowsOf, Function.comp_def] using fold _ empty

/-- The table is settled, whether or not it is tiled, and no span of its cells is zero. -/
structure Steady (d : Document L) (t : NodeId) : Prop where
  wf : d.WellFormed
  kind : d.kind? t = some .table
  settled : d.Settled t
  spans : ∀ c ∈ d.tableCells t, ∀ props, d.cell? c = some props →
    1 ≤ props.columnSpan ∧ 1 ≤ props.rowSpan

theorem Regular.steady (reg : d.Regular t) : d.Steady t :=
  ⟨reg.wf, reg.kind, reg.settled, reg.spans⟩

namespace Steady

variable (steady : d.Steady t)

include steady

theorem placed {c : NodeId} (hc : c ∈ d.tableCells t) : (d.columnIndex? c).isSome :=
  ((steady.wf.settled_iff steady.kind).1 steady.settled).1 c hc

/-- With spans that are not zero, the shape of a cell is what it carries. -/
theorem shape_eq {c : NodeId} (hc : c ∈ d.tableCells t) {props : CellProps L}
    (hp : d.cell? c = some props) :
    d.shape.width c = props.columnSpan ∧ d.shape.height c = props.rowSpan := by
  have := steady.spans c hc props hp
  simp only [shape, extent_eq hp, CellProps.extent, CellProps.width, CellProps.height]
  omega

theorem covers_iff {c : NodeId} (hc : c ∈ d.tableCells t) (j : Nat) :
    d.covers j c = true ↔ d.shape.Spans j c := by
  obtain ⟨g, hg, r, hs⟩ := mem_tableCells.1 hc
  exact Document.covers_iff (steady.placed hc)
    (steady.wf.width_pos (steady.wf.kind_group steady.kind hg) hs) j

/-- Cells of one row do not overlap, since they are placed from left to right. -/
theorem spans_unique {row b c : NodeId} (hr : row ∈ d.tableRows t) (hb : b ∈ d.children row)
    (hc : c ∈ d.children row) {j : Nat} (hbj : d.shape.Spans j b) (hcj : d.shape.Spans j c) :
    b = c := by
  obtain ⟨g, hg, hr⟩ := List.mem_flatMap.1 hr
  have columns := ((steady.wf.settled_iff steady.kind).1 steady.settled).2.1 g hg
  have ordered := pairwise_of_groupStarts_eq (a := d.shape) columns (d.children row)
    (List.mem_map_of_mem hr)
  obtain ⟨i, hi, rfl⟩ := List.getElem_of_mem hb
  obtain ⟨j, hj, rfl⟩ := List.getElem_of_mem hc
  rw [List.pairwise_iff_getElem] at ordered
  unfold Shape.Spans at hbj hcj
  rcases Nat.lt_trichotomy i j with lt | rfl | lt
  · have := ordered i j hi hj lt
    omega
  · rfl
  · have := ordered j i hj hi lt
    omega

theorem storedCell?_eq_some {row : NodeId} (hr : row ∈ d.tableRows t) {j : Nat} {c : NodeId} :
    d.storedCell? row j = some c ↔ c ∈ d.children row ∧ d.shape.Spans j c := by
  have covers : ∀ {c}, c ∈ d.children row → (d.covers j c = true ↔ d.shape.Spans j c) := fun hc =>
    steady.covers_iff (List.mem_flatMap.2 ⟨row, hr, hc⟩) j
  constructor
  · intro h
    have hc := List.mem_of_find?_eq_some h
    exact ⟨hc, (covers hc).1 (List.find?_some h)⟩
  · rintro ⟨hc, hcj⟩
    cases h : d.storedCell? row j with
    | none => exact absurd ((covers hc).2 hcj) (List.find?_eq_none.1 h c hc)
    | some b =>
      have hb := List.mem_of_find?_eq_some h
      rw [steady.spans_unique hr hb hc ((covers hb).1 (List.find?_some h)) hcj]

theorem storedCell?_eq_none {row : NodeId} (hr : row ∈ d.tableRows t) {j : Nat} :
    d.storedCell? row j = none ↔ ∀ c ∈ d.children row, ¬ d.shape.Spans j c := by
  rw [storedCell?, List.find?_eq_none]
  refine forall₂_congr fun c hc => ?_
  rw [steady.covers_iff (List.mem_flatMap.2 ⟨row, hr, hc⟩)]

end Steady

namespace Regular

theorem tableRows_ne_nil (reg : d.Regular t) (hn : 0 < d.columnCount t) : d.tableRows t ≠ [] := by
  intro h
  rw [((reg.wf.settled_iff reg.kind).1 reg.settled).2.2, tableWidth_of_no_rows h] at hn
  exact Nat.lt_irrefl 0 hn

/-- A table has columns exactly if it has cells. -/
theorem columnCount_pos_iff (reg : d.Regular t) :
    0 < d.columnCount t ↔ d.tableCells t ≠ [] := by
  constructor
  · intro pos
    obtain ⟨row, hr⟩ := List.exists_mem_of_ne_nil _ (reg.tableRows_ne_nil pos)
    obtain ⟨g, hg, i, hi⟩ := exists_group_of_mem_tableRows hr
    obtain ⟨c, ⟨r, hs, -⟩, -⟩ := (reg.tiled g hg).covered (lt_length_rowsOf hi) pos
    exact List.ne_nil_of_mem (mem_tableCells.2 ⟨g, hg, r, hs⟩)
  · intro cells
    obtain ⟨c, hc⟩ := List.exists_mem_of_ne_nil _ cells
    obtain ⟨g, hg, r, hs⟩ := mem_tableCells.1 hc
    have wide := (reg.tiled g hg).width_pos hs
    have within := (reg.tiled g hg).within hs
    omega

theorem placed (reg : d.Regular t) {c : NodeId} (hc : c ∈ d.tableCells t) :
    (d.columnIndex? c).isSome := reg.steady.placed hc

theorem kind_group (reg : d.Regular t) (hg : g ∈ d.children t) : d.kind? g = some .rowGroup :=
  reg.wf.kind_group reg.kind hg

theorem columnIndex?_eq (reg : d.Regular t) {c : NodeId} (hc : c ∈ d.tableCells t) :
    d.columnIndex? c = some (d.shape.start c) := by
  obtain ⟨j, hj⟩ := Option.isSome_iff_exists.1 (reg.placed hc)
  rw [hj, start_eq hj]

/-- Sorted by column, the cells that occupy a row stand side by side. -/
theorem pairwise_occupants (reg : d.Regular t) (hg : g ∈ d.children t) {row : NodeId} {i : Nat}
    (hi : (d.children g)[i]? = some row) :
    (d.sortByColumn (d.occupants row)).Pairwise
      fun b c => d.shape.start b + d.shape.width b ≤ d.shape.start c := by
  have perm := sortBy_perm (fun a b => missingFirstLE (d.columnIndex? a) (d.columnIndex? b))
    (d.occupants row)
  have reaches : ∀ {c}, c ∈ d.sortByColumn (d.occupants row) → d.shape.Reaches (d.rowsOf g) i c :=
    fun hc => (reg.wf.mem_occupants (reg.kind_group hg) hi).1 (perm.mem_iff.1 hc)
  have nodup : (d.sortByColumn (d.occupants row)).Nodup :=
    perm.nodup_iff.2 (reg.wf.nodup_occupants (reg.kind_group hg) hi)
  have sorted : (d.sortByColumn (d.occupants row)).Pairwise
      fun b c => missingFirstLE (d.columnIndex? b) (d.columnIndex? c) = true := by
    refine pairwise_sortBy (fun a b => ?_) (fun a b c => ?_) _
    · cases d.columnIndex? a <;> cases d.columnIndex? b <;> simp [missingFirstLE]
      omega
    · cases d.columnIndex? a <;> cases d.columnIndex? b <;> cases d.columnIndex? c <;>
        simp [missingFirstLE]
      omega
  refine (nodup.and sorted).imp_of_mem fun {b c} hb hc ⟨hne, hle⟩ => ?_
  obtain ⟨r, hs, -⟩ := reaches hb
  obtain ⟨r', hs', -⟩ := reaches hc
  have hbt := mem_tableCells.2 ⟨g, hg, r, hs⟩
  have hct := mem_tableCells.2 ⟨g, hg, r', hs'⟩
  rw [reg.columnIndex?_eq hbt, reg.columnIndex?_eq hct, missingFirstLE, decide_eq_true_eq] at hle
  have hw := reg.wf.width_pos (reg.kind_group hg) hs'
  by_contra hlt
  -- otherwise both would occupy the first column of `c`
  have hrow := lt_length_rowsOf hi
  exact hne ((reg.tiled g hg).disjoint hrow (reaches hb) ⟨hle, Nat.lt_of_not_le hlt⟩ (reaches hc)
    ⟨le_rfl, Nat.lt_add_of_pos_right hw⟩)

end Regular

end Document

end RichTable
