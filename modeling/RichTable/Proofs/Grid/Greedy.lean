import Mathlib
import RichTable.Proofs.Grid.Settle
import RichTable.Proofs.Grid.Widest
import RichTable.Proofs.Tree.Calls

/-!
# Greedy placement decides tileability

Placement looks only at the first column of each cell, and at a countdown for every column that later
cells overwrite. Still it finds the tiling of a table if there is one: `TilesGrid` says, without
mentioning how columns are found, that given first columns cover every place of the grid exactly once,
and a table passes the check after being placed exactly if it has such columns. They are unique, and
placement writes them.

To see which cells reach a row and where they end, the check adds indices and spans. The sums are those
of machine words as long as they fit (`FitsWords`).
-/

namespace RichTable.Document

variable {L : Type} {d : Document L} {t g : NodeId} {n : Nat} {s : NodeId → Nat}

/-- The cell `c` occupies row `i` of the group `g`: it is stored in this row, or in an earlier one and
its row span reaches down to it. -/
def Occupies (d : Document L) (g : NodeId) (i : Nat) (c : NodeId) : Prop :=
  ∃ r row, r ≤ i ∧ (d.children g)[r]? = some row ∧ c ∈ d.children row ∧ i < r + (d.extent c).height

/-- With its cells at the first columns `s`, a table covers each of `n` columns exactly once in every
row of every group, and nothing else. -/
structure TilesGrid (d : Document L) (t : NodeId) (n : Nat) (s : NodeId → Nat) : Prop where
  leftToRight : ∀ g ∈ d.children t, ∀ row ∈ d.children g,
    (d.children row).Pairwise fun b c => s b < s c
  once : ∀ g ∈ d.children t, ∀ i < (d.children g).length, ∀ j < n,
    ∃! c, d.Occupies g i c ∧ s c ≤ j ∧ j < s c + (d.extent c).width
  beyond : ∀ g ∈ d.children t, ∀ i < (d.children g).length, ∀ j ≥ n,
    ∀ c, d.Occupies g i c → ¬ (s c ≤ j ∧ j < s c + (d.extent c).width)

theorem occupies_iff_reaches {i : Nat} {c : NodeId} :
    d.Occupies g i c ↔ Shape.Reaches ⟨s, d.shape.width, d.shape.height⟩ (d.rowsOf g) i c := by
  constructor
  · rintro ⟨r, row, hle, hrow, hc, hlt⟩
    exact ⟨r, stored_rowsOf.2 ⟨row, hrow, hc⟩, hle, hlt⟩
  · rintro ⟨r, hs, hle, hlt⟩
    obtain ⟨row, hrow, hc⟩ := stored_rowsOf.1 hs
    exact ⟨r, row, hle, hrow, hc, hlt⟩

/-- A stored cell occupies its own row. -/
theorem WellFormed.occupies_stored (wf : d.WellFormed) (hg : d.kind? g = some .rowGroup) {r : Nat}
    {c : NodeId} (h : Stored (d.rowsOf g) r c) : d.Occupies g r c := by
  have pos := wf.height_pos hg h
  obtain ⟨row, hrow, hc⟩ := stored_rowsOf.1 h
  exact ⟨r, row, le_rfl, hrow, hc, Nat.lt_add_of_pos_right pos⟩

namespace TilesGrid

/-- Cells that cover every place once, each row from left to right, make a tiling. -/
theorem tiling (h : d.TilesGrid t n s) (wf : d.WellFormed) (ht : d.kind? t = some .table)
    (hg : g ∈ d.children t) : Tiling n ⟨s, d.shape.width, d.shape.height⟩ (d.rowsOf g) := by
  have hk := wf.kind_group ht hg
  have within : ∀ {r c}, Stored (d.rowsOf g) r c → s c + d.shape.width c ≤ n := by
    intro r c hs
    by_contra hgt
    have pos := wf.width_pos hk hs
    have last := h.beyond g hg r (by simpa using hs.lt_length) (s c + d.shape.width c - 1) (by omega)
      c (wf.occupies_stored hk hs)
    apply last
    show s c ≤ _ ∧ _ < s c + d.shape.width c
    omega
  refine .of_unique (wf.nodup_rowsOf g) (fun hs => ⟨wf.width_pos hk hs, wf.height_pos hk hs⟩) within
    (fun row hrow => ?_) fun i hi j hj => ?_
  · obtain ⟨r, hr⟩ := List.getElem?_of_mem hrow
    obtain ⟨q, hq, rfl⟩ := List.mem_map.1 hrow
    have stored : ∀ c ∈ d.children q, Stored (d.rowsOf g) r c := fun c hc => ⟨_, hr, hc⟩
    refine (h.leftToRight g hg q hq).imp_of_mem fun {b c} hb hc hlt => ?_
    -- If `b` reached into the first column of `c`, both would cover this place.
    by_contra hover
    have pos := wf.width_pos hk (stored c hc)
    have end_le := within (stored c hc)
    obtain ⟨x, -, only⟩ := h.once g hg r (by simpa using (stored c hc).lt_length) (s c) (by omega)
    have hbx := only b ⟨wf.occupies_stored hk (stored b hb), hlt.le, Nat.lt_of_not_le hover⟩
    have hcx := only c ⟨wf.occupies_stored hk (stored c hc), le_rfl, Nat.lt_add_of_pos_right pos⟩
    rw [hbx, hcx] at hlt
    exact Nat.lt_irrefl _ hlt
  · obtain ⟨c, hc, only⟩ := h.once g hg i (by simpa using hi) j hj
    refine ⟨c, fun x => ⟨fun hx => only x ⟨occupies_iff_reaches.2 hx.1, hx.2⟩, ?_⟩⟩
    rintro rfl
    exact ⟨occupies_iff_reaches.1 hc.1, hc.2⟩

theorem of_tiling (h : ∀ g ∈ d.children t, Tiling n ⟨s, d.shape.width, d.shape.height⟩ (d.rowsOf g)) :
    d.TilesGrid t n s where
  leftToRight g hg row hr := by
    obtain ⟨r, hr'⟩ := List.getElem?_of_mem hr
    refine ((h g hg).ordered _ (List.mem_map_of_mem hr)).imp_of_mem fun {b c} hb _ hle => ?_
    have pos := (h g hg).width_pos (stored_rowsOf.2 ⟨row, hr', hb⟩)
    exact (Nat.lt_add_of_pos_right pos).trans_le hle
  once g hg i hi j hj := by
    obtain ⟨c, hc⟩ := (h g hg).unique (by simpa using hi) hj
    obtain ⟨reaches, spans⟩ := (hc c).2 rfl
    refine ⟨c, ⟨occupies_iff_reaches.2 reaches, spans⟩, fun x hx => ?_⟩
    exact (hc x).1 ⟨occupies_iff_reaches.1 hx.1, hx.2⟩
  beyond g hg i hi j hj c hc := by
    rintro ⟨-, hlt⟩
    obtain ⟨r, hs, -⟩ := (occupies_iff_reaches (s := s)).1 hc
    have end_le := (h g hg).within hs
    exact absurd (hlt.trans_le end_le) (Nat.not_lt.2 hj)

theorem columns (h : d.TilesGrid t n s) (wf : d.WellFormed) (ht : d.kind? t = some .table) :
    d.Columns t s :=
  columns_of_tiling fun _ hg => h.tiling wf ht hg

/-- The columns of a table that has rows are determined. -/
theorem tableWidth_eq (h : d.TilesGrid t n s) (wf : d.WellFormed) (ht : d.kind? t = some .table)
    (rows : d.tableRows t ≠ []) : Placement.tableWidth (d.extents t) = n :=
  tableWidth_of_tiling (fun _ hg => h.tiling wf ht hg) rows

end TilesGrid

/-- Once placed, a table has no fault exactly if it can be tiled. -/
theorem WellFormed.gridFault?_placed_iff (wf : d.WellFormed) (ht : d.kind? t = some .table) :
    (d.placed t).gridFault? t = none ↔ ∃ n s, d.TilesGrid t n s := by
  have same := wf.sameTree_placed t
  rw [(same.wellFormed wf).gridFault?_eq_none_iff ((same.kind t).trans ht) (wf.settled_placed ht)]
  constructor
  · intro tiled
    obtain ⟨s, hs⟩ := wf.exists_columns t
    obtain ⟨hw, hh, -⟩ := wf.shape_placed ht hs
    generalize d.placed t = e at same tiled hw hh
    refine ⟨e.columnCount t, e.shape.start, .of_tiling fun g hg => ?_⟩
    rw [← same.children] at hg
    have tiling := tiled g hg
    rw [same.rowsOf] at tiling
    rw [← hw, ← hh]
    exact tiling
  · rintro ⟨n, s, h⟩
    exact wf.tiled_placed ht fun g hg => h.tiling wf ht hg

theorem WellFormed.mem_tableCells_of_mem_occupants (wf : d.WellFormed)
    (ht : d.kind? t = some .table) {row c : NodeId} (hr : row ∈ d.tableRows t)
    (hc : c ∈ d.occupants row) : c ∈ d.tableCells t := by
  obtain ⟨g, hg, i, hi⟩ := exists_group_of_mem_tableRows hr
  obtain ⟨r, hs, -⟩ := (wf.mem_occupants (wf.kind_group ht hg) hi).1 hc
  exact mem_tableCells.2 ⟨g, hg, r, hs⟩

/-- Where every cell has a column, the two checks agree. -/
theorem WellFormed.isRegular_iff (wf : d.WellFormed) (ht : d.kind? t = some .table)
    (placed : ∀ c ∈ d.tableCells t, (d.columnIndex? c).isSome) :
    d.isRegular t = true ↔ d.gridFault? t = none := by
  -- Both say that the occupants of each row cover each of its columns once.
  trans ∀ r ∈ d.tableRows t, ∀ j, (d.occupants r).countP (d.covers j) =
    if j < d.columnCount t then 1 else 0
  · rw [isRegular, List.all_eq_true]
    refine forall₂_congr fun r _ => ?_
    rw [← followRanges_sortedRanges]
    cases followRanges 0 (d.sortedRanges (d.occupants r)) <;> simp
  rw [gridFault?_eq_none]
  constructor
  · intro h g hg r hr
    have hr := List.mem_flatMap.2 ⟨g, hg, hr⟩
    exact ⟨fun c hc => placed c (wf.mem_tableCells_of_mem_occupants ht hr hc), h r hr⟩
  · intro h r hr
    obtain ⟨g, hg, hrg⟩ := List.mem_flatMap.1 hr
    exact (h g hg r hrg).2

/-! ## Sums in machine words -/

/-- The table is small enough for machine words. For every cell with a row below it in its group, the
sum of row index and row span is a word. A list with eight bytes for every column takes up less than
half of the memory that words can address. -/
structure FitsWords (d : Document L) (t : NodeId) : Prop where
  rowSums : ∀ g ∈ d.children t, ∀ p ∈ (d.children g).dropLast.zipIdx, ∀ c ∈ d.children p.1,
    p.2 + (d.extent c).height < UInt64.size
  columns : 8 * Placement.tableWidth (d.extents t) < UInt64.size / 2

/-- The cells of earlier rows of the group whose row span reaches `row`, if the sum of row index and
row span is formed in a machine word. -/
def spannedCellsInWord (d : Document L) (row : NodeId) : List NodeId :=
  match d.groupOf? row, d.childIndex? row with
  | some group, some index =>
    d.sortByColumn <|
      ((d.children group).take index).zipIdx.flatMap fun (above, r) =>
        (d.children above).filter fun cell =>
          (d.cell? cell).any fun props =>
            index < (UInt64.ofNat r + UInt64.ofNat props.height).toNat
  | _, _ => []

/-- Which cells reach a row and where a cell ends is the same if the sums are formed in machine
words. -/
structure SumsInWords (d : Document L) (t : NodeId) : Prop where
  spanned : ∀ row ∈ d.tableRows t, d.spannedCellsInWord row = d.spannedCells row
  ends : ∀ c ∈ d.tableCells t, (UInt64.ofNat (d.shape.start c) + UInt64.ofNat (d.shape.width c)).toNat =
    d.shape.start c + d.shape.width c

theorem WellFormed.spannedCellsInWord_eq (wf : d.WellFormed) (hk : d.kind? g = some .rowGroup)
    (fits : ∀ p ∈ (d.children g).dropLast.zipIdx, ∀ c ∈ d.children p.1,
      p.2 + (d.extent c).height < UInt64.size) {row : NodeId} (hr : row ∈ d.children g) :
    d.spannedCellsInWord row = d.spannedCells row := by
  obtain ⟨i, hi⟩ := List.getElem?_of_mem hr
  have hlt := (List.getElem?_eq_some_iff.1 hi).1
  rw [wf.spannedCells_eq hk hi, spannedCellsInWord, wf.groupOf?_eq hk hr, wf.childIndex?_eq hi]
  dsimp only
  congr 1
  refine List.flatMap_congr ?_
  rintro ⟨above, r⟩ hp
  refine List.filter_congr fun c hc => ?_
  rw [List.mem_zipIdx_iff_getElem?, List.getElem?_take] at hp
  split_ifs at hp with hri
  have below : (above, r) ∈ (d.children g).dropLast.zipIdx := by
    rw [List.mem_zipIdx_iff_getElem?, List.dropLast_eq_take, List.getElem?_take,
      if_pos (by omega), hp]
  cases hprops : d.cell? c with
  | none => rfl
  | some props =>
    have fit : r + props.height < UInt64.size := by
      have := fits (above, r) below c hc
      rwa [extent_eq hprops] at this
    rw [Option.any_some, Option.any_some, ← UInt64.ofNat_add, UInt64.toNat_ofNat_of_lt' fit]

theorem FitsWords.sumsInWords (fits : d.FitsWords t) (wf : d.WellFormed)
    (ht : d.kind? t = some .table) : (d.placed t).SumsInWords t := by
  have same := wf.sameTree_placed t
  have wf' := same.wellFormed wf
  have ht' := (same.kind t).trans ht
  constructor
  · intro row hr
    obtain ⟨s, hs⟩ := wf.exists_columns t
    obtain ⟨g, hg, hrow⟩ := List.mem_flatMap.1 hr
    refine wf'.spannedCellsInWord_eq (wf'.kind_group ht' hg) (fun p hp c hc => ?_) hrow
    rw [same.children] at hg hp hc
    rw [(wf.laid_placed hs).extent_eq]
    exact fits.rowSums g hg p hp c hc
  · intro c hc
    obtain ⟨-, columns, count⟩ := (wf'.settled_iff ht').1 (wf.settled_placed ht)
    have stop := columns.end_le_tableWidth hc
    rw [← count, wf.columnCount_placed ht] at stop
    have wide := fits.columns
    rw [← UInt64.ofNat_add, UInt64.toNat_ofNat_of_lt' (by omega)]

-- The bound on row sums is sharp: here one of them is the number of words, and the sum wraps around.
example :
    let d : Document Int := Call.runAll [.buildTable .standard root { groups :=
      [[[{ text := "a" }], [{ text := "b", rowSpan := UInt64.size - 1 }], []]] }] .empty
    (d.tableRows 1).map d.spannedCells = [[], [], [8]] ∧
      (d.tableRows 1).map d.spannedCellsInWord = [[], [], []] := by
  decide +kernel

end RichTable.Document

namespace RichTable.Action

open Document

variable {L : Type} {d : Document L} {t : NodeId}

theorem place_run (wf : d.WellFormed) (ht : d.kind? t = some .table) :
    (place t).run.run d = (.ok (Placement.tableWidth (d.extents t)), d.placed t) := by
  obtain ⟨n, d', run, rfl, rfl⟩ :=
    (ensures_place (Q := fun n d' => n = Placement.tableWidth (d.extents t) ∧ d' = d.placed t)
      wf ht).2 ⟨rfl, rfl⟩
  exact run

theorem checkGrid_run_eq_ok {d' : Document L} :
    (checkGrid t).run.run d = (.ok (), d') ↔ d.gridFault? t = none ∧ d' = d := by
  have got : (get : Action L (Document L)).run.run d = (.ok d, d) := rfl
  unfold checkGrid
  rw [run_bind_eq, got]
  dsimp only
  cases d.gridFault? t with
  | none => exact ⟨fun h => ⟨rfl, (Prod.mk.inj h).2.symm⟩, fun h => by rw [h.2]; rfl⟩
  | some fault =>
    refine ⟨fun h => ?_, fun h => ?_⟩
    · cases (Prod.mk.inj h).1
    · cases h.1

/-- A cell as tall as a machine word can say, whose column span is zero, next to two cells, one below
the other. -/
def tallCell : Document Int :=
  Call.runAll [.buildTable .standard root
      { groups := [[[{ text := "a", rowSpan := UInt64.size - 1 }, { text := "b" }], [{ text := "c" }]]] },
    .changeCell 4 fun props => { props with columnSpan := 0 }] .empty

end RichTable.Action
