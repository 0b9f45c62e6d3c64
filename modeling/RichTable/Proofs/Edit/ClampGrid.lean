import Mathlib
import RichTable.Proofs.Edit.Clamp
import RichTable.Proofs.Grid.Greedy

/-!
# Cutting row spans does not show

Three parts of the library look at row spans in three ways. Placement counts them down row by row, the
cells that reach a row are found by comparing spans with indices, and `effectiveRowSpan` cuts them at
the end of the group. They agree that what a span asks for below the last row of its group does not
count. For placement this is a simulation: with `m` rows to go, cutting all spans to the rows that are
there cuts all counts to `m` (`coverBelow_clip`), also where cells overlap and overwrite each other's
counts. So `clampRowSpans` may come before or after placement, and nothing that can be asked about the
grid is answered differently (`clampRowSpans_invisible`).
-/

namespace RichTable

/-- An extent cut to `m` rows. -/
def Extent.clip (m : Nat) (e : Extent) : Extent := { e with height := min e.height m }

/-! ## Placing cells that have been cut -/

namespace Placement

variable {cover : List Nat} {m : Nat}

theorem firstFree_clip (column : Nat) :
    firstFree (cover.map (min · (m + 1))) column = firstFree cover column := by
  have test : (fun n => decide (0 < n)) ∘ (min · (m + 1)) = fun n => decide (0 < n) := by
    funext n
    simp only [Function.comp_apply, decide_eq_decide]
    omega
  rw [firstFree, firstFree, ← List.map_drop, List.takeWhile_map, List.length_map, test]

theorem coverEnd_clip : coverEnd (cover.map (min · (m + 1))) = coverEnd cover := by
  have test : (fun n => n == 0) ∘ (min · (m + 1)) = fun n => n == 0 := by
    funext n
    rw [Function.comp_apply, Bool.eq_iff_iff, beq_iff_eq, beq_iff_eq]
    omega
  rw [coverEnd, coverEnd, ← List.map_reverse, List.dropWhile_map, List.length_map, test]

theorem starts_clip (k column : Nat) (es : List Extent) :
    starts (cover.map (min · (m + 1))) column (es.map (·.clip k)) = starts cover column es := by
  induction es generalizing column with
  | nil => rfl
  | cons e es ih =>
    simp only [List.map_cons, starts, firstFree_clip]
    rw [← ih]
    rfl

theorem rowEnd_clip (k column : Nat) (es : List Extent) :
    rowEnd (cover.map (min · (m + 1))) column (es.map (·.clip k)) = rowEnd cover column es := by
  induction es generalizing column with
  | nil => rfl
  | cons e es ih =>
    simp only [List.map_cons, rowEnd, firstFree_clip]
    rw [← ih]
    rfl

theorem occupy_clip (start : Nat) (e : Extent) : occupy (cover.map (min · m)) start (e.clip (m + 1)) =
    (occupy cover start e).map (min · m) := by
  have height : min e.height (m + 1) - 1 = min (e.height - 1) m := by omega
  simp only [occupy, Extent.clip, height, List.map_append, List.map_take, List.map_drop,
    List.map_replicate, List.length_map, Nat.zero_min]

/-- With one row less to go, the counts in the row below are cut to one less. -/
theorem coverBelow_clip (starts : List Nat) (row : List Extent) :
    coverBelow (cover.map (min · (m + 1))) starts (row.map (·.clip (m + 1))) =
      (coverBelow cover starts row).map (min · m) := by
  have pred : (cover.map (min · (m + 1))).map (· - 1) = (cover.map (· - 1)).map (min · m) := by
    rw [List.map_map, List.map_map]
    refine List.map_congr_left fun n _ => ?_
    simp only [Function.comp_apply]
    omega
  rw [coverBelow, coverBelow, pred, List.zip_map_right, List.foldl_map]
  generalize cover.map (· - 1) = cover
  induction starts.zip row generalizing cover with
  | nil => rfl
  | cons placed rest ih =>
    rw [List.foldl_cons, List.foldl_cons, ← ih]
    exact congrArg (List.foldl _ · rest) (occupy_clip _ _)

/-- Cells that are cut to the rows that are there go to the same columns, whatever they overlap. -/
theorem group_clip {a b : NodeId → Extent} {rows : List (List NodeId)}
    (clip : ∀ {r c}, Stored rows r c → b c = (a c).clip (rows.length - r)) (cover : List Nat) :
    groupStarts (cover.map (min · rows.length)) (rows.map (·.map b)) =
        groupStarts cover (rows.map (·.map a)) ∧
      groupWidth (cover.map (min · rows.length)) (rows.map (·.map b)) =
        groupWidth cover (rows.map (·.map a)) := by
  induction rows generalizing cover with
  | nil => exact ⟨rfl, rfl⟩
  | cons row rows ih =>
    have first : row.map b = (row.map a).map (·.clip (rows.length + 1)) := by
      rw [List.map_map]
      exact List.map_congr_left fun c hc => clip (r := 0) ⟨row, rfl, hc⟩
    have rest := ih (fun {r c} hs => by simpa using clip (r := r + 1) hs)
      (coverBelow cover (starts cover 0 (row.map a)) (row.map a))
    simp only [List.map_cons, groupStarts, groupWidth, List.length_cons, first, starts_clip, rowEnd_clip,
      coverEnd_clip, coverBelow_clip, rest, and_self]

end Placement

/-- The check tells no more than which fault it finds first. -/
theorem Action.checkGrid_congr {L : Type} {d d' : Document L} {t : NodeId}
    (h : d'.gridFault? t = d.gridFault? t) :
    ((checkGrid t).run.run d').1 = ((checkGrid t).run.run d).1 := by
  have got : ∀ e : Document L, (get : Action L (Document L)).run.run e = (.ok e, e) := fun _ => rfl
  rw [checkGrid, run_bind_eq, run_bind_eq, got, got]
  dsimp only
  rw [h]
  cases d.gridFault? t <;> rfl

namespace Document

open Placement

variable {L : Type} {d d' : Document L} {t g : NodeId}

theorem SameTree.symm (h : SameTree d d') : SameTree d' d where
  size := h.size.symm
  kind x := (h.kind x).symm
  text x := (h.text x).symm
  children x := (h.children x).symm
  parent x := (h.parent x).symm
  contentLength x := (h.contentLength x).symm
  ownLength x := (h.ownLength x).symm

/-! ## Questions about the grid -/

/-- The documents answer all questions about rows and columns of a table alike. -/
structure SameGrid (d d' : Document L) (t : NodeId) : Prop where
  effectiveRowSpan : ∀ c, d'.effectiveRowSpan c = d.effectiveRowSpan c
  spannedCells : ∀ row, d'.spannedCells row = d.spannedCells row
  coveringCell : ∀ row j, d'.coveringCell? row j = d.coveringCell? row j
  columnIndex : ∀ c, d'.columnIndex? c = d.columnIndex? c
  columnCount : d'.columnCount t = d.columnCount t
  checkGrid : ((Action.checkGrid t).run.run d').1 = ((Action.checkGrid t).run.run d).1

theorem Respanned.columnRange?_eq {H : Nat → NodeId → Nat} (h : Respanned d d' g H) (c : NodeId) :
    d'.columnRange? c = d.columnRange? c := by
  by_cases hc : ∃ r, Stored (d.rowsOf g) r c
  · obtain ⟨r, hs⟩ := hc
    rw [columnRange?, h.inside hs, columnRange?]
    cases d.cell? c <;> rfl
  · rw [columnRange?, h.outside (not_exists.1 hc), columnRange?]

theorem Respanned.columnCount_eq {H : Nat → NodeId → Nat} (h : Respanned d d' g H) (t : NodeId) :
    d'.columnCount t = d.columnCount t := by
  rw [columnCount, h.table, columnCount]

theorem gridFault?_congr (same : SameTree d d') (count : d'.columnCount t = d.columnCount t)
    (range : ∀ c, d'.columnRange? c = d.columnRange? c)
    (spanned : ∀ row, d'.spannedCells row = d.spannedCells row) : d'.gridFault? t = d.gridFault? t := by
  have occupants : ∀ row, d'.occupants row = d.occupants row := fun row => by
    rw [Document.occupants, same.children, spanned, Document.occupants]
  simp only [gridFault?, rowFault?, unplaced?, sortedRanges, same.children, count, occupants, range]

namespace Clamped

variable (h : Clamped d d' g) (wf : d.WellFormed) (hg : d.kind? g = some .rowGroup)

include h wf hg

theorem effectiveRowSpan_eq (c : NodeId) : d'.effectiveRowSpan c = d.effectiveRowSpan c := by
  by_cases hc : ∃ r, Stored (d.rowsOf g) r c
  · obtain ⟨r, hs⟩ := hc
    have hs' : Stored (d'.rowsOf g) r c := by rwa [h.same.rowsOf]
    rw [(h.same.wellFormed wf).effectiveRowSpan_eq ((h.same.kind g).trans hg) hs',
      (h.height_eq wf hg hs).2, wf.effectiveRowSpan_eq hg hs, h.same.children, min_assoc, min_self]
  · exact h.same.effectiveRowSpan (h.outside (not_exists.1 hc))

/-- A cell reaches a lower row of its group after the cut if it did before. -/
theorem any_height_eq {q c : NodeId} {r i : Nat} (hs : Stored (d.rowsOf q) r c) (hr : r < i)
    (hi : i < (d.children q).length) :
    ((d'.cell? c).any fun props => i < r + props.height) =
      (d.cell? c).any fun props => i < r + props.height := by
  by_cases hqg : q = g
  · subst hqg
    obtain ⟨props, hp⟩ := exists_cell? (wf.kind_stored hg hs)
    have height : d.shape.height c = props.height := by
      simp only [shape, extent_eq hp, CellProps.extent]
    rw [h.inside hs, hp, Option.map_some, Option.any_some, Option.any_some, height, decide_eq_decide]
    simp only [CellProps.height]
    omega
  · rw [h.outside (wf.not_stored_of_ne hqg hs)]

theorem spannedCells_eq (row : NodeId) : d'.spannedCells row = d.spannedCells row := by
  have parent : d'.groupOf? row = d.groupOf? row := by
    simp only [groupOf?, parentOfKind?, isKind, h.same.parent, h.same.kind]
  have index : d'.childIndex? row = d.childIndex? row := by
    simp only [childIndex?, h.same.parent, h.same.children]
  rw [spannedCells, spannedCells, parent, index]
  split
  · next q i hq hi =>
    obtain ⟨hp, hk⟩ := Option.filter_eq_some_iff.1 hq
    have hlt : i < (d.children q).length := by
      rw [childIndex?, hp, Option.bind_some, List.idxOf?_eq_some_iff] at hi
      exact hi.1
    simp only [sortByColumn, h.columnIndex?_eq, h.same.children]
    refine congrArg _ (List.flatMap_congr fun above hr => List.filter_congr fun c hc => ?_)
    rw [List.mem_zipIdx_iff_getElem?, List.getElem?_take] at hr
    split at hr
    · next hr' => exact h.any_height_eq wf hg (stored_rowsOf.2 ⟨_, hr, hc⟩) hr' hlt
    · cases hr
  · rfl

theorem sameGrid (t : NodeId) : SameGrid d d' t where
  effectiveRowSpan := h.effectiveRowSpan_eq wf hg
  spannedCells := h.spannedCells_eq wf hg
  coveringCell row j := by
    have covers : d'.covers j = d.covers j := funext fun c => by
      rw [Document.covers, h.columnRange?_eq, Document.covers]
    rw [coveringCell?, occupants, h.same.children, h.spannedCells_eq wf hg, covers, coveringCell?,
      occupants]
  columnIndex := h.columnIndex?_eq
  columnCount := h.columnCount_eq t
  checkGrid := Action.checkGrid_congr (gridFault?_congr h.same (h.columnCount_eq t) h.columnRange?_eq
    (h.spannedCells_eq wf hg))

/-! ## Placing before and after the cut -/

theorem extent_inside {r : Nat} {c : NodeId} (hs : Stored (d.rowsOf g) r c) :
    d'.extent c = (d.extent c).clip ((d.rowsOf g).length - r) := by
  rw [length_rowsOf]
  exact congrArg₂ Extent.mk (h.shape_inside wf hg hs).2.1 (h.height_eq wf hg hs).2

/-- The cells of a group, of this one or of another, are placed as before the cut. -/
theorem group_eq (q : NodeId) :
    groupStarts [] ((d'.rowsOf q).map (·.map d'.extent)) =
        groupStarts [] ((d.rowsOf q).map (·.map d.extent)) ∧
      groupWidth [] ((d'.rowsOf q).map (·.map d'.extent)) =
        groupWidth [] ((d.rowsOf q).map (·.map d.extent)) := by
  rw [h.same.rowsOf]
  by_cases hqg : q = g
  · subst hqg
    exact group_clip (fun hs => h.extent_inside wf hg hs) []
  · have other : (d.rowsOf q).map (·.map d'.extent) = (d.rowsOf q).map (·.map d.extent) := by
      refine List.map_congr_left fun row hrow => List.map_congr_left fun c hc => ?_
      obtain ⟨r, hr⟩ := List.getElem?_of_mem hrow
      rw [extent, h.outside (wf.not_stored_of_ne hqg ⟨row, hr, hc⟩), extent]
    rw [other]
    exact ⟨rfl, rfl⟩

theorem columns {s : NodeId → Nat} (hs : d.Columns t s) : d'.Columns t s := by
  intro q hq
  rw [h.same.children] at hq
  rw [(h.group_eq wf hg q).1, h.same.rowsOf, hs q hq]

theorem tableWidth_eq : tableWidth (d'.extents t) = tableWidth (d.extents t) := by
  have width : ∀ e : Document L, tableWidth (e.extents t) = (e.children t).foldl
      (fun width q => max width (groupWidth [] ((e.rowsOf q).map (·.map e.extent)))) 0 := fun e => by
    rw [extents, cellGrid, List.map_map, tableWidth, List.foldl_map]
    rfl
  rw [width, width, h.same.children]
  refine List.foldl_ext _ _ _ fun w q _ => ?_
  rw [(h.group_eq wf hg q).2]

end Clamped

/-- It does not matter whether a group is cut before its table is placed or afterwards. -/
theorem WellFormed.placed_clampRowSpans (wf : d.WellFormed) (hg : d.kind? g = some .rowGroup)
    (t : NodeId) : (d.clampRowSpans g).placed t = (d.placed t).clampRowSpans g := by
  have same := wf.sameTree_placed t
  have cut := wf.clamped hg
  have cut' := (same.wellFormed wf).clamped ((same.kind g).trans hg)
  have wf' := cut.same.wellFormed wf
  obtain ⟨s, hs⟩ := wf.exists_columns t
  have hs' := cut.columns wf hg hs
  refine ext_of_sameTree ((same.trans cut'.same).symm.trans (cut.same.trans (wf'.sameTree_placed t)))
    (fun x => ?_) fun x => ?_
  · rw [wf'.cell?_placed hs', cut.same.tableCells]
    by_cases hx : ∃ r, Stored (d.rowsOf g) r x
    · obtain ⟨r, hr⟩ := hx
      have height : (d.placed t).shape.height x = d.shape.height x := by
        simp only [shape, wf.extent_placed]
      rw [cut.inside hr, cut'.inside (by rwa [same.rowsOf]), wf.cell?_placed hs, height, same.children]
      cases d.cell? x with
      | none => rfl
      | some props =>
        simp only [Option.map_some]
        split <;> rfl
    · have outside := not_exists.1 hx
      rw [cut.outside outside, cut'.outside (by rwa [same.rowsOf]), wf.cell?_placed hs]
  · rw [wf'.table?_placed, cut.table, cut'.table, wf.table?_placed, cut.tableWidth_eq wf hg]

/-- Cutting the row spans of a group to the rows that are there writes the number of rows that each of
its cells occupies, and does not show on the grid, neither before the table has been placed nor when it
is placed afterwards. -/
theorem clampRowSpans_invisible (wf : d.WellFormed) (ht : d.kind? t = some .table)
    (hg : g ∈ d.children t) :
    (∀ row ∈ d.children g, ∀ c ∈ d.children row, ∃ props, d.cell? c = some props ∧
      (d.clampRowSpans g).cell? c = some { props with rowSpan := d.effectiveRowSpan c }) ∧
    SameGrid d (d.clampRowSpans g) t ∧
    ∃ n e e', (Action.place t).run.run d = (.ok n, e) ∧
      (Action.place t).run.run (d.clampRowSpans g) = (.ok n, e') ∧
      e' = e.clampRowSpans g ∧ SameGrid e e' t := by
  have hgk := wf.kind_group ht hg
  have cut := wf.clamped hgk
  have same := wf.sameTree_placed t
  refine ⟨fun row hr c hc => ?_, cut.sameGrid wf hgk t, _, _, _, Action.place_run wf ht, ?_,
    wf.placed_clampRowSpans hgk t, ?_⟩
  · obtain ⟨r, hr⟩ := List.getElem?_of_mem hr
    have hs := stored_rowsOf.2 ⟨row, hr, hc⟩
    obtain ⟨props, hp⟩ := exists_cell? (wf.kind_stored hgk hs)
    exact ⟨props, hp, by rw [cut.inside hs, hp, Option.map_some, wf.effectiveRowSpan_eq hgk hs]⟩
  · rw [Action.place_run (cut.same.wellFormed wf) ((cut.same.kind t).trans ht),
      cut.tableWidth_eq wf hgk]
  · rw [wf.placed_clampRowSpans hgk]
    have hgk' := (same.kind g).trans hgk
    exact ((same.wellFormed wf).clamped hgk').sameGrid (same.wellFormed wf) hgk' t

/-- A tall cell that asks for more rows than there are, and a wide one below that overlaps it. -/
def overlappingCells : Document Int :=
  Call.runAll [.buildTable .standard root
    { groups := [[[{ text := "a" }, { text := "tall", rowSpan := 9 }], [{ text := "wide", columnSpan := 2 }],
      [{ text := "b" }]], [[{ text := "c", rowSpan := 3 }]]] }] .empty

/-- The tall cell is cut from nine rows to three. The overlap is found in either case. -/
theorem clampRowSpans_invisible_overlappingCells :
    overlappingCells.kind? 1 = some .table ∧ 2 ∈ overlappingCells.children 1 ∧
      (∃ props, overlappingCells.cell? 7 = some props ∧ props.rowSpan = 9 ∧
        (overlappingCells.clampRowSpans 2).cell? 7 = some { props with rowSpan := 3 }) ∧
      ∃ e e', (Action.place 1).run.run overlappingCells = (.ok 2, e) ∧
        (Action.place 1).run.run (overlappingCells.clampRowSpans 2) = (.ok 2, e') ∧
        e.gridFault? 1 = some (.overlap 1 0 1) ∧ SameGrid e e' 1 := by
  have wf : overlappingCells.WellFormed := Call.wellFormed_runAll _
  have facts : overlappingCells.kind? 1 = some .table ∧ 2 ∈ overlappingCells.children 1 ∧
      3 ∈ overlappingCells.children 2 ∧
      7 ∈ overlappingCells.children 3 ∧ overlappingCells.effectiveRowSpan 7 = 3 ∧
      (overlappingCells.cell? 7).map (·.rowSpan) = some 9 := by
    decide +kernel
  have placed : ((Action.place 1).run.run overlappingCells).1 = .ok 2 ∧
      ((Action.place 1).run.run overlappingCells).2.gridFault? 1 = some (.overlap 1 0 1) := by
    decide +kernel
  obtain ⟨kind, group, row, cell, span, nine⟩ := facts
  obtain ⟨cut, -, n, e, e', run, run', -, same⟩ := clampRowSpans_invisible wf kind group
  obtain ⟨props, hp, hp'⟩ := cut 3 row 7 cell
  rw [hp, Option.map_some, Option.some.injEq] at nine
  rw [run] at placed
  obtain ⟨hn, fault⟩ := placed
  obtain rfl : n = 2 := Except.ok.inj hn
  exact ⟨kind, group, ⟨props, hp, nine, span ▸ hp'⟩, e, e', run, run', fault, same⟩

end Document

end RichTable
