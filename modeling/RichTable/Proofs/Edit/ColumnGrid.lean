import Mathlib
import RichTable.Column.Layout
import RichTable.Proofs.Edit.RowGrid

/-!
# What the places show after a column has been inserted

The new column stands next to an old one. It shows the wide cells of the old column, which have grown,
and copies of the narrow ones (`ColumnInserted`). The places on both sides show what they showed. The
new column is as wide as the old one.
-/

namespace RichTable

/-! ## Column widths -/

theorem TableProps.getElem?_effectiveColumns {L : Type} (props : TableProps L) (count i : Nat) :
    (props.effectiveColumns count)[i]? =
      if i < count then some ((props.columns[i]?).getD .auto) else none := by
  rw [effectiveColumns, List.getElem?_map]
  split_ifs with h <;> simp [h]

/-- The widths after an insertion, those behind the end read as automatic. -/
theorem getD_insertWidth {L : Type} (after : Option Nat) (columns : List (ColumnWidth L)) (i : Nat) :
    ((insertWidth after columns)[i]?).getD .auto =
      if i < (after.map (· + 1)).getD 0 then (columns[i]?).getD .auto
      else if i = (after.map (· + 1)).getD 0 then (columns[after.getD 0]?).getD .auto
      else (columns[i - 1]?).getD .auto := by
  have next : after.getD 0 ≤ (after.map (· + 1)).getD 0 ∧
      (after.map (· + 1)).getD 0 ≤ after.getD 0 + 1 := by
    cases after <;> simp
  have first : (after.map (· + 1)).getD 0 = after.getD 0 → after.getD 0 = 0 := by
    cases after <;> simp
  obtain ⟨p, hp⟩ : ∃ p, p = (after.map (· + 1)).getD 0 := ⟨_, rfl⟩
  obtain ⟨q, hq⟩ : ∃ q, q = after.getD 0 := ⟨_, rfl⟩
  rw [insertWidth]
  simp only [← hp, ← hq] at next first ⊢
  split_ifs with recorded h₁ h₂ h₁ h₂
  · rw [List.getElem?_insertIdx_of_lt h₁]
  · have := List.length_pos_of_ne_nil recorded.2
    rw [h₂, List.getElem?_insertIdx_self, if_pos (by omega), Nat.min_eq_left (by omega)]
    rfl
  · rw [List.getElem?_insertIdx_of_gt (by omega)]
  · rfl
  -- Nothing is recorded at and behind the new column.
  all_goals
    have short : columns.length < p ∨ columns = [] := by
      by_contra h
      rw [not_or, Nat.not_lt] at h
      exact recorded h
    have none : ∀ k, p ≤ k + 1 → columns[k]? = none := fun k hk => by
      rcases short with h | rfl
      · exact List.getElem?_eq_none (by omega)
      · rfl
    rw [none _ (by omega), none _ (by omega)]

/-- The new column has the width of the column next to it. -/
theorem TableProps.effectiveColumns_of_insertWidth {L : Type} {props props' : TableProps L}
    {after : Option Nat} (columns : props'.columns = insertWidth after props.columns) {count : Nat}
    (next : after.getD 0 < count) : ∃ width, (props.effectiveColumns count)[after.getD 0]? = some width ∧
      props'.effectiveColumns (count + 1) =
        (props.effectiveColumns count).insertIdx ((after.map (· + 1)).getD 0) width := by
  refine ⟨_, (props.getElem?_effectiveColumns _ _).trans (if_pos next), List.ext_getElem? fun i => ?_⟩
  have place : (after.map (· + 1)).getD 0 ≤ count := by
    cases after <;> simp_all
  have length : (props.effectiveColumns count).length = count := by simp [effectiveColumns]
  rw [getElem?_effectiveColumns, columns, getD_insertWidth, List.getElem?_insertIdx, length,
    getElem?_effectiveColumns, getElem?_effectiveColumns]
  split_ifs <;> first | rfl | omega

namespace Document

variable {L : Type} {d d' e : Document L} {t : NodeId}

/-- The cell `y` shows in the column `next`, and `f` is its copy at `place`: a new blank cell in the
same rows. -/
structure CopiedBeside (d d' : Document L) (t : NodeId) (place next : Nat) (y f : NodeId) : Prop where
  fresh : d.size ≤ f
  blank : d'.Blank f
  stored : ∀ row, y ∈ d.children row → f ∈ d'.children row
  rowSpan : (d'.cell? f).map (·.rowSpan) = (d.cell? y).map (·.rowSpan)
  background : (d'.cell? f).map (·.background) = (d.cell? y).map (·.background)
  shown : ∀ row ∈ d.tableRows t, ∀ j, d'.coveringCell? row j = some f ↔
    j = place ∧ d.coveringCell? row next = some y

/-- Going from `d` to `d'`, a column has been inserted at `place`, next to what was the column `next`.
Its cells are those of that column: a wide one covers both columns, and a narrow one is copied. -/
structure ColumnInserted (d d' : Document L) (t : NodeId) (place next : Nat) : Prop where
  groups : d'.children t = d.children t
  rows : ∀ g ∈ d.children t, d'.children g = d.children g
  columns : d'.columnCount t = d.columnCount t + 1
  left : ∀ row ∈ d.tableRows t, ∀ j < place, d'.coveringCell? row j = d.coveringCell? row j
  right : ∀ row ∈ d.tableRows t, ∀ j, place < j →
    d'.coveringCell? row j = d.coveringCell? row (j - 1)
  between : ∀ row ∈ d.tableRows t, ∃ y props, d.coveringCell? row next = some y ∧
    d.cell? y = some props ∧ if 1 < props.columnSpan then d'.coveringCell? row place = some y
      else ∃ f, d'.coveringCell? row place = some f ∧ CopiedBeside d d' t place next y f
  widths : ∃ props props', d.table? t = some props ∧ d'.table? t = some props' ∧
    ∃ width, (props.effectiveColumns (d.columnCount t))[next]? = some width ∧
      props'.effectiveColumns (d.columnCount t + 1) =
        (props.effectiveColumns (d.columnCount t)).insertIdx place width

namespace RowsWidened

open Tiling.Widening (shows place shows_place)

variable {τ : Nat} {behind : Bool} {f : TableProps L → TableProps L}

/-- Next to a narrow cell the loop has inserted a copy of it. -/
theorem exists_copy (h : RowsWidened d e t τ behind) {row y : NodeId} {props : CellProps L}
    (hr : row ∈ d.tableRows t) (hy : y ∈ d.children row) (span : d.shape.Spans τ y)
    (cell : d.cell? y = some props) (narrow : props.columnSpan ≤ 1) : ∃ f ∈ e.children row,
      d.size ≤ f ∧ e.Blank f ∧ e.cell? f = some { props with columnIndex := none } := by
  have steady := h.regular.steady
  have found : d.storedCell? row τ = some y := (steady.storedCell?_eq_some hr).2 ⟨hy, span⟩
  have view := h.views row hr
  have origin := h.origins row hr
  generalize hV : e.rowView row = V at view
  cases view with
  | absent none =>
    rw [found] at none
    cases none
  | wide found' cell' wide =>
    cases found.symm.trans found'
    cases cell.symm.trans cell'
    omega
  | @narrow c f props' l u found' cell' _ split fresh =>
    cases found.symm.trans found'
    cases cell.symm.trans cell'
    obtain ⟨children, cells⟩ := rowView_eq_map.1 hV
    have hf : f ∈ (if behind then l ++ y :: f :: u else l ++ f :: y :: u) := by
      cases behind <;> simp
    refine ⟨f, children ▸ hf, fresh, ?_, (cells f hf).trans (if_pos rfl)⟩
    exact ((origin f (children ▸ hf)).resolve_left fun hold =>
      Nat.not_lt.2 fresh (h.regular.wf.lt_size_child hold)).2

/-- The table shows the widened tiling. -/
theorem coveringCell?_eq_some (h : RowsWidened d e t τ behind)
    (laid : Laid (e.modifyTable t f) d' t (d.widenedStart τ behind)) {g row x : NodeId}
    (hg : g ∈ d.children t) {i j : Nat} (hi : (d.children g)[i]? = some row) :
    d'.coveringCell? row j = some x ↔
      (⟨d.widenedStart τ behind, e.shape.width, e.shape.height⟩ : Shape).Covers (e.rowsOf g) i j x := by
  have same : SameTree e (e.modifyTable t f) := .modifyTable e t f
  obtain ⟨groups, rows, -⟩ := h.tree
  rw [laid.coveringCell?_eq_some (h.tileable.modifyTable f) (by rwa [same.children, groups])
    (by rwa [same.children, rows g hg]), same.rowsOf, shape_modifyTable]

/-- Outside of the new column the places show what they showed. -/
theorem coveringCell?_of_ne (h : RowsWidened d e t τ behind)
    (laid : Laid (e.modifyTable t f) d' t (d.widenedStart τ behind)) {row : NodeId}
    (hr : row ∈ d.tableRows t) {j : Nat} (hj : j ≠ place τ behind) :
    d'.coveringCell? row j = d.coveringCell? row (shows τ j) := by
  obtain ⟨g, hg, i, hi⟩ := exists_group_of_mem_tableRows hr
  obtain ⟨new, w⟩ := h.exists_widening hg
  have tiling := h.regular.tiled g hg
  refine Option.ext fun x => ?_
  rw [h.coveringCell?_eq_some laid hg hi, h.regular.coveringCell?_eq_some hg hi]
  constructor
  · intro covers
    obtain ⟨r, hs⟩ := w.stored_of_covers hj covers
    exact ((w.covers_old tiling hs).1 covers).1
  · intro covers
    obtain ⟨r, hs, -⟩ := covers.1
    exact (w.covers_old tiling hs).2 ⟨covers, fun h => absurd h hj⟩

/-- The new column shows the wide cells. -/
theorem coveringCell?_wide (h : RowsWidened d e t τ behind)
    (laid : Laid (e.modifyTable t f) d' t (d.widenedStart τ behind)) {row y : NodeId}
    (hr : row ∈ d.tableRows t) (hy : d.coveringCell? row τ = some y) (wide : 1 < d.shape.width y) :
    d'.coveringCell? row (place τ behind) = some y := by
  obtain ⟨g, hg, i, hi⟩ := exists_group_of_mem_tableRows hr
  obtain ⟨new, w⟩ := h.exists_widening hg
  rw [h.regular.coveringCell?_eq_some hg hi] at hy
  obtain ⟨r, hs, -⟩ := hy.1
  rw [h.coveringCell?_eq_some laid hg hi, w.covers_old (h.regular.tiled g hg) hs, shows_place]
  exact ⟨hy, fun _ => wide⟩

/-- The new column shows copies of the narrow cells. -/
theorem copiedBeside (h : RowsWidened d e t τ behind)
    (laid : Laid (e.modifyTable t f) d' t (d.widenedStart τ behind)) {g y : NodeId}
    {props : CellProps L} (hg : g ∈ d.children t) {r : Nat} (hs : Stored (d.rowsOf g) r y)
    (span : d.shape.Spans τ y) (cell : d.cell? y = some props) (narrow : props.columnSpan ≤ 1)
    (width : d.shape.width y = 1) : ∃ f, CopiedBeside d d' t (place τ behind) τ y f := by
  have wf := h.regular.wf
  obtain ⟨groups, rows, tableRows⟩ := h.tree
  have same : SameTree e d' := SameTree.trans (.modifyTable e t f) laid.same
  obtain ⟨row, hrow, hy⟩ := stored_rowsOf.1 hs
  have hr : row ∈ d.tableRows t := List.mem_flatMap.2 ⟨g, hg, List.mem_of_getElem? hrow⟩
  obtain ⟨f, hf, fresh, blank, copied⟩ := h.exists_copy hr hy span cell narrow
  obtain ⟨new, w⟩ := h.exists_widening hg
  have hsf : Stored (e.rowsOf g) r f := stored_rowsOf.2 ⟨row, (rows g hg).symm ▸ hrow, hf⟩
  have old : ∀ {q r}, ¬ Stored (d.rowsOf q) r f := fun {q r} hs => by
    obtain ⟨row, -, hc⟩ := stored_rowsOf.1 hs
    exact Nat.not_lt.2 fresh (wf.lt_size_child hc)
  obtain rfl : f = new r := (w.origin hsf).elim (fun hs => absurd hs old) (·.1)
  obtain ⟨props', cell', -, rowSpan, background⟩ :=
    laid.exists_props ((cell?_modifyTable _ _ _).trans copied)
  refine ⟨new r, fresh, blank.of_sameTree same, fun row' hy' => ?_, ?_, ?_, fun row' hr' j => ?_⟩
  · rw [wf.parent_unique hy' hy, same.children]
    exact hf
  · rw [cell', cell, Option.map_some, Option.map_some, rowSpan]
  · rw [cell', cell, Option.map_some, Option.map_some, background]
  · obtain ⟨q, hq, i, hi⟩ := exists_group_of_mem_tableRows hr'
    rw [h.coveringCell?_eq_some laid hq hi, h.regular.coveringCell?_eq_some hq hi]
    by_cases hqg : q = g
    · subst hqg
      exact w.covers_copy (h.regular.tiled q hq) hs span width
    · refine iff_of_false ?_ ?_
      · rintro ⟨⟨r', hs', -⟩, -⟩
        exact h.wf.not_stored_of_ne hqg hs' r hsf
      · rintro ⟨-, ⟨r', hs', -⟩, -⟩
        exact wf.not_stored_of_ne hqg hs' r hs

/-- The table that comes out when the widened rows are laid out. -/
theorem columnInserted {after : Option Nat} (h : RowsWidened d e t (after.getD 0) after.isSome)
    (laid : Laid (e.modifyTable t fun props => { props with columns := insertWidth after props.columns })
      d' t (d.widenedStart (after.getD 0) after.isSome)) :
    ColumnInserted d d' t ((after.map (· + 1)).getD 0) (after.getD 0) := by
  have reg := h.regular
  have hplace : (after.map (· + 1)).getD 0 = place (after.getD 0) after.isSome := by
    cases after <;> rfl
  obtain ⟨groups, rows, tableRows⟩ := h.tree
  obtain ⟨-, same, count, -⟩ := laid.of_modifyTable h.tileable
    (tableRows ▸ reg.tableRows_ne_nil (Nat.zero_lt_of_lt h.target))
  refine ⟨(same.children t).trans groups, fun g hg => (same.children g).trans (rows g hg), count,
    fun row hr j hj => ?_, fun row hr j hj => ?_, fun row hr => ?_, ?_⟩
  · rw [hplace] at hj
    rw [h.coveringCell?_of_ne laid hr hj.ne]
    congr 1
    unfold place at hj
    exact if_pos (by split at hj <;> omega)
  · rw [hplace] at hj
    rw [h.coveringCell?_of_ne laid hr hj.ne']
    congr 1
    unfold place at hj
    exact if_neg (by split at hj <;> omega)
  · obtain ⟨g, hg, i, hi⟩ := exists_group_of_mem_tableRows hr
    have hlt := lt_length_rowsOf hi
    obtain ⟨y, covers⟩ := (reg.tiled g hg).covered hlt h.target
    have hy := (reg.coveringCell?_eq_some hg hi).2 covers
    obtain ⟨r, hs, -⟩ := covers.1
    have hcell := mem_tableCells.2 ⟨g, hg, r, hs⟩
    obtain ⟨props, cell⟩ := exists_cell? (reg.wf.kind_tableCells reg.kind hcell)
    have width := (reg.steady.shape_eq hcell cell).1
    refine ⟨y, props, hy, cell, ?_⟩
    rw [hplace]
    split_ifs with wide
    · exact h.coveringCell?_wide laid hr hy (width ▸ wide)
    · have pos := (reg.spans y hcell props cell).1
      obtain ⟨f, copied⟩ := h.copiedBeside laid hg hs covers.2 cell (by omega) (by omega)
      exact ⟨f, (copied.shown row hr _).2 ⟨rfl, hy⟩, copied⟩
  · obtain ⟨props, hp⟩ := exists_table? reg.kind
    have hp' := laid.table t
    rw [table?_modifyTable, h.table?_eq, hp, Option.map_some, if_pos rfl, Option.map_some, if_pos rfl]
      at hp'
    exact ⟨props, _, hp, hp', TableProps.effectiveColumns_of_insertWidth rfl h.target⟩

end RowsWidened

end Document

namespace Action

open Document

variable {L : Type} [Length L] {d : Document L} {t : NodeId}

/-- A column is inserted before the first one, or behind a column of the table. -/
theorem insertColumn_shows_neighbour (reg : d.Regular t) (pos : 1 ≤ d.columnCount t)
    {after : Option Nat} (inside : ∀ c, after = some c → c < d.columnCount t) :
    ∃ d', (insertColumn t after).run.run d = (.ok (), d') ∧
      ColumnInserted d d' t ((after.map (· + 1)).getD 0) (after.getD 0) := by
  have target : after.getD 0 = (after.map (min · (d.columnCount t - 1))).getD 0 := by
    cases after with
    | none => rfl
    | some c =>
      have := inside c rfl
      simp only [Option.getD_some, Option.map_some]
      omega
  obtain ⟨_, d', run, e, widened, laid⟩ := ensures_insertColumn_stages reg pos after target
  exact ⟨d', run, widened.columnInserted laid⟩

/-- Of the cells in the second column, one is wide and one is tall. There are widths for the first
two columns. -/
def braidedColumns : TableOutline Int where
  columns := [.fixed 30, .fixed 50]
  groups := [[[{ text := "a" }, { text := "b", columnSpan := 2 }],
    [{ text := "c", rowSpan := 4 }, { text := "d", rowSpan := 2, background := some "red" },
      { text := "e" }], [{ text := "f" }]]]

/-- The document with the table of `braidedColumns`. -/
def braidedColumnsDocument : Document Int :=
  ((EditorAction.insertTable braidedColumns).run.run { config := .standard }).2.doc

theorem insertColumn_shows_neighbour_braidedColumns :
    braidedColumnsDocument.Regular 1 ∧ 1 ≤ braidedColumnsDocument.columnCount 1 ∧
      (∀ c, some 1 = some c → c < braidedColumnsDocument.columnCount 1) ∧
      ∃ d', (insertColumn 1 (some 1)).run.run braidedColumnsDocument = (.ok (), d') ∧
        ColumnInserted braidedColumnsDocument d' 1 2 1 := by
  have loaded : Loaded .standard braidedColumns braidedColumnsDocument 1 :=
    EditorAction.loaded_of_insertTable (by decide +kernel)
  have sound := loaded.sound (by decide +kernel)
  have count : braidedColumnsDocument.columnCount 1 = 3 := by decide +kernel
  have inside : ∀ c, some 1 = some c → c < braidedColumnsDocument.columnCount 1 := by
    rintro c ⟨⟩
    omega
  exact ⟨sound.regular, by omega, inside,
    insertColumn_shows_neighbour sound.regular (by omega) inside⟩

end Action

end RichTable
