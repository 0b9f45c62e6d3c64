import Mathlib
import RichTable.Proofs.Edit.ColumnGrid

/-!
# What the places show after columns have been deleted

When columns are deleted, the columns behind them move up and everything else stays: the places show
the cells that they showed, and what disappears are the cells that covered no other column
(`ColumnsDeleted`). Deleting one column is done row by row; deleting several is deleting the first of
them over and over, and the deletions compose. Several columns are deleted or none is.
-/

namespace RichTable

/-- Without a recorded width the columns behind move up. -/
theorem TableProps.effectiveColumns_of_eraseIdx {L : Type} {props props' : TableProps L} {k : Nat}
    (columns : props'.columns = props.columns.eraseIdx k) {count : Nat} (inside : k < count) :
    props'.effectiveColumns (count - 1) = (props.effectiveColumns count).eraseIdx k := by
  refine List.ext_getElem? fun i => ?_
  simp only [List.getElem?_eraseIdx, getElem?_effectiveColumns, columns]
  split_ifs <;> first | rfl | omega

namespace Document

variable {L : Type} {d d' d₁ e : Document L} {t : NodeId}

/-- Whether a cell covers no column but the `count` columns from `first` on. -/
def onlyIn (d : Document L) (first count : Nat) (c : NodeId) : Bool :=
  (d.columnRange? c).any fun range => first ≤ range.first && range.last < first + count

theorem Regular.onlyIn_eq (reg : d.Regular t) {c : NodeId} (hc : c ∈ d.tableCells t)
    (first count : Nat) : d.onlyIn first count c = d.inColumns first (first + count) c := by
  obtain ⟨g, hg, r, hs⟩ := mem_tableCells.1 hc
  have := (reg.tiled g hg).width_pos hs
  rw [Bool.eq_iff_iff, onlyIn, reg.columnRange?_eq hc, inColumns_iff]
  simp only [Option.any_some, Bool.and_eq_true, decide_eq_true_eq]
  omega

theorem Regular.onlyIn_one (reg : d.Regular t) {c : NodeId} (hc : c ∈ d.tableCells t) (k : Nat) :
    d.onlyIn k 1 c = d.fillsColumn k c := by
  obtain ⟨g, hg, r, hs⟩ := mem_tableCells.1 hc
  have := (reg.tiled g hg).width_pos hs
  rw [reg.onlyIn_eq hc, Bool.eq_iff_iff, fillsColumn_iff, inColumns_iff]
  omega

/-- Going from `d` to `d'`, the `count` columns from `first` on have been deleted. The cells that
covered no other column are gone, and the columns behind have moved up. -/
structure ColumnsDeleted (d d' : Document L) (t : NodeId) (first count : Nat) : Prop where
  groups : d'.children t = d.children t
  rows : ∀ g ∈ d.children t, d'.children g = d.children g
  inside : first + count ≤ d.columnCount t
  columns : d'.columnCount t + count = d.columnCount t
  cells : ∀ row ∈ d.tableRows t,
    d'.children row = (d.children row).filter fun c => !d.onlyIn first count c
  shows : ∀ row ∈ d.tableRows t, ∀ j,
    d'.coveringCell? row j = d.coveringCell? row (if j < first then j else j + count)
  widths : ∃ props props', d.table? t = some props ∧ d'.table? t = some props' ∧
    props'.effectiveColumns (d'.columnCount t) =
      (props.effectiveColumns (d.columnCount t)).take first ++
        (props.effectiveColumns (d.columnCount t)).drop (first + count)

namespace RowsNarrowed

variable {k : Nat} {f : TableProps L → TableProps L}

/-- The table shows the narrowed tiling. -/
theorem coveringCell?_eq (h : RowsNarrowed d e t k) (reg : d.Regular t) (hk : k < d.columnCount t)
    (laid : Laid (e.modifyTable t f) d' t (d.narrowedStart k)) {row : NodeId}
    (hr : row ∈ d.tableRows t) (j : Nat) :
    d'.coveringCell? row j = d.coveringCell? row (if j < k then j else j + 1) := by
  obtain ⟨g, hg, i, hi⟩ := exists_group_of_mem_tableRows hr
  obtain ⟨groups, rows, -⟩ := h.tree
  have same : SameTree e (e.modifyTable t f) := .modifyTable e t f
  have w := h.narrowing hg
  refine Option.ext fun x => ?_
  rw [laid.coveringCell?_eq_some ((h.tileable reg hk).modifyTable f) (by rwa [same.children, groups])
    (by rwa [same.children, rows g hg]), same.rowsOf, shape_modifyTable,
    reg.coveringCell?_eq_some hg hi]
  exact w.covers_iff (reg.tiled g hg)

/-- The table that comes out when the narrowed rows are laid out. -/
theorem columnsDeleted (h : RowsNarrowed d e t k) (reg : d.Regular t) (hk : k < d.columnCount t)
    (laid : Laid (e.modifyTable t fun props => { props with columns := props.columns.eraseIdx k })
      d' t (d.narrowedStart k)) : ColumnsDeleted d d' t k 1 := by
  obtain ⟨groups, rows, tableRows⟩ := h.tree
  obtain ⟨-, same, count, -⟩ := laid.of_modifyTable (h.tileable reg hk)
    (tableRows ▸ reg.tableRows_ne_nil (Nat.zero_lt_of_lt hk))
  refine ⟨(same.children t).trans groups, fun g hg => (same.children g).trans (rows g hg), hk, by omega,
    fun row hr => ?_, fun row hr => h.coveringCell?_eq reg hk laid hr, ?_⟩
  · rw [same.children, (h.loses hr).children]
    refine List.filter_congr fun c hc => ?_
    rw [reg.onlyIn_one (List.mem_flatMap.2 ⟨row, hr, hc⟩)]
  · obtain ⟨props, hp⟩ := exists_table? reg.kind
    have hp' := laid.table t
    rw [table?_modifyTable, h.table?_eq, hp, Option.map_some, if_pos rfl, Option.map_some, if_pos rfl]
      at hp'
    refine ⟨props, _, hp, hp', ?_⟩
    rw [count, ← List.eraseIdx_eq_take_drop_succ]
    exact TableProps.effectiveColumns_of_eraseIdx rfl hk

end RowsNarrowed

namespace ColumnsDeleted

variable {first count : Nat}

theorem refl (reg : d.Regular t) (inside : first ≤ d.columnCount t) :
    ColumnsDeleted d d t first 0 := by
  obtain ⟨props, hp⟩ := exists_table? reg.kind
  refine ⟨rfl, fun _ _ => rfl, inside, rfl, fun row hr => ?_, fun row _ j => by simp,
    props, props, hp, hp, by simp⟩
  rw [eq_comm, List.filter_eq_self]
  intro c hc
  have hct : c ∈ d.tableCells t := List.mem_flatMap.2 ⟨row, hr, hc⟩
  obtain ⟨g, hg, r, hs⟩ := mem_tableCells.1 hct
  have := (reg.tiled g hg).width_pos hs
  rw [reg.onlyIn_eq hct, Bool.not_eq_true', ← Bool.not_eq_true, inColumns_iff]
  omega

theorem tableRows (h : ColumnsDeleted d d' t first count) : d'.tableRows t = d.tableRows t := by
  rw [Document.tableRows, Document.tableRows, h.groups]
  exact List.flatMap_congr h.rows

/-- Columns are deleted one after the other. -/
theorem trans (h₁ : ColumnsDeleted d d₁ t first 1) (h₂ : ColumnsDeleted d₁ d' t first count)
    (left : ∀ c ∈ d.tableCells t, (!d.onlyIn first 1 c && !d₁.onlyIn first count c) =
      !d.onlyIn first (count + 1) c) : ColumnsDeleted d d' t first (count + 1) := by
  have hr₁ := h₁.tableRows
  have inside := h₂.inside
  have columns₁ := h₁.columns
  have columns₂ := h₂.columns
  refine ⟨h₂.groups.trans h₁.groups, fun g hg => ?_, by omega, by omega, fun row hr => ?_,
    fun row hr j => ?_, ?_⟩
  · rw [h₂.rows g (h₁.groups ▸ hg), h₁.rows g hg]
  · rw [h₂.cells row (hr₁ ▸ hr), h₁.cells row hr, List.filter_filter]
    refine List.filter_congr fun c hc => ?_
    rw [Bool.and_comm]
    exact left c (List.mem_flatMap.2 ⟨row, hr, hc⟩)
  · rw [h₂.shows row (hr₁ ▸ hr), h₁.shows row hr]
    congr 1
    split_ifs <;> omega
  · obtain ⟨props, props₁, hp, hp₁, widths₁⟩ := h₁.widths
    obtain ⟨_, props', hp₁', hp', widths₂⟩ := h₂.widths
    obtain rfl := Option.some.inj (hp₁.symm.trans hp₁')
    refine ⟨props, props', hp, hp', ?_⟩
    rw [widths₂, widths₁]
    have length : (props.effectiveColumns (d.columnCount t)).length = d.columnCount t := by
      simp [TableProps.effectiveColumns]
    generalize props.effectiveColumns (d.columnCount t) = widths at length ⊢
    have before : (widths.take first).length = first := by
      rw [List.length_take]
      omega
    rw [List.take_append_of_le_length before.ge, List.take_take, Nat.min_self, List.drop_append,
      List.drop_eq_nil_of_le (by omega), List.drop_drop, before, List.nil_append]
    congr 2
    omega

end ColumnsDeleted

end Document

namespace Action

open Document

variable {L : Type} [Length L] {d : Document L} {t : NodeId}

/-- Deleting the same column over and over deletes the columns behind it too. -/
theorem ensures_deleteColumnTimes_shows (reg : d.Regular t) {first count : Nat}
    (hn : count < d.columnCount t) (hf : first + count ≤ d.columnCount t) :
    Ensures (deleteColumnTimes t first count) d fun done d' =>
      done = true ∧ ColumnsDeleted d d' t first count := by
  induction count generalizing d with
  | zero =>
    simp only [deleteColumnTimes, ensures_pure]
    exact ⟨trivial, .refl reg hf⟩
  | succ count ih =>
    simp only [deleteColumnTimes, ensures_bind]
    refine (ensures_deleteColumn_stages reg (k := first) (by omega) (by omega)).mono ?_
    rintro _ d₁ ⟨rfl, e, narrowed, laid⟩
    have hk : first < d.columnCount t := by omega
    obtain ⟨reg₁, same, count₁, shape⟩ := narrowed.laidOut reg hk laid
    have deleted := narrowed.columnsDeleted reg hk laid
    rw [if_pos rfl]
    refine (ih reg₁ (by omega) (by omega)).mono ?_
    rintro _ d' ⟨rfl, deleted'⟩
    refine ⟨rfl, deleted.trans deleted' fun c hc => ?_⟩
    obtain ⟨g, hg, r, hs⟩ := mem_tableCells.1 hc
    have kept : d.fillsColumn first c = false → c ∈ d₁.tableCells t := fun fills => by
      rw [same.tableCells]
      exact narrowed.inherits.mem_of_keep hc (by simpa using fills)
    rw [reg.onlyIn_one hc, reg.onlyIn_eq hc,
      ← inColumns_succ ((reg.tiled g hg).width_pos hs) fun fills => shape c (kept fills)]
    cases fills : d.fillsColumn first c with
    | true => rfl
    | false => rw [reg₁.onlyIn_eq (kept fills)]

/-- A column is deleted unless it is the only one or not there. -/
theorem ensures_deleteColumn_shows (reg : d.Regular t) (column : Nat) :
    Ensures (deleteColumn t column) d fun done d' =>
      (done = false ↔ d.columnCount t ≤ 1 ∨ d.columnCount t ≤ column) ∧
        if done then ColumnsDeleted d d' t column 1 else d' = d := by
  by_cases refused : d.columnCount t ≤ 1 ∨ d.columnCount t ≤ column
  · simp only [deleteColumn, ensures_bind, ensures_place_steady reg.steady]
    rw [if_pos refused]
    exact ensures_pure.2 ⟨by simp [refused], rfl⟩
  · refine (ensures_deleteColumn_stages reg (k := column) (by omega) (by omega)).mono ?_
    rintro _ d' ⟨rfl, e, narrowed, laid⟩
    exact ⟨by simpa using refused, narrowed.columnsDeleted reg (by omega) laid⟩

/-- All columns that are asked for are deleted, or none is. -/
theorem ensures_deleteColumns_shows (reg : d.Regular t) {selection : Segment} {a b : NodeId}
    (resolved : d.boundaryCells? selection.start selection.stop = some (a, b))
    (ha : a ∈ d.tableCells t) {columns : ColumnRange} (bounds : d.columnBounds? a b = some columns)
    (count : Nat) : Ensures (deleteColumns selection count) d fun done d' =>
      (done = true ↔ 0 < count ∧ count < d.columnCount t ∧
        columns.first + count ≤ d.columnCount t) ∧
        if done then ColumnsDeleted d d' t columns.first count else d' = d := by
  rw [deleteColumns, ensures_bind, ensures_selectedColumns reg.steady resolved ha, bounds,
    Option.map_some]
  simp only [ensures_bind, ensures_get]
  split_ifs with refused
  · exact ensures_pure.2 ⟨iff_of_false Bool.false_ne_true (by omega), rfl⟩
  · refine (ensures_deleteColumnTimes_shows reg (by omega) (by omega)).mono ?_
    rintro _ d' ⟨rfl, deleted⟩
    exact ⟨iff_of_true rfl (by omega), deleted⟩

/-- When a column is deleted, the columns behind it move up. With a selection, several columns are
deleted from the first selected one on, or nothing happens. -/
theorem deleteColumns_close_gap (reg : d.Regular t) :
    (∀ column, ∃ done d', (deleteColumn t column).run.run d = (.ok done, d') ∧
      (done = false ↔ d.columnCount t ≤ 1 ∨ d.columnCount t ≤ column) ∧
      if done then ColumnsDeleted d d' t column 1 else d' = d) ∧
    ∀ (selection : Segment) (a b : NodeId),
      d.boundaryCells? selection.start selection.stop = some (a, b) →
      a ∈ d.tableCells t → b ∈ d.tableCells t →
      ∃ r s, d.columnRange? a = some r ∧ d.columnRange? b = some s ∧
        ∀ count, ∃ done d', (deleteColumns selection count).run.run d = (.ok done, d') ∧
          (done = true ↔ 0 < count ∧ count < d.columnCount t ∧
            min r.first s.first + count ≤ d.columnCount t) ∧
          if done then ColumnsDeleted d d' t (min r.first s.first) count else d' = d := by
  refine ⟨ensures_deleteColumn_shows reg, fun selection a b resolved ha hb => ?_⟩
  obtain ⟨r, hr⟩ : ∃ r, d.columnRange? a = some r := ⟨_, reg.columnRange?_eq ha⟩
  obtain ⟨s, hs⟩ : ∃ s, d.columnRange? b = some s := ⟨_, reg.columnRange?_eq hb⟩
  have bounds : d.columnBounds? a b = some (r.join s) := by rw [columnBounds?, hr, hs]
  exact ⟨r, s, hr, hs, ensures_deleteColumns_shows reg resolved ha bounds⟩

theorem deleteColumns_close_gap_braidedColumns :
    braidedColumnsDocument.Regular 1 ∧
      braidedColumnsDocument.boundaryCells? ⟨29, .forward⟩ ⟨36, .forward⟩ = some (14, 17) ∧
      14 ∈ braidedColumnsDocument.tableCells 1 ∧ 17 ∈ braidedColumnsDocument.tableCells 1 ∧
      (∃ d', (deleteColumn 1 2).run.run braidedColumnsDocument = (.ok true, d') ∧
        ColumnsDeleted braidedColumnsDocument d' 1 2 1) ∧
      ∃ d', (deleteColumns ⟨⟨29, .forward⟩, ⟨36, .forward⟩⟩ 2).run.run braidedColumnsDocument =
        (.ok true, d') ∧ ColumnsDeleted braidedColumnsDocument d' 1 1 2 := by
  have loaded : Loaded .standard braidedColumns braidedColumnsDocument 1 :=
    EditorAction.loaded_of_insertTable (by decide +kernel)
  have sound := loaded.sound (by decide +kernel)
  have count : braidedColumnsDocument.columnCount 1 = 3 := by decide +kernel
  have resolved : braidedColumnsDocument.boundaryCells? ⟨29, .forward⟩ ⟨36, .forward⟩ =
      some (14, 17) := by decide +kernel
  have first : 14 ∈ braidedColumnsDocument.tableCells 1 := by decide +kernel
  have last : 17 ∈ braidedColumnsDocument.tableCells 1 := by decide +kernel
  obtain ⟨single, several⟩ := deleteColumns_close_gap sound.regular
  refine ⟨sound.regular, resolved, first, last, ?_, ?_⟩
  · obtain ⟨done, d', run, refused, deleted⟩ := single 2
    have done_true : done = true := by simpa [count] using refused
    subst done_true
    exact ⟨d', run, deleted⟩
  · obtain ⟨r, s, hr, hs, delete⟩ := several ⟨⟨29, .forward⟩, ⟨36, .forward⟩⟩ 14 17 resolved first last
    have range : braidedColumnsDocument.columnRange? 14 = some ⟨1, 1⟩ := by decide +kernel
    have range' : braidedColumnsDocument.columnRange? 17 = some ⟨2, 2⟩ := by decide +kernel
    obtain rfl := Option.some.inj (hr.symm.trans range)
    obtain rfl := Option.some.inj (hs.symm.trans range')
    obtain ⟨done, d', run, possible, deleted⟩ := delete 2
    have done_true : done = true := possible.2 (by simp [count])
    subst done_true
    exact ⟨d', run, deleted⟩

end Action

end RichTable
