import Mathlib
import RichTable.Proofs.Edit.ColumnDelete
import RichTable.Proofs.Editor.Texts

/-!
# Deleting columns by coordinates

An edit gives the columns to delete by their numbers. What it deletes are the columns of whole cells:
from the first column of the cell that the first row shows at the one end, to the last column of the
cell that it shows at the other end. So it deletes the columns that it was given, and others with them
if a cell of the first row reaches over an end (`deleteColumns_takes_whole_cells`).
-/

namespace RichTable

namespace Document

variable {L : Type} {d : Document L} {t : NodeId}

/-- The columns from one cell of a row to another. -/
theorem Regular.columnBounds?_of_row (reg : d.Regular t) {row a b : NodeId} (hr : row ∈ d.tableRows t)
    {i j : Nat} (hij : i ≤ j) (ha : d.coveringCell? row i = some a)
    (hb : d.coveringCell? row j = some b) : ∃ r s, d.columnRange? a = some r ∧
      d.columnRange? b = some s ∧ r.first ≤ i ∧ j ≤ s.last ∧
      d.columnBounds? a b = some ⟨r.first, s.last⟩ := by
  obtain ⟨g, hg, k, hk⟩ := exists_group_of_mem_tableRows hr
  rw [reg.coveringCell?_eq_some hg hk] at ha hb
  -- Two cells that show in the row have no column in common.
  have same : ∀ l, d.shape.Spans l a → d.shape.Spans l b → a = b := fun l hla hlb =>
    Option.some.inj (((reg.coveringCell?_eq_some hg hk).2 ⟨ha.1, hla⟩).symm.trans
      ((reg.coveringCell?_eq_some hg hk).2 ⟨hb.1, hlb⟩))
  obtain ⟨⟨p, hpa, -⟩, hai⟩ := ha
  obtain ⟨⟨q, hqb, -⟩, hbj⟩ := hb
  have range := reg.columnRange?_eq (mem_tableCells.2 ⟨g, hg, p, hpa⟩)
  have range' := reg.columnRange?_eq (mem_tableCells.2 ⟨g, hg, q, hqb⟩)
  simp only [Shape.Spans] at same hai hbj
  have first : d.shape.start a ≤ d.shape.start b := by
    by_contra h
    rw [same (d.shape.start a) (by omega) (by omega)] at h
    omega
  have last : d.shape.start a + d.shape.width a ≤ d.shape.start b + d.shape.width b := by
    by_contra h
    rw [same (d.shape.start b + d.shape.width b - 1) (by omega) (by omega)] at h
    omega
  refine ⟨_, _, range, range', hai.1, by dsimp only; omega, ?_⟩
  rw [columnBounds?, range, range']
  simp only [ColumnRange.join, Option.some.injEq, ColumnRange.mk.injEq]
  omega

end Document

namespace EditorAction

open Document

variable {L : Type} [Length L] {e : Editor L} {t : NodeId}

/-- The columns of the cells at both ends are deleted, unless these are all columns. -/
theorem ensures_deleteColumns_shows (sound : e.doc.Sound t) (attached : root ∈ e.doc.ancestors t)
    {first last : Nat} {a b : NodeId} (ha : e.cellAt? t 0 first = some a)
    (hb : e.cellAt? t 0 last = some b) {columns : ColumnRange}
    (bounds : e.doc.columnBounds? a b = some columns) :
    Ensures (apply t (.deleteColumns first last)) e fun done e' =>
      (done = true ↔ columns.last - columns.first + 1 < e.doc.columnCount t) ∧
        if done then ColumnsDeleted e.doc e'.doc t columns.first (columns.last - columns.first + 1)
        else e' = e := by
  have reg := sound.regular
  have hat := Editor.mem_tableCells_of_cellAt? reg.wf reg.kind ha
  have hbt := Editor.mem_tableCells_of_cellAt? reg.wf reg.kind hb
  obtain ⟨selection, x, y, selected, resolved, hxy⟩ :
      ∃ selection x y, e.selectCells? t (0, first) (0, last) = some selection ∧ _ :=
    Editor.exists_selectCells? (sound.selectable attached) ha hb
  have hxt : x ∈ e.doc.tableCells t := by rcases hxy with ⟨rfl, -⟩ | ⟨rfl, -⟩ <;> assumption
  have hbounds := (columnBounds?_of_ends hxy).trans bounds
  obtain ⟨_, bounds', ordered, inside⟩ := reg.exists_columnBounds? hat hbt
  obtain rfl := Option.some.inj (bounds'.symm.trans bounds)
  simp only [apply, ensures_bind, ensures_get, selected, deleteColumns, resolved,
    reg.wf.tableOfCell?_eq reg.kind hxt, ensures_onDocument, Action.ensures_place_steady reg.steady,
    hbounds, ensures_pure]
  refine (Action.ensures_deleteColumns_shows reg resolved hxt hbounds _).mono ?_
  rintro done d' ⟨possible, deleted⟩
  have possible : done = true ↔ _ := possible.trans ⟨fun h => h.2.1, fun h => ⟨by omega, h, by omega⟩⟩
  cases done with
  | true => exact ensures_touchIf fun e' he => ⟨possible, he ▸ deleted⟩
  | false =>
    obtain rfl : d' = e.doc := deleted
    exact ensures_pure.2 ⟨possible, rfl⟩

end EditorAction

namespace Session

open Document

variable {L : Type} [Length L] {s : Session L} {t : NodeId}

/-- Deleting the columns from `first` to `last` deletes those of the cells that the first row shows in
the columns `first` and `last`, and all between them. If these are all columns, nothing happens. -/
theorem deleteColumns_takes_whole_cells (live : s.liveTable? = some t)
    (sound : s.editor.doc.Sound t) {first last : Nat} (ordered : first ≤ last)
    (inside : last < s.editor.doc.columnCount t) :
    ∃ a b r q, s.editor.cellAt? t 0 first = some a ∧ s.editor.cellAt? t 0 last = some b ∧
      s.editor.doc.columnRange? a = some r ∧ s.editor.doc.columnRange? b = some q ∧
      r.first ≤ first ∧ last ≤ q.last ∧
      ∃ done s', s.apply (.deleteColumns first last) = (.ok done, s') ∧
        (done = true ↔ q.last - r.first + 1 < s.editor.doc.columnCount t) ∧
        if done then
          ColumnsDeleted s.editor.doc s'.editor.doc t r.first (q.last - r.first + 1)
        else s' = s := by
  have reg := sound.regular
  have attached : root ∈ s.editor.doc.ancestors t :=
    reg.wf.isAttached_iff.1 (Option.filter_eq_some_iff.1 live).2
  obtain ⟨row, hrow⟩ : ∃ row, (s.editor.doc.tableRows t)[0]? = some row :=
    ⟨_, List.getElem?_eq_getElem (List.length_pos_of_ne_nil
      (reg.tableRows_ne_nil (Nat.zero_lt_of_lt inside)))⟩
  have hr := List.mem_of_getElem? hrow
  obtain ⟨a, ha⟩ := reg.exists_coveringCell? hr (ordered.trans_lt inside)
  obtain ⟨b, hb⟩ := reg.exists_coveringCell? hr inside
  obtain ⟨r, q, hra, hqb, hfirst, hlast, bounds⟩ := reg.columnBounds?_of_row hr ordered ha hb
  have hat : s.editor.cellAt? t 0 first = some a := by rwa [Editor.cellAt?, hrow]
  have hbt : s.editor.cellAt? t 0 last = some b := by rwa [Editor.cellAt?, hrow]
  obtain ⟨done, e', run, possible, deleted⟩ :=
    EditorAction.ensures_deleteColumns_shows sound attached hat hbt bounds
  refine ⟨a, b, r, q, hat, hbt, hra, hqb, hfirst, hlast, done, { s with editor := e' }, ?_, possible, ?_⟩
  · rw [apply_of_live live, run]
  · cases done with
    | true => exact deleted
    | false =>
      obtain rfl : e' = s.editor := deleted
      rfl

/-- The first row has a wide cell in the middle, and the cells below it are broken elsewhere. -/
def steppedHead : TableOutline Int where
  groups := [[[{ text := "x" }, { text := "wide", columnSpan := 2 }, { text := "z" }],
    [{ text := "p", columnSpan := 2, rowSpan := 2 }, { text := "q" }, { text := "r" }],
    [{ text := "u", columnSpan := 2 }]]]

/-- A session with the table of `steppedHead`. -/
def steppedSession : Session Int := ((ofConfig .standard).load steppedHead).2

theorem deleteColumns_takes_whole_cells_steppedSession :
    steppedSession.liveTable? = some 1 ∧ steppedSession.editor.doc.Sound 1 ∧
      1 < steppedSession.editor.doc.columnCount 1 ∧
      ∃ s', steppedSession.apply (.deleteColumns 0 1) = (.ok true, s') ∧
        ColumnsDeleted steppedSession.editor.doc s'.editor.doc 1 0 3 := by
  have live : steppedSession.liveTable? = some 1 := by decide +kernel
  have count : steppedSession.editor.doc.columnCount 1 = 4 := by decide +kernel
  obtain ⟨t, loaded⟩ : ∃ t, steppedSession.Sound t := exists_sound_load (by decide +kernel)
  obtain rfl : t = 1 := Option.some.inj (loaded.table.symm.trans (by decide +kernel))
  obtain ⟨a, b, r, q, ha, hb, hr, hq, -, -, done, s', run, possible, deleted⟩ :=
    deleteColumns_takes_whole_cells live loaded.sound (Nat.zero_le 1) (by omega)
  have first : (steppedSession.editor.cellAt? 1 0 0).bind steppedSession.editor.doc.columnRange? =
      some ⟨0, 0⟩ := by decide +kernel
  have last : (steppedSession.editor.cellAt? 1 0 1).bind steppedSession.editor.doc.columnRange? =
      some ⟨1, 2⟩ := by decide +kernel
  rw [ha, Option.bind_some, hr] at first
  rw [hb, Option.bind_some, hq] at last
  cases first
  cases last
  have done_true : done = true := possible.2 (by simp [count])
  subst done_true
  exact ⟨live, loaded.sound, by omega, s', run, deleted⟩

/-- The first cell of the first row is above two cells. -/
def wideHead : TableOutline Int where
  groups := [[[{ text := "wide", columnSpan := 2 }, { text := "x" }],
    [{ text := "a" }, { text := "b" }, { text := "c" }]]]

/-- A session with the table of `wideHead`. -/
def wideSession : Session Int := ((ofConfig .standard).load wideHead).2

/-- The outcome of deleting the first column. -/
def narrowedSession : Except EditError Bool × Session Int := wideSession.apply (.deleteColumns 0 0)

/-- Deleting one column may delete two. -/
theorem deleteColumns_past_last : wideSession.liveTable? = some 1 ∧
    wideSession.editor.doc.Regular 1 ∧ wideSession.editor.doc.columnCount 1 = 3 ∧
    ∃ s', wideSession.apply (.deleteColumns 0 0) = (.ok true, s') ∧
      s'.editor.doc.columnCount 1 = 1 ∧
      ¬ ColumnsDeleted wideSession.editor.doc s'.editor.doc 1 0 1 := by
  have count : wideSession.editor.doc.columnCount 1 = 3 := by decide +kernel
  have count' : narrowedSession.2.editor.doc.columnCount 1 = 1 := by decide +kernel
  have done : narrowedSession.1 = .ok true := by decide +kernel
  have run : wideSession.apply (.deleteColumns 0 0) = (.ok true, narrowedSession.2) := by
    rw [← done, narrowedSession]
  obtain ⟨t, loaded⟩ : ∃ t, wideSession.Sound t := exists_sound_load (by decide +kernel)
  obtain rfl : t = 1 := Option.some.inj (loaded.table.symm.trans (by decide +kernel))
  refine ⟨by decide +kernel, loaded.sound.regular, count, _, run, count', fun deleted => ?_⟩
  have := deleted.columns
  omega

end Session

end RichTable
