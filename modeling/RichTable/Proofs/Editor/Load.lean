import Mathlib
import RichTable.Session
import RichTable.Proofs.Edit.Build
import RichTable.Proofs.Editor.Apply
import RichTable.Proofs.Tree.Calls

/-!
# A table in a new document

Scripts and sessions start alike: a new editor builds a table from an outline, places it and corrects
its borders. This always succeeds (`ensures_insertTable`). `Loaded` says what the table is then; it is
sound as soon as its grid has no fault.
-/

namespace RichTable

namespace Document

variable {L : Type} {d : Document L} {t : NodeId} {config : Config L} {outline : TableOutline L}

/-- The table has been built from an outline below the root, and been placed. Nothing but its borders
has changed since. -/
def Loaded (config : Config L) (outline : TableOutline L) (d : Document L) (t : NodeId) : Prop :=
  ∃ b : Document L, b.WellFormed ∧ b.parent? t = some root ∧ TableBuilt config b t outline ∧
    Rebordered (b.placed t) d

theorem TableBuilt.kind (h : TableBuilt config d t outline) : d.kind? t = some .table := h.2.1

namespace Loaded

theorem wf (h : Loaded config outline d t) : d.WellFormed := by
  obtain ⟨b, wf, -, -, bordered⟩ := h
  exact bordered.same.wellFormed ((wf.sameTree_placed t).wellFormed wf)

theorem kind (h : Loaded config outline d t) : d.kind? t = some .table := by
  obtain ⟨b, wf, -, built, bordered⟩ := h
  rw [bordered.same.kind, (wf.sameTree_placed t).kind, built.kind]

theorem parent (h : Loaded config outline d t) : d.parent? t = some root := by
  obtain ⟨b, wf, parent, -, bordered⟩ := h
  rw [bordered.same.parent, (wf.sameTree_placed t).parent, parent]

theorem settled (h : Loaded config outline d t) : d.Settled t := by
  obtain ⟨b, wf, -, built, bordered⟩ := h
  have same := wf.sameTree_placed t
  exact bordered.settled (same.wellFormed wf) ((same.kind t).trans built.kind)
    (wf.settled_placed built.kind)

theorem filled (h : Loaded config outline d t) : d.Filled t := by
  obtain ⟨b, wf, -, built, bordered⟩ := h
  have same := (wf.sameTree_placed t).trans bordered.same
  intro c hc
  rw [HasParagraphs, same.children]
  simpa only [HasParagraphs, same.kind] using built.filled c (same.tableCells t ▸ hc)

theorem spans (h : Loaded config outline d t) : ∀ c ∈ d.tableCells t, ∀ props,
    d.cell? c = some props → 1 ≤ props.columnSpan ∧ 1 ≤ props.rowSpan := by
  obtain ⟨b, wf, -, built, bordered⟩ := h
  have same := (wf.sameTree_placed t).trans bordered.same
  intro c hc props hp
  rw [same.tableCells] at hc
  obtain ⟨columns, hcolumns⟩ := wf.exists_columns t
  have laid := (wf.laid_placed hcolumns).trans_rebordered bordered
  obtain ⟨q, hq⟩ := exists_cell? ((same.kind c).symm.trans (kind?_of_cell? hp))
  have layout := laid.layout c
  simp only [hp, hq, Option.map_some, if_pos hc, Option.some.injEq, CellProps.layout,
    Prod.mk.injEq] at layout
  rw [layout.1, layout.2.1]
  exact built.spans c hc q hq

/-- A loaded table whose grid has no fault is sound. -/
theorem sound (h : Loaded config outline d t) (grid : d.gridFault? t = none) : d.Sound t :=
  ⟨⟨h.wf, h.kind, h.settled, (h.wf.gridFault?_eq_none_iff h.kind h.settled).1 grid, h.spans⟩,
    h.filled⟩

end Loaded

end Document

namespace EditorAction

open Document

variable {L : Type} [Length L]

/-- Inserting a table into a new editor succeeds. -/
theorem ensures_insertTable (config : Config L) (outline : TableOutline L) :
    Ensures (insertTable outline) { config } fun t e =>
      Loaded config outline e.doc t ∧ e.config = config ∧ e.dirty = [t] ∧ e.revision = 1 := by
  have wf : (.empty : Document L).WellFormed := .empty
  simp only [insertTable, ensures_bind, ensures_get, ensures_onDocument, ensures_modify, ensures_pure]
  refine (Action.ensures_buildTable config outline wf wf.root_kind).mono ?_
  rintro t b ⟨wfb, parent, -, built⟩
  rw [Action.ensures_place wfb built.kind]
  have same := wfb.sameTree_placed t
  refine (Action.ensures_correctBorders (same.wellFormed wfb)
    ((same.kind t).trans built.kind)).mono fun _ d bordered => ?_
  exact ⟨⟨b, wfb, parent, built, bordered⟩, rfl, rfl, rfl⟩

theorem loaded_of_insertTable {config : Config L} {outline : TableOutline L} {t : NodeId}
    (h : ((insertTable outline).run.run { config }).1 = .ok t) :
    Loaded config outline ((insertTable outline).run.run { config }).2.doc t := by
  obtain ⟨t', e, run, loaded, -⟩ := ensures_insertTable config outline
  rw [run] at h ⊢
  cases h
  exact loaded

end EditorAction

namespace Session

open Document

variable {L : Type} {s : Session L} {t : NodeId}

/-- A table without a parent other than the root is live as long as it has a parent. -/
theorem liveTable?_eq (wf : s.editor.doc.WellFormed) (table : s.table = some t)
    (known : s.editor.doc.kind? t = some .table)
    (parent : ∀ p, s.editor.doc.parent? t = some p → p = root) :
    s.liveTable? = if s.editor.doc.parent? t = some root then some t else none := by
  rw [liveTable?, table, Option.filter_some]
  congr 1
  rw [wf.isAttached_iff, eq_iff_iff]
  cases hp : s.editor.doc.parent? t with
  | none =>
    rw [wf.ancestors_of_no_parent (lt_size_of_kind? known) hp, List.mem_singleton]
    simp only [reduceCtorEq, iff_false]
    rintro rfl
    rw [wf.root_kind] at known
    cases known
  | some p =>
    obtain rfl := parent p hp
    simp [wf.mem_ancestors_of_parent hp, wf.self_mem_ancestors wf.root_lt_size]

variable [Length L]

theorem apply_of_live (live : s.liveTable? = some t) (edit : Edit L) :
    s.apply edit = (((EditorAction.apply t edit).run.run s.editor).1,
      { s with editor := ((EditorAction.apply t edit).run.run s.editor).2 }) := by
  rw [apply, live]
  rfl

theorem apply_of_not_live (gone : s.liveTable? = none) (edit : Edit L) :
    s.apply edit = (.ok false, s) := by
  rw [apply, gone]

/-- Loading a table always succeeds. -/
theorem exists_load (s : Session L) (outline : TableOutline L) :
    ∃ s' t, s.load outline = (.ok (), s') ∧ s'.table = some t ∧
      Loaded s.editor.config outline s'.editor.doc t ∧ s'.editor.config = s.editor.config ∧
      s'.editor.dirty = [] ∧ s'.editor.revision = 1 := by
  obtain ⟨t, e, run, loaded, config, -, revision⟩ :=
    EditorAction.ensures_insertTable s.editor.config outline
  exact ⟨_, t, by rw [load, run], rfl, loaded, config, rfl, revision⟩

end Session

end RichTable
