import Mathlib
import RichTable.Proofs.Edit.Border
import RichTable.Proofs.Editor.Lifetime

/-!
# Borders along a run of requests

An editor takes requests by selection and by grid coordinates. All of them come down to the same edits,
since a selection finds cells of the table and nothing else as long as the table is all there is in the
document. So the borders of a table that was built without cell spacing belong to the places of its
cells after any requests, but for the left borders of cells of rows inserted last
(`Editor.borders_of_reached`).
-/

namespace RichTable

/-- A request to an editor with a table, by grid coordinates or by selection. -/
inductive Request (L : Type) where
  | edit (edit : Edit L)
  | insertRows (selection : Segment) (count : Nat) (side : Side)
  | deleteRows (selection : Segment)
  | insertColumns (selection : Segment) (count : Nat) (side : Side)
  | deleteColumns (selection : Segment)
  | mergeCells (selection : Segment)
  | splitCell (selection : Segment) (horizontal vertical : Nat)
  /-- Drops a column border of the table, whenever its drag was started. -/
  | dropBorder (drag : ColumnDrag L) (x : L)

/-- The number of nodes there were when rows were last inserted, unless all borders of the table have
been corrected since. -/
def Request.since {L : Type} (d : Document L) (since : Option NodeId) : Request L → Option NodeId
  | .edit (.insertRows ..) | .insertRows .. => some d.size
  | .edit (.deleteRows ..) | .edit (.insertColumns ..) | .edit (.deleteColumns ..) => none
  | .deleteRows .. | .insertColumns .. | .deleteColumns .. => none
  | _ => since

variable {L : Type}

namespace Document

variable {d : Document L} {t x y : NodeId}

theorem WellFormed.mem_tableRows_of_rowOf? (wf : d.WellFormed) (hx : x ∈ d.tableCells t) {row : NodeId}
    (h : d.rowOf? x = some row) : row ∈ d.tableRows t := by
  obtain ⟨row', hrow', hmem⟩ := List.mem_flatMap.1 hx
  have hp := (Option.filter_eq_some_iff.1 h).1
  rwa [Option.some.inj (hp.symm.trans (wf.mem_children.1 hmem))]

/-- The last row of a cell is a row of the table. -/
theorem WellFormed.mem_tableRows_of_bottomRow? {e : Editor L} (wf : e.doc.WellFormed)
    (hx : x ∈ e.doc.tableCells t) {row : NodeId} (h : e.bottomRow? x = some row) :
    row ∈ e.doc.tableRows t := by
  simp only [Editor.bottomRow?, Option.bind_eq_bind, Option.bind_eq_some_iff] at h
  obtain ⟨top, htop, group, hgroup, i, -, hrow⟩ := h
  obtain ⟨g, hg, hmem⟩ := List.mem_flatMap.1 (wf.mem_tableRows_of_rowOf? hx htop)
  obtain rfl := Option.some.inj (hgroup.symm.trans (wf.mem_children.1 hmem))
  exact List.mem_flatMap.2 ⟨group, hg, List.mem_of_getElem? hrow⟩

/-- Rows are inserted next to a row of the table. -/
theorem WellFormed.mem_tableRows_of_insertionRow? {e : Editor L} (wf : e.doc.WellFormed)
    (hx : x ∈ e.doc.tableCells t) (hy : y ∈ e.doc.tableCells t) {side : Side} {row : NodeId}
    (h : e.insertionRow? x y side = some row) : row ∈ e.doc.tableRows t := by
  have upper : ∀ {r s}, e.upperRow? r s = some row → r = some row ∨ s = some row := by
    rintro (_ | r) (_ | s) h <;> simp [Editor.upperRow?] at h ⊢
    · exact h
    · exact h
    · split_ifs at h <;> simp [h]
  have lower : ∀ {r s}, e.lowerRow? r s = some row → r = some row ∨ s = some row := by
    rintro (_ | r) (_ | s) h <;> simp [Editor.lowerRow?] at h ⊢
    · exact h
    · exact h
    · split_ifs at h <;> simp [h]
  cases side with
  | before =>
    rcases upper h with h | h
    · exact wf.mem_tableRows_of_rowOf? hx h
    · exact wf.mem_tableRows_of_rowOf? hy h
  | after =>
    rcases lower h with h | h
    · exact wf.mem_tableRows_of_bottomRow? hx h
    · exact wf.mem_tableRows_of_bottomRow? hy h

/-- The row, the row group and the table of a cell. -/
theorem WellFormed.exists_parents (wf : d.WellFormed) (ht : d.kind? t = some .table)
    (hx : x ∈ d.tableCells t) : ∃ row g, d.parentOfKind? x .row = some row ∧
      d.parentOfKind? row .rowGroup = some g ∧ d.parentOfKind? g .table = some t ∧
      g ∈ d.children t := by
  obtain ⟨g, hg, r, hs⟩ := mem_tableCells.1 hx
  obtain ⟨row, hr, hc⟩ := stored_rowsOf.1 hs
  have hgk := wf.kind_group ht hg
  have hrow := List.mem_of_getElem? hr
  exact ⟨row, g, wf.rowOf?_eq (wf.kind_row hgk hrow) hc, wf.groupOf?_eq hgk hrow,
    wf.tableOf?_eq ht hg, hg⟩

variable [Length L] {since : Option NodeId}

/-- A selection finds cells of the table. -/
theorem Kempt.mem_of_boundaryCells? (h : d.Kempt t since) {a m : Position}
    (found : d.boundaryCells? a m = some (x, y)) : x ∈ d.tableCells t ∧ y ∈ d.tableCells t := by
  have reg := h.sound.regular
  obtain ⟨⟨hx, hx'⟩, hy, hy'⟩ := reg.wf.attached_boundaryCells? found
  exact ⟨reg.wf.mem_tableCells_of_attached reg.kind h.sound.filled h.sole hx hx',
    reg.wf.mem_tableCells_of_attached reg.kind h.sound.filled h.sole hy hy'⟩

/-- Other column widths do not touch borders. -/
theorem Kempt.setColumns (h : d.Kempt t since) (widths : List (ColumnWidth L)) :
    (d.modifyTable t fun props => { props with columns := widths }).Kempt t since := by
  have reg := h.sound.regular
  have same := SameTree.modifyTable d t fun props => { props with columns := widths }
  refine h.of_anchored ((Anchored.refl reg.wf).restyled (.modifyTable d t fun _ => rfl))
    (h.sound.of_inherits (reg.modifyTable fun _ => rfl) (.of_sameTree reg.wf reg.kind same))
    fun _ _ bordered c hc props hp => ?_
  rw [same.tableCells] at hc
  rw [cell?_modifyTable] at hp
  rw [same.parent, same.tableRows]
  exact bordered c hc props hp

end Document

namespace Action

open Document

variable [Length L] {d : Document L} {t : NodeId} {since : Option NodeId}

theorem kempt_deleteRows (h : d.Kempt t since) (selection : Segment) :
    Ensures (deleteRows selection) d fun result d' =>
      d'.Kempt t (if result.1 then none else since) := by
  have reg := h.sound.regular
  refine ensures_bind.2 (ensures_get.2 ?_)
  split
  · exact ensures_pure.2 h
  next x y found =>
  obtain ⟨hx, hy⟩ := h.mem_of_boundaryCells? found
  obtain ⟨row, g, hrow, hgroup, -, hg⟩ := reg.wf.exists_parents reg.kind hx
  obtain ⟨row', -, hrow', -⟩ := reg.wf.exists_parents reg.kind hy
  simp only [ensures_bind, ensures_requireParent hrow, ensures_requireParent hrow',
    ensures_requireParent hgroup, ensures_get]
  split
  · exact ensures_pure.2 h
  split
  · refine ensures_bind.2 ((kempt_deleteRowInterval h hg _ _).mono fun done d' h' => ?_)
    cases done <;> exact ensures_pure.2 h'
  · exact ensures_pure.2 h

theorem kempt_mergeCells (h : d.Kempt t since) (selection : Segment) :
    Ensures (mergeCells selection) d fun _ d' => d'.Kempt t since := by
  have reg := h.sound.regular
  refine ensures_bind.2 (ensures_get.2 ?_)
  split
  · exact ensures_pure.2 h
  next x y found =>
  obtain ⟨hx, hy⟩ := h.mem_of_boundaryCells? found
  obtain ⟨row, g, hrow, hgroup, htable, hg⟩ := reg.wf.exists_parents reg.kind hx
  obtain ⟨row', g', hrow', hgroup', -⟩ := reg.wf.exists_parents reg.kind hy
  simp only [requireGroup, ensures_bind, ensures_requireParent hrow, ensures_requireParent hrow',
    ensures_requireParent hgroup, ensures_requireParent hgroup']
  split
  · exact ensures_pure.2 h
  simp only [ensures_bind, ensures_requireParent htable, ensures_place_steady reg.steady, ensures_get]
  split
  · exact kempt_mergeRect h hg _
  · exact ensures_pure.2 h

theorem kempt_insertColumns (h : d.Kempt t since) (selection : Segment) (count : Nat) (side : Side) :
    Ensures (insertColumns selection count side) d fun done d' =>
      d'.Kempt t (if done then none else since) := by
  have reg := h.sound.regular
  rw [insertColumns]
  split
  · exact ensures_pure.2 h
  next hcount =>
  cases found : d.boundaryCells? selection.start selection.stop with
  | none =>
    simp only [selectedColumns, ensures_bind, ensures_get, found, ensures_pure]
    exact h
  | some ends =>
    obtain ⟨hx, hy⟩ := h.mem_of_boundaryCells? found
    obtain ⟨columns, hcolumns, -, hlast⟩ := reg.exists_columnBounds? hx hy
    rw [ensures_bind, ensures_selectedColumns reg.steady found hx, hcolumns]
    refine ensures_bind.2 ((kempt_insertColumnTimes h _ (by omega) count).mono fun _ d' h' => ?_)
    rw [if_neg hcount] at h'
    exact ensures_pure.2 h'

end Action

namespace EditorAction

open Document

variable [Length L] {α : Type} {e : Editor L} {t : NodeId} {since : Option NodeId}

/-- Serves a request and tells whether it took effect. -/
def serve (t : NodeId) : Request L → EditorAction L Bool
  | .edit edit => apply t edit
  | .insertRows selection count side => return (← insertRows selection count side).isSome
  | .deleteRows selection => return (← deleteRows selection).1
  | .insertColumns selection count side => insertColumns selection count side
  | .deleteColumns selection => deleteColumns selection
  | .mergeCells selection => return (← mergeCells selection).isSome
  | .splitCell selection horizontal vertical =>
    return (← splitCell selection horizontal vertical).isSome
  | .dropBorder drag x => commitDrag { drag with table := t } x

omit [Length L] in
theorem ensures_onDocument_touchIf {a : Action L α} {done : α → Bool} {table : Option NodeId}
    {Q : α → Document L → Prop} (h : Ensures a e.doc Q) :
    Ensures (do
      let x ← onDocument a
      touchIf (done x) table
      return x) e fun x e' => Q x e'.doc :=
  ensures_bind.2 <| ensures_onDocument.2 <| h.mono fun _ _ hq =>
    ensures_bind.2 (ensures_touchIf fun _ he => ensures_pure.2 (he ▸ hq))

theorem kempt_insertRowsAt (h : e.doc.Kempt t since) (row count : Nat) (side : Side) :
    Ensures (insertRowsAt t row count side) e fun range e' =>
      e'.doc.Kempt t (if range.isSome then some e.doc.size else since) := by
  refine ensures_bind.2 (ensures_get.2 ?_)
  split
  · exact ensures_pure.2 h
  · next reference hr =>
    exact ensures_onDocument_touchIf (Action.kempt_insertRows h (List.mem_of_getElem? hr) count side)

theorem kempt_insertRows (h : e.doc.Kempt t since) (selection : Segment) (count : Nat) (side : Side) :
    Ensures (insertRows selection count side) e fun range e' =>
      e'.doc.Kempt t (if range.isSome then some e.doc.size else since) := by
  refine ensures_bind.2 (ensures_get.2 ?_)
  split
  · exact ensures_pure.2 h
  next x y found =>
  obtain ⟨hx, hy⟩ := h.mem_of_boundaryCells? found
  split
  · next reference table href _ =>
    exact ensures_onDocument_touchIf (Action.kempt_insertRows h
      (h.sound.regular.wf.mem_tableRows_of_insertionRow? hx hy href) count side)
  · exact ensures_pure.2 h

theorem kempt_deleteRowRange (h : e.doc.Kempt t since) (first last : Nat) :
    Ensures (deleteRowRange t first last) e fun done e' =>
      e'.doc.Kempt t (if done then none else since) := by
  refine ensures_bind.2 (ensures_get.2 ?_)
  split
  · exact ensures_pure.2 h
  next g i j hloc =>
  exact ensures_onDocument_touchIf (Action.kempt_deleteRowInterval h (mem_of_locateRows? hloc) i j)

theorem kempt_deleteColumns (h : e.doc.Kempt t since) (selection : Segment) :
    Ensures (deleteColumns selection) e fun done e' =>
      e'.doc.Kempt t (if done then none else since) := by
  have reg := h.sound.regular
  simp only [deleteColumns, ensures_bind, ensures_get]
  cases found : e.doc.boundaryCells? selection.start selection.stop with
  | none => exact ensures_pure.2 h
  | some ends =>
    obtain ⟨hx, hy⟩ := h.mem_of_boundaryCells? found
    obtain ⟨columns, hcolumns, hle, hlast⟩ := reg.exists_columnBounds? hx hy
    simp only [reg.wf.tableOfCell?_eq reg.kind hx, ensures_bind, ensures_get, ensures_onDocument,
      Action.ensures_place_steady reg.steady, hcolumns, Action.deleteColumns,
      Action.ensures_selectedColumns reg.steady found hx, Option.map_some, ensures_pure]
    split
    · exact ensures_pure.2 (ensures_touchIf fun e' he => he ▸ h)
    · refine (Action.kempt_deleteColumnTimes h (by omega) (by omega)).mono ?_
      rintro _ d' ⟨rfl, h'⟩
      exact ensures_touchIf fun e' he => he ▸ h'

theorem kempt_mergeRectangle (h : e.doc.Kempt t since) (rect : CellRect) :
    Ensures (mergeRectangle t rect) e fun _ e' => e'.doc.Kempt t since := by
  refine ensures_bind.2 (ensures_get.2 ?_)
  split
  · exact ensures_pure.2 h
  next g top bottom hloc =>
  exact ensures_onDocument_touchIf (Action.kempt_mergeRect h (mem_of_locateRows? hloc) _)

theorem kempt_splitCell (h : e.doc.Kempt t since) (selection : Segment) (horizontal vertical : Nat) :
    Ensures (splitCell selection horizontal vertical) e fun _ e' => e'.doc.Kempt t since :=
  ensures_bind.2 <| ensures_get.2 <| ensures_onDocument_touchIf <|
    Action.kempt_splitCell h (fun _ _ found => (h.mem_of_boundaryCells? found).1) horizontal vertical

theorem kempt_commitDrag (h : e.doc.Kempt t since) {drag : ColumnDrag L} (ht : drag.table = t) (x : L) :
    Ensures (commitDrag drag x) e fun _ e' => e'.doc.Kempt t since := by
  simp only [commitDrag, ensures_bind, ensures_get, ensures_set, ensures_pure]
  refine ensures_touchIf fun e' he => ?_
  rw [he]
  rcases drag.commit_eq e.doc x with eq | ⟨widths, eq⟩
  · rwa [eq]
  · rw [eq, ht]
    exact h.setColumns widths

theorem kempt_resizeColumn (h : e.doc.Kempt t since) (column : Nat) (delta : L) :
    Ensures (resizeColumn t column delta) e fun _ e' => e'.doc.Kempt t since := by
  simp only [resizeColumn, ensures_bind, ensures_get]
  split
  · exact ensures_pure.2 h
  next drag border hdrag =>
  simp only [Option.bind_eq_bind, Option.bind_eq_some_iff, ColumnDrag.ofLayout?,
    Option.map_eq_some_iff] at hdrag
  obtain ⟨layout, -, rect, -, drag', ⟨_, -, rfl⟩, hdrag⟩ := hdrag
  cases hdrag
  exact kempt_commitDrag h rfl _

/-! ## Requests -/

theorem kempt_apply (h : e.doc.Kempt t since) (edit : Edit L) :
    Ensures (apply t edit) e fun done e' =>
      e'.doc.Kempt t (if done then (Request.edit edit).since e.doc since else since) := by
  cases edit with
  | insertRows row count side =>
    exact ensures_bind.2 ((kempt_insertRowsAt h row count side).mono fun _ _ h' => ensures_pure.2 h')
  | deleteRows first last => exact kempt_deleteRowRange h first last
  | insertColumns column count side =>
    refine ensures_bind.2 (ensures_get.2 ?_)
    split
    · exact ensures_bind.2 (ensures_get.2
        (ensures_onDocument_touchIf (Action.kempt_insertColumns h _ count side)))
    · exact ensures_pure.2 h
  | deleteColumns first last =>
    refine ensures_bind.2 (ensures_get.2 ?_)
    split
    · exact kempt_deleteColumns h _
    · exact ensures_pure.2 h
  | merge rect =>
    simp only [Request.since, ite_self]
    exact ensures_bind.2 ((kempt_mergeRectangle h rect).mono fun _ _ h' => ensures_pure.2 h')
  | split row column horizontal vertical =>
    simp only [Request.since, ite_self]
    refine ensures_bind.2 (ensures_get.2 ?_)
    split
    · exact ensures_bind.2 ((kempt_splitCell h _ horizontal vertical).mono fun _ _ h' =>
        ensures_pure.2 h')
    · exact ensures_pure.2 h
  | resizeColumn column delta =>
    simp only [Request.since, ite_self]
    exact kempt_resizeColumn h column delta

/-- The step of the invariant. -/
theorem kempt_serve (h : e.doc.Kempt t since) (r : Request L) :
    Ensures (serve t r) e fun done e' =>
      e'.doc.Kempt t (if done then r.since e.doc since else since) := by
  cases r with
  | edit edit => exact kempt_apply h edit
  | insertRows selection count side =>
    exact ensures_bind.2 ((kempt_insertRows h selection count side).mono fun _ _ h' =>
      ensures_pure.2 h')
  | deleteRows selection =>
    exact ensures_bind.2 (ensures_bind.2 (ensures_get.2 ((ensures_onDocument_touchIf
      (Action.kempt_deleteRows h selection)).mono fun _ _ h' => ensures_pure.2 h')))
  | insertColumns selection count side =>
    exact ensures_bind.2 (ensures_get.2
      (ensures_onDocument_touchIf (Action.kempt_insertColumns h selection count side)))
  | deleteColumns selection => exact kempt_deleteColumns h selection
  | mergeCells selection =>
    simp only [Request.since, ite_self]
    exact ensures_bind.2 (ensures_bind.2 (ensures_get.2 ((ensures_onDocument_touchIf
      (Action.kempt_mergeCells h selection)).mono fun _ _ h' => ensures_pure.2 h')))
  | splitCell selection horizontal vertical =>
    simp only [Request.since, ite_self]
    exact ensures_bind.2 ((kempt_splitCell h selection horizontal vertical).mono fun _ _ h' =>
      ensures_pure.2 h')
  | dropBorder drag x =>
    simp only [Request.since, ite_self]
    exact kempt_commitDrag h rfl x

/-- A table that was just built has no loose cells. -/
theorem kempt_insertTable (config : Config L) (outline : TableOutline L)
    (unspaced : ¬ 0 < outline.cellSpacing.getD config.cellSpacing) :
    Ensures (insertTable outline) { config } fun t e =>
      e.doc.gridFault? t = none → e.doc.Kempt t none := by
  have wf : (.empty : Document L).WellFormed := .empty
  simp only [insertTable, ensures_bind, ensures_get, ensures_onDocument, ensures_modify, ensures_pure]
  refine (Action.ensures_buildTable config outline wf wf.root_kind).mono ?_
  rintro t b ⟨wfb, parent, children, built⟩
  rw [Action.ensures_place wfb built.kind]
  have same := wfb.sameTree_placed t
  have wfp := same.wellFormed wfb
  obtain ⟨props, hp⟩ := exists_table? ((same.kind t).trans built.kind)
  rw [Action.ensures_correctBorders_iff wfp hp]
  have unspaced : (b.placed t).Unspaced t := by
    intro p hp
    have spacing := (Restyled.placed wfb t).spacing t
    rw [hp, built.1, Option.map_some, Option.map_some, Option.some.injEq] at spacing
    exact spacing ▸ unspaced
  have bordered := rebordered_reborder (b.placed t) props.cellSpacing ((b.placed t).tableRows t).head?
    ((b.placed t).tableCells t)
  have edged := bordered_reborder wfp hp unspaced
  generalize (b.placed t).reborder _ _ _ = d at bordered edged ⊢
  change d.gridFault? t = none → d.Kempt t none
  intro grid
  have loaded : Loaded config outline d t := ⟨b, wfb, parent, built, bordered⟩
  refine ⟨loaded.sound grid, fun p hp => unspaced p (bordered.table t ▸ hp), fun x hx => ?_,
    fun _ => edged.mono fun _ => False.elim⟩
  rw [bordered.same.parent, same.parent, ← wfb.mem_children, children,
    show (.empty : Document L).children root = [] from rfl] at hx
  exact List.mem_singleton.1 hx

end EditorAction

/-- The states of an editor that requests lead to, with the number of nodes there were when the rows
were inserted whose cells may be loose. -/
inductive Editor.Reached [Length L] (t : NodeId) (start : Editor L) :
    Editor L → Option NodeId → Prop where
  | start : Reached t start start none
  | serve {e e' : Editor L} {since : Option NodeId} {done : Bool} (request : Request L) :
      Reached t start e since → (EditorAction.serve t request).run.run e = (.ok done, e') →
      Reached t start e' (if done then request.since e.doc since else since)

namespace Editor

open Document

variable [Length L] {t : NodeId} {start e : Editor L} {since : Option NodeId}

theorem Reached.kempt (h : Reached t start e since) (kempt : start.doc.Kempt t none) :
    e.doc.Kempt t since := by
  induction h with
  | start => exact kempt
  | serve request _ run ih =>
    obtain ⟨_, _, run', h⟩ := EditorAction.kempt_serve ih request
    rw [run] at run'
    cases run'
    exact h

/-- Build a table with a regular grid and without cell spacing, and serve any requests. As long as the
table is part of the document, its cells have the borders that belong to their places, except that cells
of the rows inserted last may lack a left border. -/
theorem borders_of_reached {config : Config L} {outline : TableOutline L}
    (built : (EditorAction.insertTable outline).run.run { config } = (.ok t, start))
    (grid : start.doc.gridFault? t = none)
    (unspaced : ¬ 0 < outline.cellSpacing.getD config.cellSpacing)
    (reached : Reached t start e since) (attached : e.doc.isAttached t = true) :
    e.doc.Bordered t (MadeSince since) := by
  obtain ⟨_, _, run, initial⟩ := EditorAction.kempt_insertTable config outline unspaced
  rw [built] at run
  cases run
  have kempt := reached.kempt (initial grid)
  have reg := kempt.sound.regular
  refine kempt.bordered ?_
  have ne : root ≠ t := by
    rintro rfl
    exact absurd (reg.wf.root_kind.symm.trans reg.kind) (by decide)
  obtain ⟨c, hc, -⟩ := reg.wf.exists_child_mem_ancestors (reg.wf.isAttached_iff.1 attached) ne
  rw [reg.wf.mem_children] at hc
  exact kempt.sole c hc ▸ hc

/-- Two cells side by side. -/
def couple : TableOutline Int where
  cellSpacing := some 0
  groups := [[[{ text := "a" }, { text := "b" }]]]

/-- A new editor with the two cells. -/
def coupled : Editor Int := ((EditorAction.insertTable couple).run.run { config := .standard }).2

/-- The row has been doubled. -/
def doubled : Editor Int :=
  ((EditorAction.serve 1 (.edit (.insertRows 0 1 .after))).run.run coupled).2

theorem borders_of_reached_doubled : coupled.doc.gridFault? 1 = none ∧
    Reached 1 coupled doubled (some coupled.doc.size) ∧ doubled.doc.isAttached 1 = true ∧
      doubled.doc.Bordered 1 (MadeSince (some coupled.doc.size)) := by
  have grid : coupled.doc.gridFault? 1 = none := by decide +kernel
  have run : (EditorAction.serve 1 (.edit (.insertRows 0 1 .after))).run.run coupled =
      (.ok true, doubled) := Prod.ext (by decide +kernel) (by simp only [doubled])
  have reached : Reached 1 coupled doubled (some coupled.doc.size) := .serve _ .start run
  have attached : doubled.doc.isAttached 1 = true := by decide +kernel
  have built : (EditorAction.insertTable couple).run.run { config := .standard } = (.ok 1, coupled) :=
    Prod.ext (by decide +kernel) (by simp only [coupled])
  exact ⟨grid, reached, attached, borders_of_reached built grid (by decide) reached attached⟩

/-- The first cell of an inserted row has no left border. -/
theorem left_border_missing : coupled.doc.gridFault? 1 = none ∧
    ∃ c ∈ doubled.doc.tableCells 1, ∃ props, doubled.doc.cell? c = some props ∧
      props.columnIndex = some 0 ∧ props.borders.left = 0 ∧ props.borders.right = 1 := by
  have shown : (doubled.doc.cell? 11).map
      (fun props => (props.columnIndex, props.borders.left, props.borders.right)) =
        some (some 0, 0, 1) := by decide +kernel
  obtain ⟨props, hp, heq⟩ := Option.map_eq_some_iff.1 shown
  simp only [Prod.mk.injEq] at heq
  exact ⟨by decide +kernel, 11, by decide +kernel, props, hp, heq⟩

end Editor

end RichTable
