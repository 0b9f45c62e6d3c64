import Mathlib
import RichTable.Script
import RichTable.Proofs.Edit.Build
import RichTable.Proofs.Edit.Column
import RichTable.Proofs.Edit.Merge
import RichTable.Proofs.Edit.RowDelete
import RichTable.Proofs.Edit.RowInsert
import RichTable.Proofs.Edit.Split
import RichTable.Proofs.Selection.Cells

/-!
# Applying edits to a regular table

The actions of an editor find the place of an edit by coordinates or by a selection, run the action
on the document, and count it. On a regular table whose cells are filled with paragraphs every edit
succeeds and leaves such a table (`ensures_apply`); `Effect` says what it has done if it took effect.
-/

namespace RichTable

variable {L : Type}

namespace EditorAction

variable {α : Type} {e : Editor L} {t : NodeId}

theorem ensures_onDocument {a : Action L α} {Q : α → Editor L → Prop} :
    Ensures (onDocument a) e Q ↔ Ensures a e.doc fun x d => Q x { e with doc := d } := by
  simp only [onDocument, ensures_bind, ensures_get]
  rcases h : a.run.run e.doc with ⟨_ | x, d⟩
  · rw [ensures_bind, ensures_set]
    constructor
    · rintro ⟨_, _, hr, -⟩
      cases hr
    · rintro ⟨_, _, hr, -⟩
      rw [h] at hr
      cases hr
  · rw [ensures_bind, ensures_set, ensures_pure]
    constructor
    · exact fun hq => ⟨x, d, h, hq⟩
    · rintro ⟨y, d', hr, hq⟩
      rw [h] at hr
      cases hr
      exact hq

theorem ensures_touchIf {done : Bool} {table : Option NodeId} {Q : Unit → Editor L → Prop}
    (h : ∀ e', e'.doc = e.doc → Q () e') : Ensures (touchIf done table) e Q := by
  unfold touchIf
  split
  · exact ensures_modify.2 (h _ rfl)
  · exact ensures_pure.2 (h _ rfl)

end EditorAction

/-! ## Widths of columns -/

/-- A drop that takes effect writes the widths of the columns and nothing else. -/
theorem ColumnDrag.commit_eq [Length L] (s : ColumnDrag L) (d : Document L) (x : L) :
    s.commit d x = (false, d) ∨ ∃ widths,
      s.commit d x = (true, d.modifyTable s.table fun props => { props with columns := widths }) := by
  unfold commit
  split_ifs
  · exact .inl rfl
  · exact .inl rfl
  · exact .inr ⟨_, rfl⟩

namespace Document

variable {d d' : Document L} {t g : NodeId}

theorem columnCount_modifyTable {f : TableProps L → TableProps L}
    (hf : ∀ props, (f props).columnCount = props.columnCount) :
    (d.modifyTable t f).columnCount t = d.columnCount t := by
  simp only [columnCount, table?_modifyTable]
  cases d.table? t <;> simp [hf]

/-- Other column widths leave a placed table placed. -/
theorem WellFormed.settled_modifyTable (wf : d.WellFormed) (ht : d.kind? t = some .table)
    (settled : d.Settled t) {f : TableProps L → TableProps L}
    (hf : ∀ props, (f props).columnCount = props.columnCount) : (d.modifyTable t f).Settled t := by
  have same := SameTree.modifyTable d t f
  obtain ⟨placed, columns, width⟩ := (wf.settled_iff ht).1 settled
  have extents := fun c (_ : c ∈ d.tableCells t) =>
    (show (d.modifyTable t f).extent c = d.extent c by simp only [extent, cell?_modifyTable])
  refine ((same.wellFormed wf).settled_iff ((same.kind t).trans ht)).2 ⟨fun c hc => ?_, ?_, ?_⟩
  · rw [same.tableCells] at hc
    simpa only [columnIndex?, cell?_modifyTable] using placed c hc
  · rw [shape_modifyTable]
    exact same.columns extents columns
  · rw [columnCount_modifyTable hf, same.extents extents, width]

/-- Other column widths leave a regular table regular. -/
theorem Regular.modifyTable (reg : d.Regular t) {f : TableProps L → TableProps L}
    (hf : ∀ props, (f props).columnCount = props.columnCount) : (d.modifyTable t f).Regular t := by
  have same := SameTree.modifyTable d t f
  refine ⟨same.wellFormed reg.wf, (same.kind t).trans reg.kind,
    reg.wf.settled_modifyTable reg.kind reg.settled hf, fun g hg => ?_, fun c hc p hp => ?_⟩
  · rw [same.children] at hg
    rw [columnCount_modifyTable hf, shape_modifyTable, same.rowsOf]
    exact reg.tiled g hg
  · rw [same.tableCells] at hc
    rw [cell?_modifyTable] at hp
    exact reg.spans c hc p hp

/-! ## Places of edits -/

theorem locateIn_eq {first last : Nat} {groups : List NodeId} {offset i j : Nat}
    (h : Editor.locateIn d first last groups offset = some (g, i, j)) (ho : offset ≤ first)
    (hle : first ≤ last) :
    ∃ pre post, groups = pre ++ g :: post ∧ first = offset + (pre.flatMap d.children).length + i ∧
      last = offset + (pre.flatMap d.children).length + j ∧ j < (d.children g).length := by
  induction groups generalizing offset with
  | nil => cases h
  | cons x groups ih =>
    rw [Editor.locateIn] at h
    split_ifs at h with hfirst hlast
    · simp only [Option.some.injEq, Prod.mk.injEq] at h
      obtain ⟨rfl, rfl, rfl⟩ := h
      refine ⟨[], groups, rfl, ?_, ?_, by omega⟩ <;> simp only [List.flatMap_nil, List.length_nil] <;>
        omega
    · obtain ⟨pre, post, rfl, h₁, h₂, h₃⟩ := ih h (by omega)
      refine ⟨x :: pre, post, rfl, ?_, ?_, h₃⟩ <;> rw [List.flatMap_cons, List.length_append] <;> omega

theorem mem_of_locateRows? {e : Editor L} {first last i j : Nat}
    (h : e.locateRows? t first last = some (g, i, j)) : g ∈ e.doc.children t := by
  rw [Editor.locateRows?] at h
  split_ifs at h with hle
  obtain ⟨pre, post, hsplit, -⟩ := locateIn_eq h (Nat.zero_le _) (by omega)
  simp [hsplit]

/-- The columns between two places of the first row. -/
def columnsBetween? (d : Document L) (t : NodeId) (first last : Nat) : Option ColumnRange := do
  let row ← (d.tableRows t)[0]?
  d.columnBounds? (← d.coveringCell? row first) (← d.coveringCell? row last)

/-- What an edit that took effect has done to a table. -/
def Effect (d d' : Document L) (t : NodeId) : Edit L → Prop
  | .deleteRows first last => first ≤ last ∧ ∃ g i j,
    Editor.locateIn d first last (d.children t) 0 = some (g, i, j) ∧
      if d.children t = [g] ∧ i = 0 ∧ j + 1 = (d.children g).length then d' = d.detach t
      else Inherits (fun c => !d.inRows g i j c) d d' t
  | .deleteColumns first last => ∃ columns, d.columnsBetween? t first last = some columns ∧
      Inherits (fun c => !d.inColumns columns.first (columns.last + 1) c) d d' t
  | .merge rect => rect.top ≤ rect.bottom ∧ ∃ g i j cells v,
    Editor.locateIn d rect.top rect.bottom (d.children t) 0 = some (g, i, j) ∧
      d.mergeCandidates? t { rect with top := i, bottom := j } (d.children g) = some cells ∧
      Merged d d' t v cells
  | _ => Inherits (fun _ => true) d d' t

/-- A regular table whose cells are filled with paragraphs. -/
structure Sound (d : Document L) (t : NodeId) : Prop where
  regular : d.Regular t
  filled : d.Filled t

theorem Sound.of_inherits (sound : d.Sound t) {keep : NodeId → Bool} (reg : d'.Regular t)
    (h : Inherits keep d d' t) : d'.Sound t :=
  ⟨reg, h.filled sound.regular.wf sound.regular.kind sound.filled⟩

/-- A detached table keeps its cells and what is in them. -/
theorem Sound.filled_detach (sound : d.Sound t) : (d.detach t).Filled t := by
  have wf := sound.regular.wf
  have ht := sound.regular.kind
  obtain ⟨-, -, -, hcells⟩ := (Frame.of_detach (P := fun _ => False) wf fun _ => id).tableCells wf ht
    fun _ hp => wf.kind_parent_table ht hp
  intro c hc
  rw [hcells] at hc
  obtain ⟨hne, blocks⟩ := sound.filled c hc
  have same : (d.detach t).children c = d.children c := by
    rw [wf.children_detach, List.filter_eq_self]
    intro b hb
    rw [bne_iff_ne]
    rintro rfl
    have := blocks b hb
    rw [ht] at this
    cases this
  rw [HasParagraphs, same]
  exact ⟨hne, by simpa using blocks⟩

theorem Sound.selectable (sound : d.Sound t) (attached : root ∈ d.ancestors t) : d.Selectable t :=
  ⟨sound.regular.wf, sound.regular.kind, attached, sound.filled⟩

/-- The columns of two cells of a regular table. -/
theorem Regular.exists_columnBounds? (reg : d.Regular t) {a b : NodeId} (ha : a ∈ d.tableCells t)
    (hb : b ∈ d.tableCells t) : ∃ columns, d.columnBounds? a b = some columns ∧
      columns.first ≤ columns.last ∧ columns.last < d.columnCount t := by
  have bound : ∀ {c}, c ∈ d.tableCells t → 0 < d.shape.width c ∧
      d.shape.start c + d.shape.width c ≤ d.columnCount t := fun hc => by
    obtain ⟨g, hg, r, hs⟩ := mem_tableCells.1 hc
    exact ⟨(reg.tiled g hg).width_pos hs, (reg.tiled g hg).within hs⟩
  have := bound ha
  have := bound hb
  refine ⟨_, by rw [columnBounds?, reg.columnRange?_eq ha, reg.columnRange?_eq hb], ?_, ?_⟩ <;>
    simp only [ColumnRange.join] <;> omega

end Document

/-- The cells that a selection by coordinates leads to, if there is one. -/
theorem Editor.selectCells?_cases {e : Editor L} {t : NodeId} (sound : e.doc.Sound t)
    (source target : Nat × Nat) : e.selectCells? t source target = none ∨
      ∃ selection x y a b, e.selectCells? t source target = some selection ∧
        e.doc.boundaryCells? selection.start selection.stop = some (x, y) ∧
        e.cellAt? t source.1 source.2 = some a ∧ e.cellAt? t target.1 target.2 = some b ∧
        (x = a ∧ y = b ∨ x = b ∧ y = a) := by
  have none : _ → e.selectCells? t source target = none := fun h =>
    Editor.selectCells?_eq_none sound.regular.wf sound.regular.kind h
  by_cases attached : Document.root ∈ e.doc.ancestors t
  · cases ha : e.cellAt? t source.1 source.2 with
    | none => exact .inl (none (.inl ha))
    | some a =>
      cases hb : e.cellAt? t target.1 target.2 with
      | none => exact .inl (none (.inr (.inl hb)))
      | some b =>
        obtain ⟨selection, x, y, h₁, h₂, h₃⟩ :=
          Editor.exists_selectCells? (sound.selectable attached) ha hb
        exact .inr ⟨selection, x, y, a, b, h₁, h₂, rfl, rfl, h₃⟩
  · exact .inl (none (.inr (.inr attached)))

theorem Action.ensures_selectedColumns {d : Document L} {t : NodeId} (steady : d.Steady t)
    {selection : Segment} {x y : NodeId}
    (h : d.boundaryCells? selection.start selection.stop = some (x, y)) (hx : x ∈ d.tableCells t)
    {Q : Option (NodeId × ColumnRange) → Document L → Prop} :
    Ensures (selectedColumns selection) d Q ↔ Q ((d.columnBounds? x y).map (t, ·)) d := by
  simp only [selectedColumns, ensures_bind, ensures_get, h,
    steady.wf.tableOfCell?_eq steady.kind hx, ensures_place_steady steady, ensures_pure]

namespace EditorAction

open Document

variable {e : Editor L} {t : NodeId}

/-- The table is sound, and the edit has had its effect or has done nothing. -/
def Applied (e : Editor L) (t : NodeId) (edit : Edit L) (done : Bool) (e' : Editor L) : Prop :=
  e'.doc.Sound t ∧ (e.doc.Effect e'.doc t edit ∨ done = false ∧ e'.doc = e.doc)

theorem Applied.refl (sound : e.doc.Sound t) {edit : Edit L} {e' : Editor L} (he : e'.doc = e.doc) :
    Applied e t edit false e' :=
  ⟨he ▸ sound, .inr ⟨rfl, he⟩⟩

variable [Length L]

/-! ## Rows -/

theorem applied_insertRows (sound : e.doc.Sound t) (row count : Nat) (side : Side) :
    Ensures (apply t (.insertRows row count side)) e (Applied e t (.insertRows row count side)) := by
  simp only [apply, insertRowsAt, ensures_bind, ensures_get, ensures_pure]
  cases hr : (e.doc.tableRows t)[row]? with
  | none => exact ensures_pure.2 (.refl sound rfl)
  | some reference =>
    obtain ⟨g, hg, i, hi⟩ := exists_group_of_mem_tableRows (List.mem_of_getElem? hr)
    simp only [ensures_bind, ensures_onDocument, ensures_pure]
    refine (Action.ensures_insertRows sound.regular hg (List.mem_of_getElem? hi) count side).mono ?_
    rintro range d' ⟨-, reg, inherits⟩
    refine ensures_touchIf fun e' he => ?_
    rw [Applied, he]
    exact ⟨sound.of_inherits reg inherits, .inl inherits⟩

theorem applied_deleteRows (sound : e.doc.Sound t) (first last : Nat) :
    Ensures (apply t (.deleteRows first last)) e (Applied e t (.deleteRows first last)) := by
  simp only [apply, deleteRowRange, ensures_bind, ensures_get, Editor.locateRows?]
  split_ifs with hlt
  · exact ensures_pure.2 (.refl sound rfl)
  have hle := Nat.le_of_not_lt hlt
  cases hloc : Editor.locateIn e.doc first last (e.doc.children t) 0 with
  | none => exact ensures_pure.2 (.refl sound rfl)
  | some found =>
    obtain ⟨g, i, j⟩ := found
    obtain ⟨pre, post, hsplit, h₁, h₂, h₃⟩ := locateIn_eq hloc (Nat.zero_le _) hle
    have hg : g ∈ e.doc.children t := by simp [hsplit]
    simp only [ensures_bind, ensures_onDocument, ensures_pure]
    refine (Action.ensures_deleteRowInterval sound.regular hg i j).mono ?_
    rintro done d' h
    rw [if_pos ⟨by omega, h₃⟩] at h
    obtain ⟨rfl, reg, h⟩ := h
    refine ensures_touchIf fun e' he => ?_
    rw [Applied, he]
    refine ⟨?_, .inl ⟨hle, g, i, j, hloc, h⟩⟩
    split_ifs at h
    · exact ⟨reg, h ▸ sound.filled_detach⟩
    · exact sound.of_inherits reg h

/-! ## Columns -/

theorem applied_insertColumns (sound : e.doc.Sound t) (column count : Nat) (side : Side) :
    Ensures (apply t (.insertColumns column count side)) e
      (Applied e t (.insertColumns column count side)) := by
  have reg := sound.regular
  simp only [apply, ensures_bind, ensures_get]
  rcases e.selectCells?_cases sound (0, column) (0, column) with
    hnone | ⟨selection, x, y, a, b, hsel, hcells, ha, hb, hxy⟩
  · rw [hnone]
    exact ensures_pure.2 (.refl sound rfl)
  · have hat := Editor.mem_tableCells_of_cellAt? reg.wf reg.kind ha
    obtain rfl : x = a := by
      obtain rfl := Option.some.inj (ha.symm.trans hb)
      exact hxy.elim And.left And.left
    obtain rfl : y = x := by
      obtain rfl := Option.some.inj (ha.symm.trans hb)
      exact hxy.elim And.right And.right
    obtain ⟨columns, hcolumns, -, hlast⟩ := reg.exists_columnBounds? hat hat
    simp only [hsel, insertColumns, ensures_bind, ensures_get, ensures_onDocument, ensures_pure,
      Action.insertColumns]
    split_ifs with hcount
    · exact ensures_pure.2 (ensures_touchIf fun e' he => .refl sound he)
    · rw [ensures_bind, Action.ensures_selectedColumns reg.steady hcells hat, hcolumns]
      simp only [Option.map_some]
      rw [ensures_bind]
      refine (Action.ensures_insertColumnTimes _ count reg (by omega)).mono ?_
      rintro _ d' ⟨reg', inherits, -⟩
      refine ensures_pure.2 (ensures_touchIf fun e' he => ?_)
      rw [Applied, he]
      exact ⟨sound.of_inherits reg' inherits, .inl inherits⟩

theorem applied_deleteColumns (sound : e.doc.Sound t) (first last : Nat) :
    Ensures (apply t (.deleteColumns first last)) e (Applied e t (.deleteColumns first last)) := by
  have reg := sound.regular
  simp only [apply, ensures_bind, ensures_get]
  rcases e.selectCells?_cases sound (0, first) (0, last) with
    hnone | ⟨selection, x, y, a, b, hsel, hcells, ha, hb, hxy⟩
  · rw [hnone]
    exact ensures_pure.2 (.refl sound rfl)
  · have hat := Editor.mem_tableCells_of_cellAt? reg.wf reg.kind ha
    have hbt := Editor.mem_tableCells_of_cellAt? reg.wf reg.kind hb
    obtain ⟨columns, hcolumns, hle, hlast⟩ := reg.exists_columnBounds? hat hbt
    have hxt : x ∈ e.doc.tableCells t := by rcases hxy with ⟨rfl, -⟩ | ⟨rfl, -⟩ <;> assumption
    have hbounds := (columnBounds?_of_ends hxy).trans hcolumns
    have between : e.doc.columnsBetween? t first last = some columns := by
      obtain ⟨row, hr, ha⟩ := Option.bind_eq_some_iff.1 ha
      obtain ⟨row', hr', hb⟩ := Option.bind_eq_some_iff.1 hb
      obtain rfl := Option.some.inj (hr.symm.trans hr')
      simp [columnsBetween?, hr, ha, hb, hcolumns]
    simp only [hsel, deleteColumns, ensures_bind, ensures_get, ensures_onDocument, hcells,
      reg.wf.tableOfCell?_eq reg.kind hxt, Action.ensures_place_steady reg.steady, hbounds, ensures_pure,
      Action.deleteColumns, Action.ensures_selectedColumns reg.steady hcells hxt, Option.map_some]
    split
    · exact ensures_pure.2 (ensures_touchIf fun e' he => .refl sound he)
    · refine (Action.ensures_deleteColumnTimes _ _ reg (by omega) (by omega)).mono ?_
      rintro _ d' ⟨rfl, reg', inherits, -⟩
      refine ensures_touchIf fun e' he => ?_
      rw [Applied, he]
      refine ⟨sound.of_inherits reg' inherits, .inl ⟨columns, between, ?_⟩⟩
      rwa [show columns.first + (columns.last - columns.first + 1) = columns.last + 1 by omega]
        at inherits

/-! ## Cells -/

theorem applied_merge (sound : e.doc.Sound t) (rect : CellRect) :
    Ensures (apply t (.merge rect)) e (Applied e t (.merge rect)) := by
  have reg := sound.regular
  simp only [apply, mergeRectangle, ensures_bind, ensures_get, Editor.locateRows?, ensures_pure]
  split_ifs with hlt
  · exact ensures_pure.2 (.refl sound rfl)
  have hle := Nat.le_of_not_lt hlt
  cases hloc : Editor.locateIn e.doc rect.top rect.bottom (e.doc.children t) 0 with
  | none => exact ensures_pure.2 (.refl sound rfl)
  | some found =>
    obtain ⟨g, i, j⟩ := found
    obtain ⟨pre, post, hsplit, -⟩ := locateIn_eq hloc (Nat.zero_le _) hle
    have hg : g ∈ e.doc.children t := by simp [hsplit]
    simp only [ensures_bind, ensures_onDocument, ensures_pure]
    refine (Action.ensures_mergeRect reg hg { rect with top := i, bottom := j }).mono ?_
    rintro caret d' ⟨reg', h⟩
    refine ensures_touchIf fun e' he => ?_
    rw [Applied, he]
    cases hcand : e.doc.mergeCandidates? t { rect with top := i, bottom := j }
        (e.doc.children g) with
    | none =>
      rw [hcand] at h
      obtain ⟨rfl, rfl⟩ := h
      exact ⟨sound, .inr ⟨rfl, rfl⟩⟩
    | some cells =>
      rw [hcand] at h
      obtain ⟨v, merged⟩ := h
      exact ⟨⟨reg', merged.filled reg.wf reg.kind sound.filled⟩,
        .inl ⟨hle, g, i, j, cells, v, hloc, hcand, merged⟩⟩

theorem applied_split (sound : e.doc.Sound t) (row column horizontal vertical : Nat) :
    Ensures (apply t (.split row column horizontal vertical)) e
      (Applied e t (.split row column horizontal vertical)) := by
  have reg := sound.regular
  simp only [apply, ensures_bind, ensures_get]
  rcases e.selectCells?_cases sound (row, column) (row, column) with
    hnone | ⟨selection, x, y, a, b, hsel, hcells, ha, hb, hxy⟩
  · rw [hnone]
    exact ensures_pure.2 (.refl sound rfl)
  · have hxt : x ∈ e.doc.tableCells t := by
      have hat := Editor.mem_tableCells_of_cellAt? reg.wf reg.kind ha
      have hbt := Editor.mem_tableCells_of_cellAt? reg.wf reg.kind hb
      rcases hxy with ⟨rfl, -⟩ | ⟨rfl, -⟩ <;> assumption
    simp only [hsel, splitCell, ensures_bind, ensures_get, ensures_onDocument, ensures_pure]
    refine (Action.ensures_splitCell reg (fun cell other h => ?_) horizontal vertical).mono ?_
    · obtain ⟨rfl, -⟩ := Prod.mk.inj (Option.some.inj (hcells.symm.trans h))
      exact hxt
    · rintro caret d' ⟨reg', inherits⟩
      refine ensures_touchIf fun e' he => ?_
      rw [Applied, he]
      exact ⟨sound.of_inherits reg' inherits, .inl inherits⟩

theorem applied_resizeColumn (sound : e.doc.Sound t) (column : Nat) (delta : L) :
    Ensures (apply t (.resizeColumn column delta)) e (Applied e t (.resizeColumn column delta)) := by
  have reg := sound.regular
  simp only [apply, resizeColumn, ensures_bind, ensures_get]
  split
  · exact ensures_pure.2 (.refl sound rfl)
  · next drag border hdrag =>
    have htable : drag.table = t := by
      simp only [Option.bind_eq_bind, Option.bind_eq_some_iff, ColumnDrag.ofLayout?,
        Option.map_eq_some_iff] at hdrag
      obtain ⟨layout, -, rect, -, drag', ⟨_, -, rfl⟩, h⟩ := hdrag
      cases h
      rfl
    simp only [commitDrag, ensures_bind, ensures_get, ensures_set, ensures_pure, htable]
    rcases drag.commit_eq e.doc (border + delta) with hc | ⟨widths, hc⟩
    · exact ensures_touchIf fun e' he => by simpa only [hc] using .refl sound (he.trans (by rw [hc]))
    · refine ensures_touchIf fun e' he => ?_
      rw [hc, htable] at he
      have inherits := Inherits.of_sameTree reg.wf reg.kind
        (SameTree.modifyTable e.doc t fun props => { props with columns := widths })
      rw [Applied, he]
      exact ⟨sound.of_inherits (reg.modifyTable fun _ => rfl) inherits, .inl inherits⟩

/-- Every edit succeeds on a sound table and leaves it sound. -/
theorem ensures_apply (sound : e.doc.Sound t) (edit : Edit L) :
    Ensures (apply t edit) e (Applied e t edit) := by
  cases edit with
  | insertRows row count side => exact applied_insertRows sound row count side
  | deleteRows first last => exact applied_deleteRows sound first last
  | insertColumns column count side => exact applied_insertColumns sound column count side
  | deleteColumns first last => exact applied_deleteColumns sound first last
  | merge rect => exact applied_merge sound rect
  | split row column horizontal vertical => exact applied_split sound row column horizontal vertical
  | resizeColumn column delta => exact applied_resizeColumn sound column delta

end EditorAction

end RichTable
