import Mathlib
import RichTable.Editor
import RichTable.Proofs.Grid.Settle
import RichTable.Proofs.Tree.Lines
import RichTable.Proofs.Twin.Related

/-!
# The same table in two documents

`Twin R X d d'` says that the documents hold the same tables under different ids: `R k` relates the
nodes of kind `k` that stand for each other, from tables down to cells. Related nodes carry the same
data, borders aside, and have related children and parents; tables stand below the root. Related cells
hold the same text, though it may be cut into paragraphs differently; the cells in `X` are left out,
since a merge empties cells before it removes them.

Whatever is asked about related nodes has the same answer in both documents, or a related one.
-/

namespace RichTable

open List

/-- The kind of the children that stand below a node of a table's frame. -/
def Kind.below : Kind → Option Kind
  | .table => some .rowGroup
  | .rowGroup => some .row
  | .row => some .cell
  | _ => none

namespace Document

variable {L : Type} {R : Kind → NodeId → NodeId → Prop} {X : NodeId → Prop} {d d' : Document L}

/-- Two tidy cells with the same text. -/
structure SameText (d d' : Document L) (c c' : NodeId) : Prop where
  left : d.Tidy c
  right : d'.Tidy c'
  text : d'.cellText c' = d.cellText c

/-- The documents hold the same tables, under ids that `R` relates. -/
structure Twin (R : Kind → NodeId → NodeId → Prop) (X : NodeId → Prop) (d d' : Document L) :
    Prop where
  wf : d.WellFormed
  wf' : d'.WellFormed
  unique : ∀ k, Relator.BiUnique (R k)
  kind : ∀ {k x x'}, R k x x' → d.kind? x = some k ∧ d'.kind? x' = some k
  children : ∀ {k k' x x'}, R k x x' → k.below = some k' →
    Forall₂ (R k') (d.children x) (d'.children x')
  parent : ∀ {k k' x x'}, R k' x x' → k.below = some k' →
    Option.Rel (R k) (d.parent? x) (d'.parent? x')
  top : ∀ {t t'}, R .table t t' → d.parent? t = some root ∧ d'.parent? t' = some root
  table : ∀ {t t'}, R .table t t' → d'.table? t' = d.table? t
  layout : ∀ {c c'}, R .cell c c' → (d'.cell? c').map (·.layout) = (d.cell? c).map (·.layout)
  spans : ∀ {c c'}, R .cell c c' → ∀ props, d.cell? c = some props →
    1 ≤ props.columnSpan ∧ 1 ≤ props.rowSpan
  text : ∀ {c c'}, R .cell c c' → ¬ X c → SameText d d' c c'

namespace Twin

variable {k k' : Kind} {x x' y y' t t' g g' row row' c c' a a' b b' : NodeId}
  {rows rows' cells cells' : List NodeId}

/-! ## Nodes -/

theorem beq_eq (h : Twin R X d d') (hx : R k x x') (hy : R k y y') : (x == y) = (x' == y') :=
  beq_eq_of_related (h.unique k) hx hy

theorem kind_unique (h : Twin R X d d') (hx : R k x x') (hx' : R k' x y') : k = k' :=
  Option.some.inj ((h.kind hx).1.symm.trans (h.kind hx').1)

theorem eq_iff (h : Twin R X d d') (hx : R k x x') (hy : R k' y y') : x = y ↔ x' = y' := by
  constructor
  · rintro rfl
    cases h.kind_unique hx hy
    exact (h.unique k).2 hx hy
  · rintro rfl
    cases Option.some.inj ((h.kind hx).2.symm.trans (h.kind hy).2)
    exact (h.unique k).1 hx hy

/-- Related nodes have the same place among the children of their parents. -/
theorem childIndex?_eq (h : Twin R X d d') (hx : R k' x x') (hb : k.below = some k') :
    d.childIndex? x = d'.childIndex? x' :=
  bind_eq_of_related (h.parent hx hb) fun _ _ hp =>
    idxOf?_eq_of_related (h.unique k') (h.children hp hb) hx

theorem parentOfKind? (h : Twin R X d d') (hx : R k' x x') (hb : k.below = some k') :
    Option.Rel (R k) (d.parentOfKind? x k) (d'.parentOfKind? x' k) := by
  rw [Document.parentOfKind?, Document.parentOfKind?]
  rcases optionRel_cases (h.parent hx hb) with ⟨h₁, h₂⟩ | ⟨p, p', h₁, h₂, hp⟩
  · rw [h₁, h₂]
    exact .none
  · rw [h₁, h₂, Option.filter_some, Option.filter_some, if_pos (isKind_iff.2 (h.kind hp).1),
      if_pos (isKind_iff.2 (h.kind hp).2)]
    exact .some hp

theorem originRow?_eq (h : Twin R X d d') (hc : R .cell c c') :
    d.originRow? c = d'.originRow? c' :=
  bind_eq_of_related (h.parentOfKind? hc rfl) fun _ _ hr => h.childIndex?_eq (k := .rowGroup) hr rfl

theorem tableRows (h : Twin R X d d') (ht : R .table t t') :
    Forall₂ (R .row) (d.tableRows t) (d'.tableRows t') :=
  rel_flatMap (h.children ht rfl) fun _ _ hg => h.children hg rfl

theorem tableCells (h : Twin R X d d') (ht : R .table t t') :
    Forall₂ (R .cell) (d.tableCells t) (d'.tableCells t') :=
  rel_flatMap (h.tableRows ht) fun _ _ hr => h.children hr rfl

theorem columnCount_eq (h : Twin R X d d') (ht : R .table t t') :
    d.columnCount t = d'.columnCount t' := by
  rw [columnCount, columnCount, h.table ht]

/-! ## Cells -/

section

variable (h : Twin R X d d')

include h

theorem exists_cell (hc : R .cell c c') :
    ∃ p p', d.cell? c = some p ∧ d'.cell? c' = some p' ∧ p'.layout = p.layout := by
  rcases cell?_of_layout (h.layout hc) with ⟨none, -⟩ | cells
  · obtain ⟨p, hp⟩ := exists_cell? (h.kind hc).1
    cases none.symm.trans hp
  · exact cells

theorem columnIndex?_eq (hc : R .cell c c') : d.columnIndex? c = d'.columnIndex? c' :=
  (columnIndex?_of_layout (h.layout hc)).symm

theorem columnRange?_eq (hc : R .cell c c') : d.columnRange? c = d'.columnRange? c' :=
  (columnRange?_of_layout (h.layout hc)).symm

theorem covers_eq (j : Nat) (hc : R .cell c c') : d.covers j c = d'.covers j c' := by
  rw [covers, covers, h.columnRange?_eq hc]

theorem extent_eq (hc : R .cell c c') : d.extent c = d'.extent c' :=
  (extent_of_layout (h.layout hc)).symm

theorem columnBounds?_eq (ha : R .cell a a') (hb : R .cell b b') :
    d.columnBounds? a b = d'.columnBounds? a' b' := by
  rw [columnBounds?, columnBounds?, h.columnRange?_eq ha, h.columnRange?_eq hb]

theorem sortByColumn (hs : Forall₂ (R .cell) cells cells') :
    Forall₂ (R .cell) (d.sortByColumn cells) (d'.sortByColumn cells') := by
  refine sortBy_related (fun a a' b b' ha hb => ?_) hs
  rw [h.columnIndex?_eq ha, h.columnIndex?_eq hb]

theorem effectiveRowSpan_eq (hc : R .cell c c') :
    d.effectiveRowSpan c = d'.effectiveRowSpan c' := by
  have remaining : ((d.rowOf? c).bind fun row => (d.childIndex? row).bind fun index =>
      (d.groupOf? row).bind fun group => some ((d.children group).length - index)) =
      ((d'.rowOf? c').bind fun row => (d'.childIndex? row).bind fun index =>
      (d'.groupOf? row).bind fun group => some ((d'.children group).length - index)) := by
    refine bind_eq_of_related (h.parentOfKind? hc rfl) fun row row' hr => ?_
    rw [h.childIndex?_eq (k := .rowGroup) hr rfl]
    congr 1
    funext index
    refine bind_eq_of_related (h.parentOfKind? hr rfl) fun g g' hg => ?_
    rw [(h.children hg rfl).length_eq]
  unfold effectiveRowSpan
  simp only [bind, pure, remaining]
  obtain ⟨p, p', h₁, h₂, layout⟩ := h.exists_cell hc
  simp only [CellProps.layout, Prod.mk.injEq] at layout
  simp only [h₁, h₂, CellProps.height, layout.2.1]

/-! ## Rows -/

theorem spannedCells (hr : R .row row row') :
    Forall₂ (R .cell) (d.spannedCells row) (d'.spannedCells row') := by
  rw [Document.spannedCells, Document.spannedCells, h.childIndex?_eq (k := .rowGroup) hr rfl]
  rcases optionRel_cases (h.parentOfKind? (k := .rowGroup) hr rfl) with ⟨h₁, h₂⟩ | ⟨g, g', h₁, h₂, hg⟩
  · rw [groupOf?, groupOf?, h₁, h₂]
    exact .nil
  · rw [groupOf?, groupOf?, h₁, h₂]
    rcases d'.childIndex? row' with _ | index
    · exact .nil
    · refine h.sortByColumn (rel_flatMap (zipIdx_related (forall₂_take index (h.children hg rfl)) 0)
        fun p q hpq => ?_)
      refine rel_filter (fun c c' hc => Bool.eq_iff_iff.1 ?_) (h.children hpq.1 rfl)
      obtain ⟨p, p', h₁, h₂, layout⟩ := h.exists_cell hc
      simp only [CellProps.layout, Prod.mk.injEq] at layout
      rw [h₁, h₂, Option.any_some, Option.any_some, CellProps.height, CellProps.height, layout.2.1,
        hpq.2]

theorem occupants (hr : R .row row row') :
    Forall₂ (R .cell) (d.occupants row) (d'.occupants row') :=
  rel_append (h.children hr rfl) (h.spannedCells hr)

theorem coveringCell? (hr : R .row row row') (j : Nat) :
    Option.Rel (R .cell) (d.coveringCell? row j) (d'.coveringCell? row' j) :=
  find?_related (h.occupants hr) fun _ _ hc => h.covers_eq j hc

theorem storedCell? (hr : R .row row row') (j : Nat) :
    Option.Rel (R .cell) (d.storedCell? row j) (d'.storedCell? row' j) :=
  find?_related (h.children hr rfl) fun _ _ hc => h.covers_eq j hc

theorem rowWidth_eq (hr : R .row row row') : d.rowWidth row = d'.rowWidth row' := by
  rw [rowWidth, rowWidth,
    filterMap_eq_of_related (h.occupants hr) fun _ _ hc => h.columnRange?_eq hc]

theorem coversRow_eq (hc : R .cell c c') (hr : R .row row row') :
    d.coversRow c row = d'.coversRow c' row' := by
  rw [coversRow, coversRow, h.originRow?_eq hc, h.childIndex?_eq (k := .rowGroup) hr rfl,
    h.effectiveRowSpan_eq hc]

theorem neighbourRow? (hg : R .rowGroup g g') (index : Nat) (side : Side) :
    Option.Rel (R .row) (d.neighbourRow? g index side) (d'.neighbourRow? g' index side) := by
  cases side with
  | before =>
    rw [Document.neighbourRow?, Document.neighbourRow?]
    split
    · exact .none
    · exact getElem?_related (h.children hg rfl) _
  | after => exact getElem?_related (h.children hg rfl) _

theorem rowIntervals (hs : Forall₂ (R .row) rows rows') :
    Forall₂ (fun p q => R .cell p.1 q.1 ∧ p.2 = q.2) (d.rowIntervals rows)
      (d'.rowIntervals rows') := by
  refine rel_flatMap (zipIdx_related hs 0) fun p q hpq => ?_
  refine rel_map (fun c c' hc => ⟨hc, ?_⟩) (h.children hpq.1 rfl)
  rw [h.effectiveRowSpan_eq hc, hpq.2]

/-- A row without unplaced cells has the same fault as its twin. Unplaced cells are named by their ids,
which differ. -/
theorem rowFault?_eq (hr : R .row row row')
    (placed : ∀ c ∈ d.occupants row, (d.columnRange? c).isSome) (count group index : Nat) :
    d.rowFault? count group index row = d'.rowFault? count group index row' := by
  have unplaced := find?_related (h.occupants hr) fun c c' hc =>
    congrArg Option.isNone (h.columnRange?_eq hc)
  have none : (d.occupants row).find? (fun c => (d.columnRange? c).isNone) = none :=
    find?_eq_none.2 fun c hc => by simpa [Option.isSome_iff_ne_none] using placed c hc
  rw [none] at unplaced
  have none' := (optionRel_cases unplaced).resolve_right (by simp)
  rw [rowFault?, rowFault?, unplaced?, unplaced?, none, none'.2, sortedRanges, sortedRanges,
    filterMap_eq_of_related (h.occupants hr) fun _ _ hc => h.columnRange?_eq hc]

theorem gridFault?_eq (ht : R .table t t')
    (placed : ∀ row ∈ d.tableRows t, ∀ c ∈ d.occupants row, (d.columnRange? c).isSome) :
    d.gridFault? t = d'.gridFault? t' := by
  have groups := zipIdx_related (h.children ht rfl) 0
  rw [gridFault?, gridFault?, h.columnCount_eq ht]
  refine findSome?_eq_of_related ((forall₂_and_left _ _).2 ⟨fun p hp => hp, groups⟩) ?_
  rintro p q ⟨hp, hg, hi⟩
  have rows := zipIdx_related (h.children hg rfl) 0
  refine findSome?_eq_of_related ((forall₂_and_left _ _).2 ⟨fun p hp => hp, rows⟩) ?_
  rintro r s ⟨hr, hrow, hj⟩
  change d.rowFault? _ p.2 r.2 r.1 = d'.rowFault? _ q.2 s.2 s.1
  rw [h.rowFault?_eq hrow (placed _ (mem_flatMap.2
    ⟨_, fst_mem_of_mem_zipIdx hp, fst_mem_of_mem_zipIdx hr⟩)), hi, hj]

/-! ## Rectangles -/

theorem meetsColumns_eq (columns : ColumnRange) (hc : R .cell c c') :
    d.meetsColumns columns c = d'.meetsColumns columns c' := by
  rw [meetsColumns, meetsColumns, h.columnRange?_eq hc]

theorem inRect_eq (rect : CellRect) (hc : R .cell c c') : d.inRect rect c = d'.inRect rect c' := by
  rw [inRect, inRect, h.columnRange?_eq hc, h.originRow?_eq hc, h.effectiveRowSpan_eq hc]

theorem cellsOfRect? (rect : CellRect) (hs : Forall₂ (R .row) rows rows') :
    Option.Rel (Forall₂ (R .cell)) (d.cellsOfRect? rect rows) (d'.cellsOfRect? rect rows') := by
  have places : Forall₂ (fun p q => R .row p.1 q.1 ∧ p.2 = q.2)
      ((rect.rowsOf rows).flatMap fun row =>
        (List.range' rect.left (rect.right + 1 - rect.left)).map fun column => (row, column))
      ((rect.rowsOf rows').flatMap fun row =>
        (List.range' rect.left (rect.right + 1 - rect.left)).map fun column => (row, column)) := by
    refine rel_flatMap (forall₂_drop rect.top (forall₂_take (rect.bottom + 1) hs)) fun r r' hr => ?_
    exact rel_map (fun j j' hj => ⟨hr, hj⟩) (forall₂_same.2 fun _ _ => rfl)
  refine mapM_related places fun p q hpq => ?_
  obtain ⟨row, j⟩ := p
  obtain ⟨row', j'⟩ := q
  obtain ⟨hr, rfl⟩ := hpq
  rcases optionRel_cases (h.coveringCell? hr j) with ⟨h₁, h₂⟩ | ⟨c, c', h₁, h₂, hc⟩
  · simp only [h₁, h₂]
    exact .none
  · simp only [h₁, h₂, Option.filter_some, h.inRect_eq rect hc]
    split
    · exact .some hc
    · exact .none

theorem mergeCandidates? (ht : R .table t t') (rect : CellRect) (hs : Forall₂ (R .row) rows rows') :
    Option.Rel (Forall₂ (R .cell)) (d.mergeCandidates? t rect rows)
      (d'.mergeCandidates? t' rect rows') := by
  rw [Document.mergeCandidates?, Document.mergeCandidates?]
  rcases optionRel_cases (getElem?_related hs rect.top) with ⟨h₁, h₂⟩ | ⟨top, top', h₁, h₂, ht₁⟩
  · rw [h₁, h₂]
    exact .none
  rcases optionRel_cases (getElem?_related hs rect.bottom) with
    ⟨h₃, h₄⟩ | ⟨bottom, bottom', h₃, h₄, ht₂⟩
  · rw [h₁, h₂, h₃, h₄]
    exact .none
  rw [h₁, h₂, h₃, h₄]
  simp only [h.columnCount_eq ht, h.rowWidth_eq ht₁, h.rowWidth_eq ht₂,
    any_eq_of_related (h.spannedCells ht₁) fun _ _ hc => h.meetsColumns_eq rect.columns hc]
  split
  · exact .none
  split
  · exact .none
  split
  · exact .none
  rcases optionRel_cases (h.cellsOfRect? rect hs) with ⟨h₁, h₂⟩ | ⟨cells, cells', h₁, h₂, hc⟩
  · rw [h₁, h₂]
    exact .none
  · rw [h₁, h₂]
    exact .some (eraseDups_related (h.unique _) hc)

end

/-! ## Addresses -/

theorem cellAt? {e e' : Editor L} (h : Twin R X e.doc e'.doc) (ht : R .table t t') (i j : Nat) :
    Option.Rel (R .cell) (e.cellAt? t i j) (e'.cellAt? t' i j) :=
  bind_related (getElem?_related (h.tableRows ht) i) fun _ _ hr => h.coveringCell? hr j

theorem locateIn (h : Twin R X d d') {groups groups' : List NodeId} (first last : Nat)
    (hs : Forall₂ (R .rowGroup) groups groups') (offset : Nat) :
    Option.Rel (fun p q => R .rowGroup p.1 q.1 ∧ p.2 = q.2)
      (Editor.locateIn d first last groups offset)
      (Editor.locateIn d' first last groups' offset) := by
  induction hs generalizing offset with
  | nil => exact .none
  | cons hg _ ih =>
    rw [Editor.locateIn, Editor.locateIn]
    simp only [(h.children hg rfl).length_eq]
    split
    · split
      · exact .some ⟨hg, rfl⟩
      · exact .none
    · exact ih _

theorem locateRows? {e e' : Editor L} (h : Twin R X e.doc e'.doc) (ht : R .table t t')
    (first last : Nat) : Option.Rel (fun p q => R .rowGroup p.1 q.1 ∧ p.2 = q.2)
      (e.locateRows? t first last) (e'.locateRows? t' first last) := by
  rw [Editor.locateRows?, Editor.locateRows?]
  split
  · exact .none
  · exact h.locateIn first last (h.children ht rfl) 0

/-! ## Texts -/

theorem cellOutline?_eq (h : Twin R X d d') (hc : R .cell c c') (hX : ¬ X c) :
    d.cellOutline? c = d'.cellOutline? c' := by
  have text := h.text hc hX
  have plain : d'.plainText c' = d.plainText c := by
    rw [h.wf.plainText_cell (h.kind hc).1 text.left.blocks,
      h.wf'.plainText_cell (h.kind hc).2 text.right.blocks, text.text]
  obtain ⟨p, p', h₁, h₂, layout⟩ := h.exists_cell hc
  simp only [CellProps.layout, Prod.mk.injEq] at layout
  simp only [cellOutline?, h₁, h₂, Option.map_some, layout, plain]

/-- Twins are described in the same way. -/
theorem outline?_eq (h : Twin R X d d') (ht : R .table t t') (hX : ∀ c ∈ d.tableCells t, ¬ X c) :
    d.outline? t = d'.outline? t' := by
  have groups : ((d.children t).map fun group => (d.children group).map fun row =>
      (d.children row).filterMap d.cellOutline?) = ((d'.children t').map fun group =>
        (d'.children group).map fun row => (d'.children row).filterMap d'.cellOutline?) := by
    refine map_eq_of_related ((forall₂_and_left _ _).2 ⟨fun g hg => hg, h.children ht rfl⟩)
      fun g g' ⟨hg, hgg⟩ => ?_
    refine map_eq_of_related ((forall₂_and_left _ _).2 ⟨fun r hr => hr, h.children hgg rfl⟩)
      fun r r' ⟨hr, hrr⟩ => ?_
    refine filterMap_eq_of_related ((forall₂_and_left _ _).2 ⟨fun c hc => hc, h.children hrr rfl⟩)
      fun c c' ⟨hc, hcc⟩ => h.cellOutline?_eq hcc (hX c ?_)
    exact mem_flatMap.2 ⟨r, mem_flatMap.2 ⟨g, hg, hr⟩, hc⟩
  rw [outline?, outline?, h.table ht, groups]

end Twin

end Document

end RichTable
