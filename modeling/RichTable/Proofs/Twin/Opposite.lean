import Mathlib
import RichTable.Proofs.Editor.Load
import RichTable.Proofs.Twin.Steps

/-!
# Tables of the same build

Two tables with as many row groups, rows and cells at every place are twins as soon as the cells at the
same place carry the same data and the same text (`Twin.of_opposite`). This makes every loaded table a
twin of itself, and a table that has been built from the description of another a twin of that one
(`paired_of_outline`).
-/

namespace RichTable

open List

theorem eq_of_mem_zip {α β : Type} {l : List α} {l' : List β} (nodup : l.Nodup) {a : α} {b b' : β}
    (h : (a, b) ∈ l.zip l') (h' : (a, b') ∈ l.zip l') : b = b' := by
  obtain ⟨i, hi⟩ := mem_iff_getElem?.1 h
  obtain ⟨j, hj⟩ := mem_iff_getElem?.1 h'
  obtain ⟨ha, hb⟩ := getElem?_zip_eq_some.1 hi
  obtain ⟨ha', hb'⟩ := getElem?_zip_eq_some.1 hj
  obtain rfl := (getElem?_inj (List.getElem?_eq_some_iff.1 ha).1 nodup).1 (ha.trans ha'.symm)
  exact Option.some.inj (hb.symm.trans hb')

namespace Document

open Placement

variable {L : Type} {d d' : Document L} {t t' x x' y' c c' : NodeId} {k k' : Kind}

/-- Nodes that stand at the same place of two tables. -/
inductive Opposite (d d' : Document L) (t t' : NodeId) : Kind → NodeId → NodeId → Prop
  | table : Opposite d d' t t' .table t t'
  | child {k k' : Kind} {x x' c c' : NodeId} (above : Opposite d d' t t' k x x')
    (below : k.below = some k') (mem : (c, c') ∈ (d.children x).zip (d'.children x')) :
    Opposite d d' t t' k' c c'

namespace Opposite

theorem symm (h : Opposite d d' t t' k x x') : Opposite d' d t' t k x' x := by
  induction h with
  | table => exact .table
  | child _ below mem ih =>
    refine .child ih below ?_
    rw [← zip_swap, mem_map]
    exact ⟨_, mem, rfl⟩

theorem kind (h : Opposite d d' t t' k x x') (wf : d.WellFormed) (ht : d.kind? t = some .table) :
    d.kind? x = some k := by
  induction h with
  | table => exact ht
  | @child k k' x x' c c' above below mem ih =>
    have hc := (of_mem_zip mem).1
    cases k <;> cases below
    · exact wf.kind_group ih hc
    · exact wf.kind_row ih hc
    · exact wf.kind_cell ih hc

theorem right_unique (wf : d.WellFormed) (h : Opposite d d' t t' k x x')
    (h' : Opposite d d' t t' k x y') : x' = y' := by
  induction h generalizing y' with
  | table =>
    cases h' with
    | table => rfl
    | child _ below _ => exact absurd rfl (below_ne below).1
  | child above below mem ih =>
    cases h' with
    | table => exact absurd rfl (below_ne below).1
    | child above' below' mem' =>
      obtain rfl := below_injective below below'
      have same := (wf.mem_children.1 (of_mem_zip mem).1).symm.trans
        (wf.mem_children.1 (of_mem_zip mem').1)
      obtain rfl := Option.some.inj same
      obtain rfl := ih above'
      exact eq_of_mem_zip (wf.nodup _) mem mem'

/-- Nodes of a table other than the table itself have an opposite of their parents. -/
theorem exists_above (h : Opposite d d' t t' k' c c') (below : k.below = some k') :
    ∃ x x', Opposite d d' t t' k x x' ∧ (c, c') ∈ (d.children x).zip (d'.children x') := by
  cases h with
  | table => exact absurd rfl (below_ne below).1
  | child above below' mem =>
    obtain rfl := below_injective below below'
    exact ⟨_, _, above, mem⟩

theorem eq_table (h : Opposite d d' t t' .table x x') : x = t ∧ x' = t' := by
  cases h with
  | table => exact ⟨rfl, rfl⟩
  | child _ below _ => exact absurd rfl (below_ne below).1

theorem mem_tableCells (h : Opposite d d' t t' .cell c c') : c ∈ d.tableCells t := by
  obtain ⟨row, row', above, hc⟩ := h.exists_above (k := .row) rfl
  obtain ⟨g, g', above, hr⟩ := above.exists_above (k := .rowGroup) rfl
  obtain ⟨u, u', above, hg⟩ := above.exists_above (k := .table) rfl
  obtain ⟨rfl, rfl⟩ := above.eq_table
  exact mem_flatMap.2 ⟨row, mem_flatMap.2 ⟨g, (of_mem_zip hg).1, (of_mem_zip hr).1⟩, (of_mem_zip hc).1⟩

/-- Nothing but a node itself stands at its place. -/
theorem eq_of_self (h : Opposite d d t t k x x') : x = x' := by
  induction h with
  | table => rfl
  | child above below mem ih =>
    subst ih
    obtain ⟨i, hi⟩ := mem_iff_getElem?.1 mem
    obtain ⟨h, h'⟩ := getElem?_zip_eq_some.1 hi
    exact Option.some.inj (h.symm.trans h')

end Opposite

/-- As many children at every place, the same data and the same texts. -/
theorem Twin.of_opposite (wf : d.WellFormed) (wf' : d'.WellFormed) (ht : d.kind? t = some .table)
    (ht' : d'.kind? t' = some .table) (top : d.parent? t = some root) (top' : d'.parent? t' = some root)
    (length : ∀ {k k' x x'}, Opposite d d' t t' k x x' → k.below = some k' →
      (d.children x).length = (d'.children x').length)
    (table : d'.table? t' = d.table? t)
    (layout : ∀ {c c'}, Opposite d d' t t' .cell c c' →
      (d'.cell? c').map (·.layout) = (d.cell? c).map (·.layout))
    (spans : ∀ c ∈ d.tableCells t, ∀ props, d.cell? c = some props →
      1 ≤ props.columnSpan ∧ 1 ≤ props.rowSpan)
    (text : ∀ {c c'}, Opposite d d' t t' .cell c c' → SameText d d' c c') :
    Twin (Opposite d d' t t') (fun _ => False) d d' where
  wf := wf
  wf' := wf'
  unique _ := ⟨fun _ _ _ h h' => h.symm.right_unique wf' h'.symm, fun _ _ _ h h' => h.right_unique wf h'⟩
  kind h := ⟨h.kind wf ht, h.symm.kind wf' ht'⟩
  children h below := forall₂_iff_zip.2 ⟨length h below, fun mem => .child h below mem⟩
  parent h below := by
    obtain ⟨p, p', above, mem⟩ := h.exists_above below
    rw [wf.mem_children.1 (of_mem_zip mem).1, wf'.mem_children.1 (of_mem_zip mem).2]
    exact .some above
  top h := by
    obtain ⟨rfl, rfl⟩ := h.eq_table
    exact ⟨top, top'⟩
  table h := by
    obtain ⟨rfl, rfl⟩ := h.eq_table
    exact table
  layout := layout
  spans h := spans _ h.mem_tableCells
  text h _ := text h

/-- The table stands below the root and is placed, and its cells are tidy. -/
structure Standing (d : Document L) (t : NodeId) : Prop where
  steady : d.Steady t
  top : d.parent? t = some root
  tidy : ∀ c ∈ d.tableCells t, d.Tidy c

/-- A table that stands in a document is its own twin. -/
theorem Standing.paired (h : d.Standing t) : Paired t t d d := by
  have steady := h.steady
  refine ⟨⟨_, .of_opposite steady.wf steady.wf steady.kind steady.kind h.top h.top (fun h _ => ?_) rfl
    (fun h => ?_) steady.spans fun hc => ?_, .table⟩, steady.settled, steady.settled⟩
  · rw [h.eq_of_self]
  · rw [h.eq_of_self]
  · have tidy := h.tidy _ hc.mem_tableCells
    obtain rfl := hc.eq_of_self
    exact ⟨tidy, tidy, rfl⟩

/-- Of two twins each stands in its document. -/
theorem Paired.standing (h : Paired t t' d d') : d.Standing t := by
  obtain ⟨⟨R, h, ht⟩, settled, -⟩ := h
  have related : ∀ c ∈ d.tableCells t, ∃ c', R .cell c c' := fun c hc => by
    obtain ⟨c', -, hc'⟩ := exists_related_of_mem (h.tableCells ht) hc
    exact ⟨c', hc'⟩
  refine ⟨⟨h.wf, (h.kind ht).1, settled, fun c hc => ?_⟩, (h.top ht).1, fun c hc => ?_⟩
  · obtain ⟨c', hc'⟩ := related c hc
    exact h.spans hc'
  · obtain ⟨c', hc'⟩ := related c hc
    exact (h.text hc' not_false).left

/-! ## Built from a description -/

variable {config : Config L} {outline : TableOutline L}

theorem CellBuilt.tidy {n : NodeId} {o : CellOutline} (h : CellBuilt config d n o) :
    d.Tidy n ∧ d.cellText n = o.text.toList := by
  obtain ⟨-, b, hb, kind, text⟩ := h
  have line : d.lineText b = o.text.toList := by
    split at text
    · next empty => simp [lineText, text, empty]
    · obtain ⟨r, hr, ht⟩ := text
      simp [lineText, hr, ht]
  refine ⟨⟨by simpa [hb] using kind, by simp [hb], ?_⟩, ?_⟩
  · by_cases empty : o.text = ""
    · exact .inl (by simp [hb, line, empty])
    · exact .inr (by simpa [hb, line] using empty)
  · simp [cellText, hb, line, joinLines, freshLine]

theorem Loaded.standing (h : Loaded config outline d t) : d.Standing t := by
  refine ⟨⟨h.wf, h.kind, h.settled, h.spans⟩, h.parent, fun c hc => ?_⟩
  obtain ⟨b, wf, -, built, bordered⟩ := h
  have same := (wf.sameTree_placed t).trans bordered.same
  obtain ⟨o, ho⟩ := built.exists_of_mem (same.tableCells t ▸ hc)
  exact ((SameInside.of_sameTree same).tidy wf (kind?_of_cell? ho.1) not_false ho.tidy.1).1

/-- What is built at the place of a node has been built from its description. -/
def Fits (config : Config L) (d b : Document L) : Kind → NodeId → NodeId → Prop
  | .table, x, x' => BuiltOf .table (BuiltOf .rowGroup (BuiltOf .row (CellBuilt config))) b x'
      ((d.children x).map fun g => (d.children g).map fun r => (d.children r).filterMap d.cellOutline?)
  | .rowGroup, x, x' => BuiltOf .rowGroup (BuiltOf .row (CellBuilt config)) b x'
      ((d.children x).map fun r => (d.children r).filterMap d.cellOutline?)
  | .row, x, x' => BuiltOf .row (CellBuilt config) b x' ((d.children x).filterMap d.cellOutline?)
  | .cell, x, x' => ∃ o, d.cellOutline? x = some o ∧ CellBuilt config b x' o
  | _, _, _ => True

theorem Fits.children {b : Document L} (wf : d.WellFormed) (hx : d.kind? x = some k)
    (below : k.below = some k') (h : Fits config d b k x x') :
    Forall₂ (Fits config d b k') (d.children x) (b.children x') := by
  cases k <;> cases below
  · exact (forall₂_map_right_iff.1 h.2).flip
  · exact (forall₂_map_right_iff.1 h.2).flip
  · have described : Forall₂ (fun c o => d.cellOutline? c = some o) (d.children x)
        ((d.children x).filterMap d.cellOutline?) := by
      have all : (d.children x).filter (fun c => (d.cellOutline? c).isSome) = d.children x :=
        filter_eq_self.2 fun c hc => by
          obtain ⟨props, hp⟩ := exists_cell? (wf.kind_cell hx hc)
          simp [cellOutline?, hp]
      have related := related_filterMap d.cellOutline? (d.children x)
      rwa [all] at related
    exact related_comp described h.2

theorem Opposite.fits {b : Document L} (h : Opposite d d' t t' k x x') (same : SameTree b d')
    (wf : d.WellFormed) (ht : d.kind? t = some .table) (top : Fits config d b .table t t') :
    Fits config d b k x x' := by
  induction h with
  | table => exact top
  | child above below mem ih =>
    rw [same.children] at mem
    exact (forall₂_iff_zip.1 (ih.children wf (above.kind wf ht) below)).2 mem

/-- Cells that fit carry the same data, as far as descriptions go, and the same text. -/
theorem Fits.cell {b : Document L} (wf : d.WellFormed) {props : CellProps L}
    (hp : d.cell? c = some props) (spans : 1 ≤ props.columnSpan ∧ 1 ≤ props.rowSpan) (tidy : d.Tidy c)
    (h : Fits config d b .cell c c') :
    b.cell? c' = some
        { columnSpan := props.columnSpan, rowSpan := props.rowSpan, background := props.background
          borders := .uniform config.borderThickness } ∧
      b.Tidy c' ∧ b.cellText c' = d.cellText c := by
  obtain ⟨o, ho, built⟩ := h
  rw [cellOutline?, hp, Option.map_some, wf.plainText_cell (kind?_of_cell? hp) tidy.blocks] at ho
  obtain rfl := Option.some.inj ho
  refine ⟨?_, built.tidy.1, ?_⟩
  · rw [built.1, CellOutline.props]
    simp only [Nat.max_eq_left spans.1, Nat.max_eq_left spans.2]
  · rw [built.tidy.2, String.toList_ofList]

/-- A loaded cell carries what it has been built with, and a column. -/
theorem WellFormed.cell?_loaded {b : Document L} (wf : b.WellFormed) (bordered : Rebordered (b.placed t) d)
    {props : CellProps L} (hp : b.cell? c = some props) : ∃ p, d.cell? c = some p ∧
      p.columnSpan = props.columnSpan ∧ p.rowSpan = props.rowSpan ∧ p.background = props.background := by
  obtain ⟨s, hs⟩ := wf.exists_columns t
  have layout := bordered.layout c
  rw [wf.cell?_placed hs, hp] at layout
  obtain ⟨p, hd, layout⟩ := Option.map_eq_some_iff.1 layout
  refine ⟨p, hd, ?_⟩
  split at layout <;> simp_all [CellProps.layout]

/-- A table that has been loaded from the description of another is a twin of it. -/
theorem Standing.paired_of_outline (h : d.Standing t) (described : d.outline? t = some outline)
    (loaded : Loaded config outline d' t') : Paired t t' d d' := by
  have ⟨steady, top, tidy⟩ := h
  have steady' := loaded.standing.steady
  obtain ⟨b, wfb, -, built, bordered⟩ := id loaded
  have same := (wfb.sameTree_placed t').trans bordered.same
  obtain ⟨props, hp⟩ := exists_table? steady.kind
  rw [Document.outline?, hp, Option.map_some] at described
  obtain rfl := Option.some.inj described
  have fits {k x x'} (h : Opposite d d' t t' k x x') : Fits config d b k x x' :=
    h.fits same steady.wf steady.kind built.2
  have length {k k' x x'} (h : Opposite d d' t t' k x x') (below : k.below = some k') :
      (d.children x).length = (d'.children x').length := by
    rw [same.children]
    exact ((fits h).children steady.wf (h.kind steady.wf steady.kind) below).length_eq
  have below {k k' x x'} (h : Opposite d d' t t' k x x') (below : k.below = some k') :
      Forall₂ (Opposite d d' t t' k') (d.children x) (d'.children x') :=
    forall₂_iff_zip.2 ⟨length h below, fun mem => .child h below mem⟩
  have grid : Forall₂ (fun g g' => Forall₂ (Forall₂ (Opposite d d' t t' .cell)) (d.rowsOf g)
      (d'.rowsOf g')) (d.children t) (d'.children t') :=
    (below .table rfl).imp fun _ _ hg => rel_map (fun _ _ hr => below hr rfl) (below hg rfl)
  have cells {c c'} (h : Opposite d d' t t' .cell c c') : ∃ p p', d.cell? c = some p ∧
      d'.cell? c' = some p' ∧ p'.columnSpan = p.columnSpan ∧ p'.rowSpan = p.rowSpan ∧
      p'.background = p.background ∧ SameText d d' c c' := by
    have hc := h.mem_tableCells
    obtain ⟨p, hp⟩ := exists_cell? (h.kind steady.wf steady.kind)
    obtain ⟨hb, tidy', text⟩ := (fits h).cell steady.wf hp (steady.spans c hc p hp) (tidy c hc)
    obtain ⟨p', hp', data⟩ := wfb.cell?_loaded bordered hb
    have inside := (SameInside.of_sameTree same).tidy wfb (kind?_of_cell? hb) not_false tidy'
    exact ⟨p, p', hp, hp', data.1, data.2.1, data.2.2, tidy c hc, inside.1, by rw [inside.2, text]⟩
  have extent (c c') (h : Opposite d d' t t' .cell c c') : d.extent c = d'.extent c' := by
    obtain ⟨p, p', hp, hp', columnSpan, rowSpan, -⟩ := cells h
    rw [extent_eq hp, extent_eq hp', CellProps.extent, CellProps.extent, CellProps.width,
      CellProps.width, CellProps.height, CellProps.height, columnSpan, rowSpan]
  obtain ⟨-, columns, count⟩ := (steady.wf.settled_iff steady.kind).1 steady.settled
  obtain ⟨-, columns', count'⟩ := (steady'.wf.settled_iff steady'.kind).1 steady'.settled
  have starts := columns_eq_of_related columns columns' extent grid
  refine ⟨⟨_, .of_opposite steady.wf steady'.wf steady.kind steady'.kind top loaded.parent length ?_
    (fun h => ?_) steady.spans fun h => ?_, .table⟩, steady.settled, steady'.settled⟩
  · have data : d'.table? t' = some { props with columnCount := tableWidth (b.extents t') } := by
      rw [bordered.table, wfb.table?_placed, built.1]
      simp
    rw [columnCount, data] at count'
    rw [columnCount, hp, extents_eq_of_related extent grid, ← count'] at count
    rw [data, hp]
    simp only [Option.map_some, Option.getD_some] at count
    rw [← count]
  · obtain ⟨p, p', hp, hp', columnSpan, rowSpan, background, -⟩ := cells h
    obtain ⟨c₁, -, h₁, start⟩ := exists_related_of_mem starts h.mem_tableCells
    obtain rfl := h.right_unique steady.wf h₁
    have placed := steady.placed h.mem_tableCells
    have placed' := steady'.placed h.symm.mem_tableCells
    simp only [shape, columnIndex?, hp, hp', Option.bind_some] at start placed placed'
    obtain ⟨j, hj⟩ := Option.isSome_iff_exists.1 placed
    obtain ⟨j', hj'⟩ := Option.isSome_iff_exists.1 placed'
    rw [hj, hj', Option.getD_some, Option.getD_some] at start
    simp only [hp, hp', Option.map_some, CellProps.layout, columnSpan, rowSpan, background, hj, hj', start]
  · obtain ⟨-, -, -, -, -, -, -, text⟩ := cells h
    exact text

end Document

end RichTable
