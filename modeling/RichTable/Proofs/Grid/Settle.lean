import Mathlib
import RichTable.Proofs.Grid.Regular

/-!
# The end of an edit

Every edit ends by placing the table, checking its grid and correcting borders, in one order or
another. Borders take no part in the grid: `Rebordered d d'` says that the documents differ in borders
only. `Laid d d' t s` says that `d'` is `d` with the table placed at the columns `s`, borders aside.
An edit leaves a table that is `Tileable`; for such a table the check succeeds, and the table is
regular again (`Laid.regular`).
-/

namespace RichTable

variable {L : Type}

/-- What a cell carries apart from its borders. -/
def CellProps.layout (c : CellProps L) : Nat × Nat × Option Nat × Option String :=
  (c.columnSpan, c.rowSpan, c.columnIndex, c.background)

namespace Document

open Placement

variable {d d' d'' : Document L} {t g : NodeId} {n : Nat} {s : NodeId → Nat}

/-! ## Borders -/

/-- The documents differ in borders of cells only. -/
structure Rebordered (d d' : Document L) : Prop where
  same : SameTree d d'
  table : ∀ x, d'.table? x = d.table? x
  layout : ∀ x, (d'.cell? x).map (·.layout) = (d.cell? x).map (·.layout)

theorem Rebordered.refl (d : Document L) : Rebordered d d := ⟨.refl d, fun _ => rfl, fun _ => rfl⟩

theorem Rebordered.trans (h₁ : Rebordered d d') (h₂ : Rebordered d' d'') : Rebordered d d'' :=
  ⟨h₁.same.trans h₂.same, fun x => (h₂.table x).trans (h₁.table x),
    fun x => (h₂.layout x).trans (h₁.layout x)⟩

theorem Rebordered.modifyCell (c : NodeId) {f : CellProps L → CellProps L}
    (h : ∀ p, (f p).layout = p.layout) : Rebordered d (d.modifyCell c f) := by
  refine ⟨.modifyCell d c f, by simp, fun x => ?_⟩
  rw [cell?_modifyCell]
  cases d.cell? x with
  | none => rfl
  | some p =>
    simp only [Option.map_some, Option.some.injEq]
    split
    · exact h p
    · rfl

theorem Rebordered.foldl (cells : List NodeId) {f : NodeId → CellProps L → CellProps L}
    (h : ∀ c p, (f c p).layout = p.layout) (d : Document L) :
    Rebordered d (cells.foldl (fun e c => e.modifyCell c (f c)) d) := by
  induction cells generalizing d with
  | nil => exact .refl d
  | cons c cells ih => exact (Rebordered.modifyCell c (h c)).trans (ih _)

section

variable [Length L]

theorem layout_withCorrectBorders (spacing : L) (top : Bool) (c : CellProps L) :
    (c.withCorrectBorders spacing top).layout = c.layout := rfl

/-- The document with the borders of some cells of a table corrected, where `top` is the first row of
the table. -/
def reborder (d : Document L) (spacing : L) (top : Option NodeId) (cells : List NodeId) :
    Document L :=
  cells.foldl (fun e c => e.modifyCell c (·.withCorrectBorders spacing (d.parent? c == top))) d

theorem rebordered_reborder (d : Document L) (spacing : L) (top : Option NodeId)
    (cells : List NodeId) : Rebordered d (d.reborder spacing top cells) :=
  .foldl cells (fun _ p => layout_withCorrectBorders spacing _ p) d

theorem cell?_reborder {spacing : L} {top : Option NodeId} {cells : List NodeId}
    (nodup : cells.Nodup) (c : NodeId) : (d.reborder spacing top cells).cell? c =
      (d.cell? c).map fun props =>
        if c ∈ cells then props.withCorrectBorders spacing (d.parent? c == top) else props :=
  cell?_foldl nodup c

theorem reborder_append (spacing : L) (top : Option NodeId) (cells cells' : List NodeId) :
    (d.reborder spacing top cells).reborder spacing top cells' =
      d.reborder spacing top (cells ++ cells') := by
  have parent := (rebordered_reborder d spacing top cells).same.parent
  show cells'.foldl (fun e c => e.modifyCell c (·.withCorrectBorders spacing
    ((d.reborder spacing top cells).parent? c == top))) (d.reborder spacing top cells) = _
  simp only [parent]
  exact List.foldl_append.symm

end

/-! ## Layout -/

section

variable {c c' : NodeId} (h : (d'.cell? c').map (·.layout) = (d.cell? c).map (·.layout))

include h

/-- Of two nodes with the same layout both are cells, with the same data but for the borders, or
neither is. -/
theorem cell?_of_layout : d.cell? c = none ∧ d'.cell? c' = none ∨
    ∃ p p', d.cell? c = some p ∧ d'.cell? c' = some p' ∧ p'.layout = p.layout := by
  rcases hp : d.cell? c with _ | p <;> rcases hq : d'.cell? c' with _ | q <;>
    simp only [hp, hq, Option.map_none, Option.map_some, reduceCtorEq, Option.some.injEq] at h
  · exact .inl ⟨rfl, rfl⟩
  · exact .inr ⟨p, q, rfl, rfl, h⟩

theorem extent_of_layout : d'.extent c' = d.extent c := by
  unfold extent
  rcases cell?_of_layout h with ⟨h₁, h₂⟩ | ⟨p, p', h₁, h₂, layout⟩
  · rw [h₁, h₂]
  · simp only [CellProps.layout, Prod.mk.injEq] at layout
    simp [h₁, h₂, CellProps.extent, CellProps.width, CellProps.height, layout]

theorem columnIndex?_of_layout : d'.columnIndex? c' = d.columnIndex? c := by
  unfold columnIndex?
  rcases cell?_of_layout h with ⟨h₁, h₂⟩ | ⟨p, p', h₁, h₂, layout⟩
  · rw [h₁, h₂]
  · simp only [CellProps.layout, Prod.mk.injEq] at layout
    simp [h₁, h₂, layout]

theorem columnRange?_of_layout : d'.columnRange? c' = d.columnRange? c := by
  unfold columnRange?
  rcases cell?_of_layout h with ⟨h₁, h₂⟩ | ⟨p, p', h₁, h₂, layout⟩
  · rw [h₁, h₂]
  · simp only [CellProps.layout, Prod.mk.injEq] at layout
    simp [h₁, h₂, CellProps.width, layout]

end

theorem Rebordered.shape (h : Rebordered d d') : d'.shape = d.shape := by
  unfold Document.shape
  simp only [columnIndex?_of_layout (h.layout _), extent_of_layout (h.layout _)]

/-- `d'` is `d` with the table placed at the columns `s`, borders aside. -/
structure Laid (d d' : Document L) (t : NodeId) (s : NodeId → Nat) : Prop where
  same : SameTree d d'
  layout : ∀ x, (d'.cell? x).map (·.layout) = (d.cell? x).map fun props =>
    if x ∈ d.tableCells t then ({ props with columnIndex := some (s x) } : CellProps L).layout
    else props.layout
  table : ∀ x, d'.table? x = (d.table? x).map fun props =>
    if x = t then { props with columnCount := tableWidth (d.extents t) } else props

theorem WellFormed.laid_placed (wf : d.WellFormed) (hs : d.Columns t s) :
    Laid d (d.placed t) t s where
  same := wf.sameTree_placed t
  layout x := by
    rw [wf.cell?_placed hs]
    cases d.cell? x with
    | none => rfl
    | some p =>
      simp only [Option.map_some]
      split <;> rfl
  table x := wf.table?_placed x

theorem Laid.trans_rebordered (h : Laid d d' t s) (h' : Rebordered d' d'') : Laid d d'' t s :=
  ⟨h.same.trans h'.same, fun x => (h'.layout x).trans (h.layout x),
    fun x => (h'.table x).trans (h.table x)⟩

theorem Rebordered.trans_laid (h : Rebordered d d') (h' : Laid d' d'' t s) : Laid d d'' t s := by
  refine ⟨h.same.trans h'.same, fun x => ?_, fun x => ?_⟩
  · rw [h'.layout, h.same.tableCells]
    have := h.layout x
    rcases hp : d.cell? x with _ | p <;> rcases hq : d'.cell? x with _ | q <;>
      simp only [hp, hq, Option.map_none, Option.map_some, reduceCtorEq, Option.some.injEq] at this
    · rfl
    · simp only [Option.map_some, Option.some.injEq]
      split
      · simp only [CellProps.layout, Prod.mk.injEq] at this ⊢
        simp [this]
      · exact this
  · rw [h'.table, h.table, h.same.extents fun c _ => extent_of_layout (h.layout c)]

namespace Laid

theorem rebordered (wf : d.WellFormed) (hs : d.Columns t s) (h : Laid d d' t s) :
    Rebordered (d.placed t) d' := by
  have h' := wf.laid_placed hs
  refine ⟨⟨h.same.size.trans h'.same.size.symm, fun x => ?_, fun x => ?_, fun x => ?_, fun x => ?_,
    fun x => ?_, fun x => ?_⟩, fun x => ?_, fun x => ?_⟩
  · rw [h.same.kind, h'.same.kind]
  · rw [h.same.text, h'.same.text]
  · rw [h.same.children, h'.same.children]
  · rw [h.same.parent, h'.same.parent]
  · rw [h.same.contentLength, h'.same.contentLength]
  · rw [h.same.ownLength, h'.same.ownLength]
  · rw [h.table, h'.table]
  · rw [h.layout, h'.layout]

theorem columnCount (h : Laid d d' t s) (ht : d.kind? t = some .table) :
    d'.columnCount t = tableWidth (d.extents t) := by
  obtain ⟨props, hp⟩ := exists_table? ht
  simp [Document.columnCount, h.table, hp]

theorem columnIndex? (h : Laid d d' t s) {c : NodeId} (hk : d.kind? c = some .cell)
    (hc : c ∈ d.tableCells t) : d'.columnIndex? c = some (s c) := by
  have := h.layout c
  obtain ⟨p, hp⟩ := exists_cell? hk
  obtain ⟨q, hq⟩ := exists_cell? ((h.same.kind c).trans hk)
  simp only [hp, hq, Option.map_some, if_pos hc, Option.some.injEq, CellProps.layout,
    Prod.mk.injEq] at this
  simp [Document.columnIndex?, hq, this]

theorem extent_eq (h : Laid d d' t s) (c : NodeId) : d'.extent c = d.extent c := by
  have := h.layout c
  unfold Document.extent
  rcases hp : d.cell? c with _ | p <;> rcases hq : d'.cell? c with _ | q <;>
    simp only [hp, hq, Option.map_none, Option.map_some, reduceCtorEq, Option.some.injEq] at this
  · rfl
  · split_ifs at this <;>
      simp only [CellProps.layout, Prod.mk.injEq] at this <;>
      simp [CellProps.extent, CellProps.width, CellProps.height, this]

theorem exists_props (h : Laid d d' t s) {c : NodeId} {p : CellProps L} (hp : d.cell? c = some p) :
    ∃ p', d'.cell? c = some p' ∧ p'.columnSpan = p.columnSpan ∧ p'.rowSpan = p.rowSpan ∧
      p'.background = p.background := by
  have := h.layout c
  rw [hp, Option.map_some, Option.map_eq_some_iff] at this
  obtain ⟨p', hp', layout⟩ := this
  refine ⟨p', hp', ?_⟩
  split_ifs at layout <;> simp only [CellProps.layout, Prod.mk.injEq] at layout <;> simp [layout]

/-- A cell that carries its column stays as it is, borders aside. -/
theorem layout_of_columnIndex? (h : Laid d d' t s) {c : NodeId}
    (hc : d.columnIndex? c = some (s c)) :
    (d'.cell? c).map (·.layout) = (d.cell? c).map (·.layout) := by
  rw [h.layout]
  cases hp : d.cell? c with
  | none => rfl
  | some p =>
    rw [Document.columnIndex?, hp, Option.bind_some] at hc
    simp only [Option.map_some, CellProps.layout, hc, ite_self]

/-- Widths and heights stay, and cells start where they have been placed. -/
theorem shape_eq (h : Laid d d' t s) (wf : d.WellFormed) (ht : d.kind? t = some .table) :
    d'.shape.width = d.shape.width ∧ d'.shape.height = d.shape.height ∧
      ∀ c ∈ d.tableCells t, d'.shape.start c = s c :=
  ⟨funext fun c => by simp [Document.shape, h.extent_eq], funext fun c => by
    simp [Document.shape, h.extent_eq], fun _ hc =>
    start_eq (h.columnIndex? (wf.kind_tableCells ht hc) hc)⟩

/-- A placed table shows what its cells cover at their columns. -/
theorem covers_iff (h : Laid d d' t s) (wf : d.WellFormed) (ht : d.kind? t = some .table)
    (hg : g ∈ d.children t) {i j : Nat} {c : NodeId} (hi : i < (d.rowsOf g).length) :
    d'.shape.Covers (d'.rowsOf g) i j c ↔
      (⟨s, d.shape.width, d.shape.height⟩ : Shape).Covers (d.rowsOf g) i j c := by
  obtain ⟨width, height, start⟩ := h.shape_eq wf ht
  rw [h.same.rowsOf]
  refine Tiling.covers_clip (b := d'.shape) (a := ⟨s, d.shape.width, d.shape.height⟩) (fun hs => ?_)
    (fun _ => congrFun width _) (fun _ _ _ => by rw [height]) hi
  exact start _ (mem_tableCells.2 ⟨g, hg, _, hs⟩)

end Laid

theorem Rebordered.columnCount (h : Rebordered d d') (t : NodeId) :
    d'.columnCount t = d.columnCount t := by
  rw [Document.columnCount, Document.columnCount, h.table]

theorem Rebordered.settled (h : Rebordered d d') (wf : d.WellFormed)
    (ht : d.kind? t = some .table) (settled : d.Settled t) : d'.Settled t := by
  obtain ⟨placed, columns, count⟩ := (wf.settled_iff ht).1 settled
  have extents := fun c (_ : c ∈ d.tableCells t) => extent_of_layout (h.layout c)
  refine ((h.same.wellFormed wf).settled_iff ((h.same.kind t).trans ht)).2 ⟨fun c hc => ?_, ?_, ?_⟩
  · rw [columnIndex?_of_layout (h.layout c)]
    exact placed c (h.same.tableCells t ▸ hc)
  · rw [h.shape]
    exact h.same.columns extents columns
  · rw [h.columnCount, h.same.extents extents, count]

theorem Rebordered.tiled (h : Rebordered d d') (tiled : d.Tiled t) : d'.Tiled t := by
  intro g hg
  rw [h.same.children] at hg
  rw [h.columnCount, h.shape, h.same.rowsOf]
  exact tiled g hg

/-- The table can be tiled in `n` columns, with its cells starting at the columns `s`. It need not
have been placed. -/
structure Tileable (d : Document L) (t : NodeId) (n : Nat) (s : NodeId → Nat) : Prop where
  wf : d.WellFormed
  kind : d.kind? t = some .table
  tiling : ∀ g ∈ d.children t, Tiling n ⟨s, d.shape.width, d.shape.height⟩ (d.rowsOf g)
  spans : ∀ c ∈ d.tableCells t, ∀ props, d.cell? c = some props →
    1 ≤ props.columnSpan ∧ 1 ≤ props.rowSpan

theorem Regular.tileable (reg : d.Regular t) : d.Tileable t (d.columnCount t) d.shape.start :=
  ⟨reg.wf, reg.kind, reg.tiled, reg.spans⟩

/-- A table that is tiled by the columns its cells carry needs no placing. -/
theorem Tileable.regular (tile : d.Tileable t (d.columnCount t) d.shape.start)
    (placed : ∀ c ∈ d.tableCells t, (d.columnIndex? c).isSome) (rows : d.tableRows t ≠ []) :
    d.Regular t :=
  ⟨tile.wf, tile.kind, (tile.wf.settled_iff tile.kind).2 ⟨placed, columns_of_tiling tile.tiling,
    (tableWidth_of_tiling tile.tiling rows).symm⟩, tile.tiling, tile.spans⟩

theorem Rebordered.tileable (h : Rebordered d d') (tile : d.Tileable t n s) :
    d'.Tileable t n s where
  wf := h.same.wellFormed tile.wf
  kind := (h.same.kind t).trans tile.kind
  tiling g hg := by
    rw [h.same.children] at hg
    rw [h.shape, h.same.rowsOf]
    exact tile.tiling g hg
  spans c hc q hq := by
    rw [h.same.tableCells] at hc
    have := h.layout c
    rw [hq, Option.map_some, eq_comm, Option.map_eq_some_iff] at this
    obtain ⟨p, hp, e⟩ := this
    simp only [CellProps.layout, Prod.mk.injEq] at e
    rw [← e.1, ← e.2.1]
    exact tile.spans c hc p hp

theorem Tileable.laid (tile : d.Tileable t n s) : Laid d (d.placed t) t s :=
  tile.wf.laid_placed (columns_of_tiling tile.tiling)

/-- A tileable table is regular once it is placed. -/
theorem Laid.regular (h : Laid d d' t s) (tile : d.Tileable t n s) : d'.Regular t := by
  obtain ⟨wf, ht, tiling, spans⟩ := tile
  have rebordered := h.rebordered wf (columns_of_tiling tiling)
  have same := wf.sameTree_placed t
  have ht' := (same.kind t).trans ht
  refine ⟨h.same.wellFormed wf, (h.same.kind t).trans ht,
    rebordered.settled (same.wellFormed wf) ht' (wf.settled_placed ht),
    rebordered.tiled (wf.tiled_placed ht tiling), fun c hc q hq => ?_⟩
  rw [h.same.tableCells] at hc
  obtain ⟨p, hp⟩ := exists_cell? ((h.same.kind c).symm.trans (kind?_of_cell? hq))
  have := h.layout c
  simp only [hp, hq, Option.map_some, if_pos hc, Option.some.injEq, CellProps.layout,
    Prod.mk.injEq] at this
  rw [this.1, this.2.1]
  exact spans c hc p hp

/-- The document with the borders of a table corrected and the table placed. -/
def tidied [Length L] (d : Document L) (t : NodeId) : Document L :=
  match d.table? t with
  | some props => (d.reborder props.cellSpacing (d.tableRows t).head? (d.tableCells t)).placed t
  | none => d

theorem tidied_eq [Length L] {props : TableProps L} (hp : d.table? t = some props) :
    d.tidied t =
      (d.reborder props.cellSpacing (d.tableRows t).head? (d.tableCells t)).placed t := by
  rw [tidied, hp]

theorem Tileable.laid_tidied [Length L] (tile : d.Tileable t n s) : Laid d (d.tidied t) t s := by
  obtain ⟨props, hp⟩ := exists_table? tile.kind
  have h := rebordered_reborder d props.cellSpacing (d.tableRows t).head? (d.tableCells t)
  rw [tidied_eq hp]
  exact h.trans_laid (h.tileable tile).laid

/-- The table can be tiled with every cell at the column that it carries, but for cells that are `new`
and carry none. -/
def Poised (d : Document L) (t : NodeId) (new : NodeId → Prop) : Prop :=
  ∃ n s, d.Tileable t n s ∧ ∀ c ∈ d.tableCells t,
    d.columnIndex? c = some (s c) ∨ d.columnIndex? c = none ∧ new c

theorem Tileable.poised {new : NodeId → Prop} (tile : d.Tileable t n d.shape.start)
    (placed : ∀ c ∈ d.tableCells t, (d.columnIndex? c).isSome) : d.Poised t new :=
  ⟨n, _, tile, fun c hc => .inl (by
    obtain ⟨j, hj⟩ := Option.isSome_iff_exists.1 (placed c hc)
    simp [shape, hj])⟩

namespace Poised

variable [Length L] {new : NodeId → Prop}

theorem same (h : d.Poised t new) : SameTree d (d.tidied t) := by
  obtain ⟨n, s, tile, -⟩ := h
  exact tile.laid_tidied.same

theorem regular (h : d.Poised t new) : (d.tidied t).Regular t := by
  obtain ⟨n, s, tile, -⟩ := h
  exact tile.laid_tidied.regular tile

end Poised

end Document

/-! ## The actions -/

namespace Action

open Document

variable {d : Document L} {t g : NodeId} {n : Nat} {s : NodeId → Nat}

theorem ensures_place {Q : Nat → Document L → Prop} (wf : d.WellFormed)
    (ht : d.kind? t = some .table) :
    Ensures (place t) d Q ↔ Q (Placement.tableWidth (d.extents t)) (d.placed t) := by
  obtain ⟨props, hp⟩ := exists_table? ht
  have cells : (d.cellGrid t).flatten.flatten.find? (fun c => !d.isKind c .cell) = none := by
    refine List.find?_eq_none.2 fun c hc => ?_
    rw [flatten_cellGrid] at hc
    obtain ⟨g, hg, r, hs⟩ := mem_tableCells.1 hc
    simp [wf.kind_stored (wf.kind_group ht hg) hs]
  simp only [place, ensures_bind, ensures_requireTable hp, ensures_get, cells, ensures_set,
    ensures_pure]

theorem ensures_checkGrid {Q : Unit → Document L → Prop} (h : d.gridFault? t = none) :
    Ensures (checkGrid t) d Q ↔ Q () d := by
  simp only [checkGrid, ensures_bind, ensures_get, h, ensures_pure]

/-- A tileable table passes the check once it is placed. -/
theorem ensures_place_checkGrid_iff {Q : Unit → Document L → Prop} (tile : d.Tileable t n s) :
    (Ensures (place t) d fun _ d₁ => Ensures (checkGrid t) d₁ Q) ↔ Q () (d.placed t) := by
  obtain ⟨wf, ht, tiling, -⟩ := tile
  have same := wf.sameTree_placed t
  rw [ensures_place wf ht]
  exact ensures_checkGrid (((same.wellFormed wf).gridFault?_eq_none_iff ((same.kind t).trans ht)
    (wf.settled_placed ht)).2 (wf.tiled_placed ht tiling))

theorem ensures_place_checkGrid {Q : Document L → Prop} (tile : d.Tileable t n s)
    (rest : ∀ d', Laid d d' t s → Q d') :
    Ensures (place t) d fun _ d₁ => Ensures (checkGrid t) d₁ fun _ d₂ => Q d₂ :=
  (ensures_place_checkGrid_iff tile).2 (rest _ tile.laid)

theorem ensures_place_steady (steady : d.Steady t) {Q : Nat → Document L → Prop} :
    Ensures (place t) d Q ↔ Q (d.columnCount t) d := by
  rw [ensures_place steady.wf steady.kind, steady.settled,
    ← ((steady.wf.settled_iff steady.kind).1 steady.settled).2.2]

theorem ensures_forM_updateCell {cells : List NodeId} {f : NodeId → CellProps L → CellProps L}
    {Q : PUnit → Document L → Prop} (kind : ∀ c ∈ cells, d.kind? c = some .cell) :
    Ensures (cells.forM fun c => updateCell c (f c)) d Q ↔
      Q ⟨⟩ (cells.foldl (fun d c => d.modifyCell c (f c)) d) := by
  induction cells generalizing d with
  | nil => exact ensures_pure
  | cons c cells ih =>
    rw [List.foldl_cons, ← ih fun x hx => by simpa using kind x (by simp [hx])]
    exact ensures_bind.trans (ensures_updateCell (kind c (by simp)))

variable [Length L]

/-- Correcting borders of a row group is a write for each cell stored in it. -/
theorem ensures_correctGroupBorders_iff (wf : d.WellFormed) (hg : g ∈ d.children t)
    {props : TableProps L} (hp : d.table? t = some props) {Q : Unit → Document L → Prop} :
    Ensures (correctGroupBorders t g) d Q ↔
      Q () (d.reborder props.cellSpacing (d.tableRows t).head? (d.rowsOf g).flatten) := by
  have hk := wf.kind_group (kind?_of_table? hp) hg
  have rows : ∀ (rows : List NodeId) (e : Document L), (∀ row ∈ rows, row ∈ d.children g) →
      SameTree d e → (Ensures (rows.forM fun row => (d.children row).forM fun cell => updateCell cell
        (·.withCorrectBorders props.cellSpacing (some row == (d.tableRows t).head?))) e Q ↔
        Q () ((rows.flatMap d.children).foldl (fun e c => e.modifyCell c
          (·.withCorrectBorders props.cellSpacing (d.parent? c == (d.tableRows t).head?))) e)) :=
    fun rows => by
      induction rows with
      | nil => exact fun e _ _ => ensures_pure
      | cons row rows ih =>
        intro e hrows same
        have kind : ∀ c ∈ d.children row, e.kind? c = some .cell := fun c hc =>
          (same.kind c).trans (wf.kind_cell (wf.kind_row hk (hrows row (by simp))) hc)
        rw [List.flatMap_cons, List.foldl_append,
          ← ih _ (fun x hx => hrows x (by simp [hx])) (same.trans (sameTree_foldl _ _ e))]
        refine (ensures_bind.trans (ensures_forM_updateCell kind)).trans ?_
        rw [List.foldl_ext _ _ e fun e' c hc => by rw [← wf.mem_children.1 hc]]
  simp only [correctGroupBorders, ensures_bind, ensures_requireTable hp, ensures_get]
  exact rows _ d (fun _ => id) (.refl d)

theorem ensures_correctGroupBorders (wf : d.WellFormed) (ht : d.kind? t = some .table)
    (hg : g ∈ d.children t) : Ensures (correctGroupBorders t g) d fun _ d' => Rebordered d d' := by
  obtain ⟨props, hp⟩ := exists_table? ht
  rw [ensures_correctGroupBorders_iff wf hg hp]
  exact rebordered_reborder ..

/-- Correcting the borders of a table is a write for each of its cells. -/
theorem ensures_correctBorders_iff (wf : d.WellFormed) {props : TableProps L}
    (hp : d.table? t = some props) {Q : Unit → Document L → Prop} :
    Ensures (correctBorders t) d Q ↔
      Q () (d.reborder props.cellSpacing (d.tableRows t).head? (d.tableCells t)) := by
  simp only [correctBorders, ensures_bind, ensures_get, tableCells_eq_flatMap]
  have groups : ∀ (gs : List NodeId) (e : Document L), (∀ g ∈ gs, g ∈ d.children t) →
      Rebordered d e → (Ensures (gs.forM (correctGroupBorders t)) e Q ↔
        Q () (e.reborder props.cellSpacing (d.tableRows t).head?
          (gs.flatMap fun g => (d.rowsOf g).flatten))) := fun gs => by
    induction gs with
    | nil => exact fun e _ _ => ensures_pure
    | cons g gs ih =>
      intro e hgs h
      have step := ensures_correctGroupBorders_iff (h.same.wellFormed wf)
        (h.same.children t ▸ hgs g (by simp)) ((h.table t).trans hp)
        (Q := fun _ e' => Ensures (gs.forM (correctGroupBorders t)) e' Q)
      rw [h.same.tableRows, h.same.rowsOf] at step
      refine (ensures_bind.trans step).trans ?_
      rw [ih _ (fun x hx => hgs x (by simp [hx])) (h.trans (rebordered_reborder ..)),
        reborder_append, List.flatMap_cons]
  exact groups _ d (fun _ => id) (.refl d)

theorem ensures_correctBorders (wf : d.WellFormed) (ht : d.kind? t = some .table) :
    Ensures (correctBorders t) d fun _ d' => Rebordered d d' := by
  obtain ⟨props, hp⟩ := exists_table? ht
  rw [ensures_correctBorders_iff wf hp]
  exact rebordered_reborder ..

/-- A tileable table settles. -/
theorem ensures_settle_iff (tile : d.Tileable t n s) {Q : Unit → Document L → Prop} :
    Ensures (settle t) d Q ↔ Q () (d.tidied t) := by
  obtain ⟨props, hp⟩ := exists_table? tile.kind
  have h := rebordered_reborder d props.cellSpacing (d.tableRows t).head? (d.tableCells t)
  simp only [settle, ensures_bind, ensures_correctBorders_iff tile.wf hp]
  rw [ensures_place_checkGrid_iff (h.tileable tile), tidied_eq hp]

end Action

end RichTable
