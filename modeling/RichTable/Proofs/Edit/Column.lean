import Mathlib
import RichTable.Edit.Column
import RichTable.Proofs.Edit.Inherit
import RichTable.Proofs.Grid.Widest
import RichTable.Proofs.Outcome

/-!
# Inserting and deleting a column

In a regular table both edits succeed and leave a regular table. The loop over the rows is followed
row by row (`ViewWidened`, `ViewNarrowed`); what comes out is a `Widening` or a `Narrowing` of the
tiling, so the table can be placed again.

In a table that is not regular a deletion may find the grid malformed. But if it does not, it has
taken away at most one column, so that columns are never deleted in part (`ends_deleteColumnTimes`).
-/

namespace RichTable

namespace Document

variable {L : Type} {d e : Document L} {t row : NodeId}

theorem shape_modifyTable (f : TableProps L → TableProps L) : (d.modifyTable t f).shape = d.shape := by
  simp only [shape, columnIndex?, extent, cell?_modifyTable]

theorem Tileable.modifyTable {n : Nat} {s : NodeId → Nat} (tile : e.Tileable t n s)
    (f : TableProps L → TableProps L) : (e.modifyTable t f).Tileable t n s := by
  have same : SameTree e (e.modifyTable t f) := .modifyTable e t f
  refine ⟨same.wellFormed tile.wf, (same.kind t).trans tile.kind, fun g hg => ?_, fun c hc => ?_⟩
  · rw [same.children] at hg
    rw [same.rowsOf, shape_modifyTable]
    exact tile.tiling g hg
  · rw [same.tableCells] at hc
    simpa using tile.spans c hc

/-- A table that has been given other widths and then been laid out. -/
theorem Laid.of_modifyTable {d' : Document L} {f : TableProps L → TableProps L} {n : Nat}
    {s : NodeId → Nat} (laid : Laid (e.modifyTable t f) d' t s) (tile : e.Tileable t n s)
    (rows : e.tableRows t ≠ []) : d'.Regular t ∧ SameTree e d' ∧ d'.columnCount t = n ∧
      (∀ c ∈ e.tableCells t, d'.shape.start c = s c) ∧ d'.shape.width = e.shape.width := by
  have same : SameTree e (e.modifyTable t f) := .modifyTable e t f
  have tile := tile.modifyTable f
  obtain ⟨hw, -, hst⟩ := laid.shape_eq tile.wf tile.kind
  refine ⟨laid.regular tile, same.trans laid.same, ?_, fun c hc => hst c (same.tableCells t ▸ hc),
    by rw [hw, shape_modifyTable]⟩
  rw [laid.columnCount tile.kind]
  exact tableWidth_of_tiling tile.tiling (same.tableRows t ▸ rows)

theorem storedCell?_of_rowView (h : e.rowView row = d.rowView row) (j : Nat) :
    e.storedCell? row j = d.storedCell? row j := by
  rw [storedCell?, storedCell?, children_of_rowView h]
  refine List.find?_congr fun c hc => ?_
  rw [covers, covers, columnRange?, columnRange?, cell?_of_rowView h hc]

/-- An edit of the cells of a table leaves the properties of the table alone. -/
theorem Frame.table?_of_cells {C : NodeId → Prop}
    (frame : Frame C (fun c => ∃ r ∈ d.tableRows t, c ∈ d.children r) d e) (wf : d.WellFormed)
    (ht : d.kind? t = some .table) : e.table? t = d.table? t := by
  refine frame.table t (lt_size_of_kind? ht) ?_
  rintro ⟨r, hr, hc⟩
  have := wf.kind_cell (wf.kind_tableRows ht hr) hc
  rw [ht] at this
  cases this

/-- A change of one cell is seen in its row. -/
theorem rowView_modifyCell {c : NodeId} {props : CellProps L} (cell : d.cell? c = some props)
    (f : CellProps L → CellProps L) (row : NodeId) : (d.modifyCell c f).rowView row =
      (d.children row).map fun x => (x, if x = c then some (f props) else d.cell? x) := by
  refine rowView_eq_map.2 ⟨children_modifyCell _ _ _, fun x _ => ?_⟩
  rw [cell?_modifyCell]
  split_ifs with hx
  · rw [hx, cell, Option.map_some]
  · simp

/-- What inserting a column makes of a row. -/
inductive ViewWidened (d : Document L) (τ : Nat) (behind : Bool) (row : NodeId) :
    List (NodeId × Option (CellProps L)) → Prop
  | absent (found : d.storedCell? row τ = none) : ViewWidened d τ behind row (d.rowView row)
  | wide {c : NodeId} {props : CellProps L} (found : d.storedCell? row τ = some c)
    (cell : d.cell? c = some props) (wide : 1 < props.columnSpan) :
    ViewWidened d τ behind row ((d.children row).map fun x =>
      (x, if x = c then some { props with columnSpan := props.columnSpan + 1 } else d.cell? x))
  | narrow {c f : NodeId} {props : CellProps L} {l u : List NodeId}
    (found : d.storedCell? row τ = some c) (cell : d.cell? c = some props)
    (narrow : props.columnSpan ≤ 1) (split : d.children row = l ++ c :: u) (fresh : d.size ≤ f) :
    ViewWidened d τ behind row ((if behind then l ++ c :: f :: u else l ++ f :: c :: u).map fun x =>
      (x, if x = f then some { props with columnIndex := none } else d.cell? x))

theorem ViewWidened.of_rowView {τ : Nat} {behind : Bool} {V : List (NodeId × Option (CellProps L))}
    (view : e.rowView row = d.rowView row) (size : d.size ≤ e.size)
    (h : ViewWidened e τ behind row V) : ViewWidened d τ behind row V := by
  have children := children_of_rowView view
  cases h with
  | absent found =>
    rw [view]
    exact .absent (storedCell?_of_rowView view τ ▸ found)
  | @wide c props found cell wide =>
    rw [storedCell?_of_rowView view] at found
    rw [cell?_of_rowView view (List.mem_of_find?_eq_some found)] at cell
    rw [children, List.map_congr_left fun x hx => by rw [cell?_of_rowView view hx]]
    exact .wide found cell wide
  | @narrow c f props l u found cell narrow split fresh =>
    rw [storedCell?_of_rowView view] at found
    rw [cell?_of_rowView view (List.mem_of_find?_eq_some found)] at cell
    rw [children] at split
    have cells : ∀ x ∈ (if behind then l ++ c :: f :: u else l ++ f :: c :: u),
        (x, if x = f then some { props with columnIndex := none } else e.cell? x) =
          (x, if x = f then some { props with columnIndex := none } else d.cell? x) := fun x hx => by
      split_ifs with hf
      · rfl
      · have : x ∈ d.children row := by
          rw [split]
          cases behind <;> simp_all
        rw [cell?_of_rowView view this]
    rw [List.map_congr_left cells]
    exact .narrow found cell narrow split (size.trans fresh)

/-- The columns at which the cells of a table stand when a column has been inserted. -/
def widenedStart (d : Document L) (τ : Nat) (behind : Bool) (x : NodeId) : Nat :=
  if x < d.size then
    if τ < d.shape.start x ∨ behind = false ∧ d.shape.start x = τ ∧ d.shape.width x = 1 then
      d.shape.start x + 1
    else d.shape.start x
  else if behind then τ + 1 else τ

/-- One row of a regular table into which a column has been inserted. -/
structure RowGains (d e : Document L) (τ : Nat) (behind : Bool) (row : NodeId) : Prop where
  widened : ∃ f, Tiling.RowWidened d.shape ⟨d.widenedStart τ behind, e.shape.width, e.shape.height⟩ τ
    behind f (d.children row) (e.children row)
  cell : ∀ c ∈ d.children row, Tiling.CellWidened d.shape
    ⟨d.widenedStart τ behind, e.shape.width, e.shape.height⟩ τ behind c
  old : (e.children row).filter (· < d.size) = d.children row
  spans : ∀ c ∈ e.children row, ∀ props, e.cell? c = some props →
    1 ≤ props.columnSpan ∧ 1 ≤ props.rowSpan

theorem ViewWidened.rowGains {τ : Nat} {behind : Bool} (reg : d.Regular t)
    (hr : row ∈ d.tableRows t) (h : ViewWidened d τ behind row (e.rowView row)) :
    RowGains d e τ behind row := by
  have known : ∀ c ∈ d.children row, c < d.size := fun c hc => reg.wf.lt_size_child hc
  have member : ∀ c ∈ d.children row, c ∈ d.tableCells t := fun c hc =>
    List.mem_flatMap.2 ⟨row, hr, hc⟩
  have start : ∀ c ∈ d.children row, d.widenedStart τ behind c =
      if τ < d.shape.start c ∨ behind = false ∧ d.shape.start c = τ ∧ d.shape.width c = 1 then
        d.shape.start c + 1
      else d.shape.start c := fun c hc => if_pos (known c hc)
  have spans : ∀ c ∈ d.children row, ∀ props, d.cell? c = some props →
      1 ≤ props.columnSpan ∧ 1 ≤ props.rowSpan := fun c hc => reg.spans c (member c hc)
  have same : ∀ c, e.cell? c = d.cell? c →
      e.shape.width c = d.shape.width c ∧ e.shape.height c = d.shape.height c := fun c hc => by
    simp [shape, extent, hc]
  have filter : (d.children row).filter (· < d.size) = d.children row :=
    List.filter_eq_self.2 fun c hc => by simpa using known c hc
  generalize hV : e.rowView row = V at h
  cases h with
  | absent found =>
    obtain ⟨hrow, hcell⟩ := rowView_eq_map.1 hV
    have none := (reg.steady.storedCell?_eq_none hr).1 found
    refine ⟨⟨0, ?_⟩, fun c hc => ?_, hrow ▸ filter, fun c hc props hp => ?_⟩
    · rw [hrow]
      exact .grow fun c hc h => absurd h (none c hc)
    · obtain ⟨hw, hh⟩ := same c (hcell c hc)
      refine ⟨start c hc, hw.trans (if_neg fun h => none c hc ⟨h.1, h.2.1⟩).symm, hh⟩
    · rw [hrow] at hc
      exact spans c hc props (hcell c hc ▸ hp)
  | @wide c props found cell wide =>
    obtain ⟨hrow, hcell⟩ := rowView_eq_map.1 hV
    obtain ⟨hc, hcτ⟩ := (reg.steady.storedCell?_eq_some hr).1 found
    have only : ∀ x ∈ d.children row, d.shape.Spans τ x → x = c := fun x hx hxτ =>
      reg.steady.spans_unique hr hx hc hxτ hcτ
    obtain ⟨hw, hh⟩ := reg.steady.shape_eq (member c hc) cell
    refine ⟨⟨0, ?_⟩, fun x hx => ?_, hrow ▸ filter, fun x hx q hq => ?_⟩
    · rw [hrow]
      exact .grow fun x hx hxτ => by rwa [only x hx hxτ, hw]
    · by_cases hxc : x = c
      · subst hxc
        have hcx := hcell x hx
        rw [if_pos rfl] at hcx
        refine ⟨start x hx, ?_, ?_⟩
        · rw [if_pos ⟨hcτ.1, hcτ.2, hw ▸ wide⟩, hw]
          simp [shape, extent_eq hcx, CellProps.extent, CellProps.width]
        · rw [hh]
          have := (spans x hx props cell).2
          simp only [shape, extent_eq hcx, CellProps.extent, CellProps.height]
          omega
      · have hcx := hcell x hx
        rw [if_neg hxc] at hcx
        obtain ⟨hw, hh⟩ := same x hcx
        exact ⟨start x hx, hw.trans (if_neg fun h => hxc (only x hx ⟨h.1, h.2.1⟩)).symm, hh⟩
    · rw [hrow] at hx
      rw [hcell x hx] at hq
      split_ifs at hq with hxc
      · cases hq
        exact ⟨Nat.succ_pos _, (spans c hc props cell).2⟩
      · exact spans x hx q hq
  | @narrow c f props l u found cell narrow split fresh =>
    obtain ⟨hrow, hcell⟩ := rowView_eq_map.1 hV
    obtain ⟨hc, hcτ⟩ := (reg.steady.storedCell?_eq_some hr).1 found
    have only : ∀ x ∈ d.children row, d.shape.Spans τ x → x = c := fun x hx hxτ =>
      reg.steady.spans_unique hr hx hc hxτ hcτ
    obtain ⟨hw, hh⟩ := reg.steady.shape_eq (member c hc) cell
    obtain ⟨hpos, hposr⟩ := spans c hc props cell
    have mem : ∀ x, x ∈ (if behind then l ++ c :: f :: u else l ++ f :: c :: u) ↔
        x = f ∨ x ∈ d.children row := fun x => by
      rw [split]
      cases behind <;> simp <;> tauto
    have hcf := hcell f ((mem f).2 (.inl rfl))
    rw [if_pos rfl] at hcf
    have old : ∀ x ∈ d.children row, e.cell? x = d.cell? x := fun x hx => by
      rw [hcell x ((mem x).2 (.inr hx)), if_neg ((known x hx).trans_le fresh).ne]
    refine ⟨⟨f, ?_⟩, fun x hx => ?_, ?_, fun x hx q hq => ?_⟩
    · rw [hrow, split]
      refine .copy hcτ (by omega) (if_neg (Nat.not_lt.2 fresh)) ?_ ?_ rfl
      · simp only [shape, extent_eq hcf, CellProps.extent, CellProps.width]
        omega
      · rw [hh]
        simp only [shape, extent_eq hcf, CellProps.extent, CellProps.height]
        omega
    · obtain ⟨hwx, hhx⟩ := same x (old x hx)
      refine ⟨start x hx, hwx.trans (if_neg fun h => ?_).symm, hhx⟩
      rw [only x hx ⟨h.1, h.2.1⟩] at h
      omega
    · have hf : ¬ f < d.size := Nat.not_lt.2 fresh
      rw [hrow, split]
      rw [split] at filter
      cases behind <;>
        simpa only [List.filter_append, List.filter_cons, hf, decide_false, Bool.false_eq_true,
          if_false, if_true] using filter
    · rw [hrow] at hx
      rcases (mem x).1 hx with rfl | hx
      · rw [hcf] at hq
        cases hq
        exact ⟨hpos, hposr⟩
      · exact spans x hx q (old x hx ▸ hq)

theorem widening_of_rowGains {g : NodeId} {τ : Nat} {behind : Bool} (wfe : e.WellFormed)
    (children : e.children g = d.children g)
    (gains : ∀ r ∈ d.children g, RowGains d e τ behind r) :
    ∃ f, Tiling.Widening d.shape ⟨d.widenedStart τ behind, e.shape.width, e.shape.height⟩ τ behind f
      (d.rowsOf g) (e.rowsOf g) := by
  have row : ∀ i : Nat, ∃ f, ∀ row', (e.rowsOf g)[i]? = some row' → ∃ row, (d.rowsOf g)[i]? = some row ∧
      Tiling.RowWidened d.shape ⟨d.widenedStart τ behind, e.shape.width, e.shape.height⟩ τ behind f
        row row' := fun i => by
    cases hi : (d.children g)[i]? with
    | none => exact ⟨0, fun row' h => by simp [rowsOf, children, hi] at h⟩
    | some r =>
      obtain ⟨f, hf⟩ := (gains r (List.mem_of_getElem? hi)).widened
      refine ⟨f, fun row' h => ⟨d.children r, by simp [rowsOf, hi], ?_⟩⟩
      obtain rfl : e.children r = row' := by simpa [rowsOf, children, hi] using h
      exact hf
  choose f hf using row
  refine ⟨f, wfe.nodup_rowsOf g, by simp [children], hf, fun {r c} hs => ?_⟩
  obtain ⟨q, hq, hc⟩ := stored_rowsOf.1 hs
  exact (gains q (List.mem_of_getElem? hq)).cell c hc

/-- The loop over the rows has made room for a column next to column `τ` of a regular table. -/
structure RowsWidened (d e : Document L) (t : NodeId) (τ : Nat) (behind : Bool) : Prop where
  regular : d.Regular t
  target : τ < d.columnCount t
  wf : e.WellFormed
  frame : Frame (· ∈ d.tableRows t) (fun c => ∃ r ∈ d.tableRows t, c ∈ d.children r) d e
  views : ∀ r ∈ d.tableRows t, ViewWidened d τ behind r (e.rowView r)
  origins : ∀ r ∈ d.tableRows t, RowFrom d e r

namespace RowsWidened

variable {τ : Nat} {behind : Bool}

theorem tree (h : RowsWidened d e t τ behind) : e.children t = d.children t ∧
    (∀ g ∈ d.children t, e.children g = d.children g) ∧ e.tableRows t = d.tableRows t :=
  h.frame.tableRows h.regular.wf h.regular.kind fun _ => h.regular.wf.kind_tableRows h.regular.kind

theorem table?_eq (h : RowsWidened d e t τ behind) : e.table? t = d.table? t :=
  h.frame.table?_of_cells h.regular.wf h.regular.kind

theorem gains (h : RowsWidened d e t τ behind) {r : NodeId} (hr : r ∈ d.tableRows t) :
    RowGains d e τ behind r :=
  (h.views r hr).rowGains h.regular hr

theorem inherits (h : RowsWidened d e t τ behind) : Inherits (fun _ => true) d e t :=
  .of_rows _ _ h.frame (fun _ => h.regular.wf.kind_tableRows h.regular.kind) h.tree.2.2
    (fun r hr => ⟨by rw [(h.gains hr).old, List.filter_true], h.origins r hr⟩) h.regular.wf
    h.regular.kind

theorem exists_widening (h : RowsWidened d e t τ behind) {g : NodeId} (hg : g ∈ d.children t) :
    ∃ f, Tiling.Widening d.shape ⟨d.widenedStart τ behind, e.shape.width, e.shape.height⟩ τ behind f
      (d.rowsOf g) (e.rowsOf g) :=
  widening_of_rowGains h.wf (h.tree.2.1 g hg) fun _ hr => h.gains (List.mem_flatMap.2 ⟨g, hg, hr⟩)

theorem tileable (h : RowsWidened d e t τ behind) :
    e.Tileable t (d.columnCount t + 1) (d.widenedStart τ behind) := by
  obtain ⟨groups, -, rows⟩ := h.tree
  refine ⟨h.wf, ?_, fun g hg => ?_, fun c hc => ?_⟩
  · rw [h.frame.kind t (lt_size_of_kind? h.regular.kind), h.regular.kind]
  · rw [groups] at hg
    obtain ⟨new, w⟩ := h.exists_widening hg
    exact w.tiling (h.regular.tiled g hg) h.target
  · obtain ⟨r, hr, hcr⟩ := List.mem_flatMap.1 hc
    exact (h.gains (rows ▸ hr)).spans c hcr

end RowsWidened

/-- What deleting a column makes of a row. -/
inductive ViewNarrowed (d : Document L) (k : Nat) (row : NodeId) :
    List (NodeId × Option (CellProps L)) → Prop
  | absent (found : d.storedCell? row k = none) : ViewNarrowed d k row (d.rowView row)
  | wide {c : NodeId} {props : CellProps L} (found : d.storedCell? row k = some c)
    (cell : d.cell? c = some props) (wide : 1 < props.columnSpan) :
    ViewNarrowed d k row ((d.children row).map fun x =>
      (x, if x = c then some { props with columnSpan := props.columnSpan - 1 } else d.cell? x))
  | gone {c : NodeId} {props : CellProps L} (found : d.storedCell? row k = some c)
    (cell : d.cell? c = some props) (narrow : props.columnSpan ≤ 1) :
    ViewNarrowed d k row (((d.children row).filter (· != c)).map fun x => (x, d.cell? x))

theorem ViewNarrowed.of_rowView {k : Nat} {V : List (NodeId × Option (CellProps L))}
    (view : e.rowView row = d.rowView row) (h : ViewNarrowed e k row V) :
    ViewNarrowed d k row V := by
  have children := children_of_rowView view
  have cells : ∀ x ∈ d.children row, e.cell? x = d.cell? x := fun x hx => cell?_of_rowView view hx
  cases h with
  | absent found =>
    rw [view]
    exact .absent (storedCell?_of_rowView view k ▸ found)
  | @wide c props found cell wide =>
    rw [storedCell?_of_rowView view] at found
    rw [cells c (List.mem_of_find?_eq_some found)] at cell
    rw [children, List.map_congr_left fun x hx => by rw [cells x hx]]
    exact .wide found cell wide
  | @gone c props found cell narrow =>
    rw [storedCell?_of_rowView view] at found
    rw [cells c (List.mem_of_find?_eq_some found)] at cell
    rw [children, List.map_congr_left fun x hx => by rw [cells x (List.mem_filter.1 hx).1]]
    exact .gone found cell narrow

/-- Whether column `k` is all that a cell covers. -/
def fillsColumn (d : Document L) (k : Nat) (c : NodeId) : Bool :=
  d.shape.start c == k && d.shape.width c == 1

theorem fillsColumn_iff {k : Nat} {c : NodeId} :
    d.fillsColumn k c = true ↔ d.shape.start c = k ∧ d.shape.width c = 1 := by
  simp [fillsColumn]

/-- Whether a cell lies in the columns from `first` to before `stop`. -/
def inColumns (d : Document L) (first stop : Nat) (c : NodeId) : Bool :=
  first ≤ d.shape.start c && d.shape.start c + d.shape.width c ≤ stop

theorem inColumns_iff {first stop : Nat} {c : NodeId} : d.inColumns first stop c = true ↔
    first ≤ d.shape.start c ∧ d.shape.start c + d.shape.width c ≤ stop := by
  simp [inColumns]

/-- The columns at which the cells of a table stand when column `k` has been deleted. -/
def narrowedStart (d : Document L) (k : Nat) (x : NodeId) : Nat :=
  if k < d.shape.start x then d.shape.start x - 1 else d.shape.start x

/-- One row of a regular table from which a column has been deleted. -/
structure RowLoses (d e : Document L) (k : Nat) (row : NodeId) : Prop where
  children : e.children row = (d.children row).filter fun c => !d.fillsColumn k c
  width : ∀ c ∈ e.children row, e.shape.width c =
    if d.shape.start c ≤ k ∧ k < d.shape.start c + d.shape.width c then d.shape.width c - 1
    else d.shape.width c
  height : ∀ c ∈ e.children row, e.shape.height c = d.shape.height c
  spans : ∀ c ∈ e.children row, ∀ props, e.cell? c = some props →
    1 ≤ props.columnSpan ∧ 1 ≤ props.rowSpan

theorem ViewNarrowed.rowLoses {k : Nat} (steady : d.Steady t) (hr : row ∈ d.tableRows t)
    (h : ViewNarrowed d k row (e.rowView row)) : RowLoses d e k row := by
  have member : ∀ c ∈ d.children row, c ∈ d.tableCells t := fun c hc =>
    List.mem_flatMap.2 ⟨row, hr, hc⟩
  have spans : ∀ c ∈ d.children row, ∀ props, d.cell? c = some props →
      1 ≤ props.columnSpan ∧ 1 ≤ props.rowSpan := fun c hc => steady.spans c (member c hc)
  have same : ∀ c, e.cell? c = d.cell? c →
      e.shape.width c = d.shape.width c ∧ e.shape.height c = d.shape.height c := fun c hc => by
    simp [shape, extent, hc]
  have spanned : ∀ c, d.fillsColumn k c = true → d.shape.Spans k c := fun c hc => by
    obtain ⟨h₁, h₂⟩ := fillsColumn_iff.1 hc
    unfold Shape.Spans
    omega
  generalize hV : e.rowView row = V at h
  cases h with
  | absent found =>
    obtain ⟨hrow, hcell⟩ := rowView_eq_map.1 hV
    have none := (steady.storedCell?_eq_none hr).1 found
    refine ⟨?_, fun c hc => ?_, fun c hc => ?_, fun c hc props hp => ?_⟩
    · rw [hrow, eq_comm, List.filter_eq_self]
      exact fun c hc => by simpa using fun h => none c hc (spanned c h)
    all_goals rw [hrow] at hc
    · exact (same c (hcell c hc)).1.trans (if_neg fun h => none c hc h).symm
    · exact (same c (hcell c hc)).2
    · exact spans c hc props (hcell c hc ▸ hp)
  | @wide c props found cell wide =>
    obtain ⟨hrow, hcell⟩ := rowView_eq_map.1 hV
    obtain ⟨hc, hck⟩ := (steady.storedCell?_eq_some hr).1 found
    have only : ∀ x ∈ d.children row, d.shape.Spans k x → x = c := fun x hx hxk =>
      steady.spans_unique hr hx hc hxk hck
    obtain ⟨hw, hh⟩ := steady.shape_eq (member c hc) cell
    have hcc := hcell c hc
    rw [if_pos rfl] at hcc
    have other : ∀ x ∈ d.children row, x ≠ c → e.cell? x = d.cell? x := fun x hx hne => by
      rw [hcell x hx, if_neg hne]
    refine ⟨?_, fun x hx => ?_, fun x hx => ?_, fun x hx q hq => ?_⟩
    · rw [hrow, eq_comm, List.filter_eq_self]
      intro x hx
      simp only [Bool.not_eq_eq_eq_not, Bool.not_true, Bool.eq_false_iff]
      intro h
      obtain ⟨-, h₂⟩ := fillsColumn_iff.1 h
      rw [only x hx (spanned x h)] at h₂
      omega
    all_goals
      rw [hrow] at hx
      by_cases hxc : x = c
    · subst hxc
      refine Eq.trans ?_ (if_pos hck).symm
      rw [hw]
      simp only [shape, extent_eq hcc, CellProps.extent, CellProps.width]
      omega
    · exact (same x (other x hx hxc)).1.trans (if_neg fun h => hxc (only x hx h)).symm
    · subst hxc
      have := (spans x hc props cell).2
      rw [hh]
      simp only [shape, extent_eq hcc, CellProps.extent, CellProps.height]
      omega
    · exact (same x (other x hx hxc)).2
    · subst hxc
      rw [hcc] at hq
      cases hq
      exact ⟨Nat.le_sub_one_of_lt wide, (spans x hc props cell).2⟩
    · exact spans x hx q (other x hx hxc ▸ hq)
  | @gone c props found cell narrow =>
    obtain ⟨hrow, hcell⟩ := rowView_eq_map.1 hV
    obtain ⟨hc, hck⟩ := (steady.storedCell?_eq_some hr).1 found
    have only : ∀ x ∈ d.children row, d.shape.Spans k x → x = c := fun x hx hxk =>
      steady.spans_unique hr hx hc hxk hck
    obtain ⟨hw, -⟩ := steady.shape_eq (member c hc) cell
    have hfill : d.fillsColumn k c = true := by
      have := spans c hc props cell
      obtain ⟨h₁, h₂⟩ := hck
      exact fillsColumn_iff.2 (by omega)
    have kept : ∀ x ∈ e.children row, x ∈ d.children row ∧ x ≠ c := fun x hx => by
      simpa [hrow] using hx
    have other : ∀ x ∈ e.children row, e.cell? x = d.cell? x := fun x hx =>
      hcell x (hrow ▸ hx)
    refine ⟨?_, fun x hx => ?_, fun x hx => (same x (other x hx)).2, fun x hx q hq => ?_⟩
    · rw [hrow]
      refine List.filter_congr fun x hx => ?_
      rw [Bool.eq_iff_iff]
      simp only [bne_iff_ne, ne_eq, Bool.not_eq_eq_eq_not, Bool.not_true, Bool.eq_false_iff,
        not_iff_not]
      exact ⟨fun h => h ▸ hfill, fun h => only x hx (spanned x h)⟩
    · obtain ⟨hxr, hxc⟩ := kept x hx
      exact (same x (other x hx)).1.trans (if_neg fun h => hxc (only x hxr h)).symm
    · exact spans x (kept x hx).1 q (other x hx ▸ hq)

theorem narrowing_of_rowLoses {g : NodeId} {k : Nat} (children : e.children g = d.children g)
    (loses : ∀ r ∈ d.children g, RowLoses d e k r) :
    Tiling.Narrowing d.shape ⟨d.narrowedStart k, e.shape.width, e.shape.height⟩ k (d.rowsOf g)
      (e.rowsOf g) := by
  have stored : ∀ {r c}, Stored (e.rowsOf g) r c → ∃ q ∈ d.children g, c ∈ e.children q :=
    fun hs => by
      obtain ⟨q, hq, hc⟩ := stored_rowsOf.1 hs
      exact ⟨q, children ▸ List.mem_of_getElem? hq, hc⟩
  refine ⟨?_, fun _ => rfl, fun hs => ?_, fun hs => ?_⟩
  · rw [rowsOf, rowsOf, children, List.map_map]
    exact List.map_congr_left fun r hr => (loses r hr).children
  · obtain ⟨q, hq, hc⟩ := stored hs
    exact (loses q hq).width _ hc
  · obtain ⟨q, hq, hc⟩ := stored hs
    exact (loses q hq).height _ hc

/-- The loop over the rows of a table has taken away column `k`. -/
structure RowsNarrowed (d e : Document L) (t : NodeId) (k : Nat) : Prop where
  steady : d.Steady t
  wf : e.WellFormed
  frame : Frame (· ∈ d.tableRows t) (fun c => ∃ r ∈ d.tableRows t, c ∈ d.children r) d e
  views : ∀ r ∈ d.tableRows t, ViewNarrowed d k r (e.rowView r)
  origins : ∀ r ∈ d.tableRows t, RowFrom d e r

namespace RowsNarrowed

variable {k : Nat}

theorem tree (h : RowsNarrowed d e t k) : e.children t = d.children t ∧
    (∀ g ∈ d.children t, e.children g = d.children g) ∧ e.tableRows t = d.tableRows t :=
  h.frame.tableRows h.steady.wf h.steady.kind fun _ => h.steady.wf.kind_tableRows h.steady.kind

theorem kind (h : RowsNarrowed d e t k) : e.kind? t = some .table := by
  rw [h.frame.kind t (lt_size_of_kind? h.steady.kind), h.steady.kind]

theorem loses (h : RowsNarrowed d e t k) {r : NodeId} (hr : r ∈ d.tableRows t) :
    RowLoses d e k r :=
  (h.views r hr).rowLoses h.steady hr

theorem inherits (h : RowsNarrowed d e t k) : Inherits (fun c => !d.fillsColumn k c) d e t := by
  refine .of_rows _ _ h.frame (fun _ => h.steady.wf.kind_tableRows h.steady.kind) h.tree.2.2
    (fun r hr => ⟨?_, h.origins r hr⟩) h.steady.wf h.steady.kind
  rw [(h.loses hr).children, List.filter_eq_self]
  intro c hc
  simpa using h.steady.wf.lt_size_child (List.mem_filter.1 hc).1

theorem narrowing (h : RowsNarrowed d e t k) {g : NodeId} (hg : g ∈ d.children t) :
    Tiling.Narrowing d.shape ⟨d.narrowedStart k, e.shape.width, e.shape.height⟩ k (d.rowsOf g)
      (e.rowsOf g) :=
  narrowing_of_rowLoses (h.tree.2.1 g hg) fun _ hr => h.loses (List.mem_flatMap.2 ⟨g, hg, hr⟩)

theorem table?_eq (h : RowsNarrowed d e t k) : e.table? t = d.table? t :=
  h.frame.table?_of_cells h.steady.wf h.steady.kind

theorem spans (h : RowsNarrowed d e t k) {c : NodeId} (hc : c ∈ e.tableCells t)
    {props : CellProps L} (hp : e.cell? c = some props) :
    1 ≤ props.columnSpan ∧ 1 ≤ props.rowSpan := by
  obtain ⟨r, hr, hcr⟩ := List.mem_flatMap.1 hc
  exact (h.loses (h.tree.2.2 ▸ hr)).spans c hcr props hp

theorem tileable (h : RowsNarrowed d e t k) (reg : d.Regular t) (hk : k < d.columnCount t) :
    e.Tileable t (d.columnCount t - 1) (d.narrowedStart k) := by
  refine ⟨h.wf, h.kind, fun g hg => ?_, fun c hc props => h.spans hc⟩
  rw [h.tree.1] at hg
  exact (h.narrowing hg).tiling (reg.tiled g hg) hk

/-- The narrowed rows laid out. -/
theorem laidOut (h : RowsNarrowed d e t k) (reg : d.Regular t) (hk : k < d.columnCount t)
    {d' : Document L} {f : TableProps L → TableProps L}
    (laid : Laid (e.modifyTable t f) d' t (d.narrowedStart k)) : d'.Regular t ∧ SameTree e d' ∧
      d'.columnCount t = d.columnCount t - 1 ∧
      ∀ c ∈ d'.tableCells t, d'.shape.start c = d.narrowedStart k c ∧ d'.shape.width c =
        if d.shape.start c ≤ k ∧ k < d.shape.start c + d.shape.width c then d.shape.width c - 1
        else d.shape.width c := by
  have rows := h.tree.2.2
  obtain ⟨reg', same, count, start, width⟩ :=
    laid.of_modifyTable (h.tileable reg hk) (rows ▸ reg.tableRows_ne_nil (Nat.zero_lt_of_lt hk))
  refine ⟨reg', same, count, fun c hc => ?_⟩
  rw [same.tableCells] at hc
  obtain ⟨r, hr, hcr⟩ := List.mem_flatMap.1 hc
  rw [width]
  exact ⟨start c hc, (h.loses (rows ▸ hr)).width c hcr⟩

end RowsNarrowed

/-- What is left of a cell lies in the other columns exactly if the cell lay in all of them. -/
theorem inColumns_succ {k count : Nat} {c : NodeId} (pos : 0 < d.shape.width c)
    (left : d.fillsColumn k c = false → e.shape.start c = d.narrowedStart k c ∧ e.shape.width c =
      if d.shape.start c ≤ k ∧ k < d.shape.start c + d.shape.width c then d.shape.width c - 1
      else d.shape.width c) :
    (!d.fillsColumn k c && !e.inColumns k (k + count) c) = !d.inColumns k (k + (count + 1)) c := by
  cases fills : d.fillsColumn k c with
  | true =>
    rw [fillsColumn_iff] at fills
    rw [Bool.not_true, Bool.false_and, eq_comm, Bool.not_eq_false', inColumns_iff]
    omega
  | false =>
    obtain ⟨hs, hw⟩ := left fills
    rw [← Bool.not_eq_true, fillsColumn_iff] at fills
    rw [Bool.not_false, Bool.true_and, Bool.eq_iff_iff]
    simp only [Bool.not_eq_true', ← Bool.not_eq_true, inColumns_iff, hs, hw, narrowedStart]
    split_ifs <;> omega

end Document

namespace Action

open Document

variable {L : Type} {d : Document L} {row : NodeId}

theorem ensures_widenRow (wf : d.WellFormed) (hr : d.kind? row = some .row) (τ : Nat)
    (behind : Bool) : Ensures (widenRow τ behind row) d fun _ d' => d'.WellFormed ∧
      Frame (· = row) (· ∈ d.children row) d d' ∧ ViewWidened d τ behind row (d'.rowView row) ∧
      RowFrom d d' row := by
  simp only [widenRow, ensures_bind, ensures_get]
  cases found : d.storedCell? row τ with
  | none =>
    simp only [ensures_pure]
    exact ⟨wf, .refl d, .absent found, fun c hc => .inl hc⟩
  | some c =>
    have hc : c ∈ d.children row := List.mem_of_find?_eq_some found
    have hk := wf.kind_cell hr hc
    obtain ⟨props, cell⟩ := exists_cell? hk
    simp only [ensures_bind, ensures_requireCell cell]
    split
    · next wide =>
      rw [ensures_updateCell hk]
      refine ⟨wf.modifyCell _ _, .of_modifyCell hc, ?_, fun x hx => .inl (by simpa using hx)⟩
      rw [rowView_modifyCell cell]
      exact .wide found cell wide
    · next narrow =>
      obtain ⟨l, u, split⟩ := List.mem_iff_append.1 hc
      refine ensures_bind.2 ((ensures_copyCell wf cell).mono fun f d₁ ⟨hf, new⟩ => ?_)
      have hrow := lt_size_of_kind? hr
      have same : d₁.children row = l ++ c :: u := (new.frame.children row hrow id).trans split
      have index : d₁.childIndex? c = some l.length :=
        new.wf.childIndex?_eq (p := row) (by rw [same]; simp)
      simp only [ensures_bind, ensures_get, index, Option.getD_some,
        ensures_insertChild (new.attachable wf hr)]
      have ins := new.attach wf hr (if behind then l.length + 1 else l.length)
      generalize d₁.attach row (if behind then l.length + 1 else l.length) f = d₂ at ins ⊢
      have children : d₂.children row =
          if behind then l ++ c :: f :: u else l ++ f :: c :: u := by
        rw [ins.row, split]
        cases behind with
        | true => simpa using insertIdx_length_append (l ++ [c]) u f
        | false => simpa using insertIdx_length_append l (c :: u) f
      refine ⟨ins.wf, ins.frame.mono (fun _ _ => id) (fun _ _ => False.elim) wf, ?_, fun x hx => ?_⟩
      · rw [rowView_eq_map.2 ⟨children, fun x hx => ?_⟩]
        · exact .narrow found cell (Nat.le_of_not_lt narrow) split new.fresh
        · split_ifs with hxf
          · rw [hxf, ins.cell]
          · have hx : x ∈ d.children row := by
              rw [split]
              cases behind <;> simp_all
            rw [ins.frame.cell x (wf.lt_size_child hx) id]
      · rw [children] at hx
        by_cases hxf : x = f
        · exact .inr (hxf ▸ ⟨new.fresh, ins.blank⟩)
        · left
          rw [split]
          cases behind <;> simp_all

theorem ensures_narrowRow (wf : d.WellFormed) (hr : d.kind? row = some .row) (k : Nat) :
    Ensures (narrowRow k row) d fun _ d' => d'.WellFormed ∧
      Frame (· = row) (· ∈ d.children row) d d' ∧ ViewNarrowed d k row (d'.rowView row) ∧
      RowFrom d d' row := by
  simp only [narrowRow, ensures_bind, ensures_get]
  cases found : d.storedCell? row k with
  | none =>
    simp only [ensures_pure]
    exact ⟨wf, .refl d, .absent found, fun c hc => .inl hc⟩
  | some c =>
    have hc : c ∈ d.children row := List.mem_of_find?_eq_some found
    have hk := wf.kind_cell hr hc
    obtain ⟨props, cell⟩ := exists_cell? hk
    simp only [ensures_bind, ensures_requireCell cell]
    split
    · next wide =>
      rw [ensures_updateCell hk]
      refine ⟨wf.modifyCell _ _, .of_modifyCell hc, ?_, fun x hx => .inl (by simpa using hx)⟩
      rw [rowView_modifyCell cell]
      exact .wide found cell wide
    · next narrow =>
      rw [ensures_detach]
      refine ⟨wf.detach c, .of_detach wf fun p hp => ?_, ?_, fun x hx => ?_⟩
      · exact Option.some.inj (hp.symm.trans (wf.mem_children.1 hc))
      · rw [rowView_eq_map.2 ⟨wf.children_detach c row, fun x _ => cell?_detach c x⟩]
        exact .gone found cell (Nat.le_of_not_lt narrow)
      · rw [wf.children_detach] at hx
        exact .inl (List.mem_filter.1 hx).1

/-- All rows are widened. -/
theorem ensures_widenRows {t : NodeId} (reg : d.Regular t) {τ : Nat} (hτ : τ < d.columnCount t)
    (behind : Bool) : Ensures ((d.tableRows t).forM (widenRow τ behind)) d fun _ e =>
      RowsWidened d e t τ behind := by
  refine (ensures_forM_rows reg.wf (P := fun r V => ViewWidened d τ behind r V)
    (reg.wf.nodup_tableRows t) (fun r hr => reg.wf.kind_tableRows reg.kind hr)
    fun r hr e wfe size hk view => ?_).mono fun _ e ⟨wfe, frame, rows⟩ =>
      ⟨reg, hτ, wfe, frame, fun r hr => (rows r hr).1, fun r hr => (rows r hr).2⟩
  refine (ensures_widenRow wfe hk τ behind).mono fun _ e' ⟨wfe', frame, hv, hfrom⟩ =>
    ⟨wfe', ?_, hv.of_rowView view size, hfrom⟩
  rwa [children_of_rowView view] at frame

/-- All rows are narrowed. -/
theorem ensures_narrowRows {t : NodeId} (steady : d.Steady t) (k : Nat) :
    Ensures ((d.tableRows t).forM (narrowRow k)) d fun _ e => RowsNarrowed d e t k := by
  refine (ensures_forM_rows steady.wf (P := fun r V => ViewNarrowed d k r V)
    (steady.wf.nodup_tableRows t) (fun r hr => steady.wf.kind_tableRows steady.kind hr)
    fun r hr e wfe size hkr view => ?_).mono fun _ e ⟨wfe, frame, rows⟩ =>
      ⟨steady, wfe, frame, fun r hr => (rows r hr).1, fun r hr => (rows r hr).2⟩
  refine (ensures_narrowRow wfe hkr k).mono fun _ e' ⟨wfe', frame, hv, hfrom⟩ =>
    ⟨wfe', ?_, hv.of_rowView view, hfrom⟩
  rwa [children_of_rowView view] at frame

variable [Length L] {t : NodeId}

/-- The end of both edits, after the loop over the rows. -/
theorem ensures_finishColumns {e : Document L} (f : TableProps L → TableProps L) {n : Nat}
    {s : NodeId → Nat} (tile : e.Tileable t n s) {Q : Document L → Prop}
    (rest : ∀ d', Laid (e.modifyTable t f) d' t s → Q d') :
    Ensures (modify (·.modifyTable t f) : Action L PUnit) e fun _ d₁ => Ensures (place t) d₁ fun _ d₂ =>
      Ensures (checkGrid t) d₂ fun _ d₃ => Ensures (correctBorders t) d₃ fun _ d' => Q d' := by
  rw [ensures_modify]
  have tile := tile.modifyTable f
  refine ensures_place_checkGrid tile fun d₃ laid => ?_
  refine (ensures_correctBorders (laid.same.wellFormed tile.wf)
    ((laid.same.kind t).trans tile.kind)).mono fun _ d₄ bordered => ?_
  exact rest d₄ (laid.trans_rebordered bordered)

/-- Inserting a column makes room in every row, gives the new column its width, and lays the table
out. -/
theorem ensures_insertColumn_stages (reg : d.Regular t) (hn : 0 < d.columnCount t)
    (after : Option Nat) {τ : Nat} (hτ : τ = (after.map (min · (d.columnCount t - 1))).getD 0) :
    Ensures (insertColumn t after) d fun _ d' => ∃ e, RowsWidened d e t τ after.isSome ∧
      Laid (e.modifyTable t fun props => { props with columns := insertWidth after props.columns }) d'
        t (d.widenedStart τ after.isSome) := by
  simp only [insertColumn, ensures_bind, ensures_place_steady reg.steady, ensures_get]
  have hlt : τ < d.columnCount t := by
    cases after <;> simp_all
  rw [← hτ]
  refine (ensures_widenRows reg hlt after.isSome).mono fun _ e widened => ?_
  exact ensures_finishColumns _ widened.tileable fun d' laid => ⟨e, widened, laid⟩

/-- A column inserted into a regular table leaves a regular table. -/
theorem ensures_insertColumn (reg : d.Regular t) (hn : 0 < d.columnCount t) (after : Option Nat) :
    Ensures (insertColumn t after) d fun _ d' => d'.Regular t ∧ Inherits (fun _ => true) d d' t ∧
      d'.columnCount t = d.columnCount t + 1 := by
  refine (ensures_insertColumn_stages reg hn after rfl).mono fun _ d' ⟨e, widened, laid⟩ => ?_
  have rows : e.tableRows t ≠ [] := widened.tree.2.2 ▸ reg.tableRows_ne_nil hn
  obtain ⟨reg', same, count, -⟩ := laid.of_modifyTable widened.tileable rows
  exact ⟨reg', widened.inherits.trans_sameTree same, count⟩

/-- Deleting a column takes it away from every row, drops its width, and lays the table out. -/
theorem ensures_deleteColumn_stages (reg : d.Regular t) {k : Nat} (hn : 1 < d.columnCount t)
    (hk : k < d.columnCount t) : Ensures (deleteColumn t k) d fun done d' => done = true ∧
      ∃ e, RowsNarrowed d e t k ∧
        Laid (e.modifyTable t fun props => { props with columns := props.columns.eraseIdx k }) d' t
          (d.narrowedStart k) := by
  simp only [deleteColumn, ensures_bind, ensures_place_steady reg.steady]
  rw [if_neg (by omega)]
  simp only [ensures_bind, ensures_get]
  refine (ensures_narrowRows reg.steady k).mono fun _ e narrowed => ?_
  refine ensures_finishColumns _ (narrowed.tileable reg hk) fun d' laid => ?_
  rw [ensures_pure]
  exact ⟨rfl, e, narrowed, laid⟩

/-- A column deleted from a regular table that has another leaves a regular table. -/
theorem ensures_deleteColumn (reg : d.Regular t) {k : Nat} (hn : 1 < d.columnCount t)
    (hk : k < d.columnCount t) : Ensures (deleteColumn t k) d fun done d' => done = true ∧
      d'.Regular t ∧ Inherits (fun c => !d.fillsColumn k c) d d' t ∧
      d'.columnCount t = d.columnCount t - 1 ∧
      ∀ c ∈ d'.tableCells t, d'.shape.start c = d.narrowedStart k c ∧ d'.shape.width c =
        if d.shape.start c ≤ k ∧ k < d.shape.start c + d.shape.width c then d.shape.width c - 1
        else d.shape.width c := by
  refine (ensures_deleteColumn_stages reg hn hk).mono fun done d' ⟨hdone, e, narrowed, laid⟩ => ?_
  obtain ⟨reg', same, count, shape⟩ := narrowed.laidOut reg hk laid
  exact ⟨hdone, reg', narrowed.inherits.trans_sameTree same, count, shape⟩

theorem ensures_insertColumnTimes (after : Option Nat) (count : Nat) (reg : d.Regular t)
    (hn : 0 < d.columnCount t) : Ensures (insertColumnTimes t after count) d fun _ d' =>
      d'.Regular t ∧ Inherits (fun _ => true) d d' t ∧
      d'.columnCount t = d.columnCount t + count := by
  induction count generalizing d with
  | zero =>
    simp only [insertColumnTimes, ensures_pure]
    exact ⟨reg, .of_sameTree reg.wf reg.kind (.refl d), rfl⟩
  | succ count ih =>
    simp only [insertColumnTimes, ensures_bind]
    refine (ensures_insertColumn reg hn after).mono fun _ d₁ ⟨reg₁, inh₁, count₁⟩ => ?_
    refine (ih reg₁ (by omega)).mono fun _ d₂ ⟨reg₂, inh₂, count₂⟩ => ⟨reg₂, ?_, by omega⟩
    exact (inh₁.trans inh₂ reg₁.wf reg₁.kind).congr fun _ _ => rfl

/-- Deleting column `k` several times deletes the columns from `k` on. -/
theorem ensures_deleteColumnTimes (k count : Nat) (reg : d.Regular t)
    (hn : count < d.columnCount t) (hk : k + count ≤ d.columnCount t) :
    Ensures (deleteColumnTimes t k count) d fun done d' => done = true ∧ d'.Regular t ∧
      Inherits (fun c => !d.inColumns k (k + count) c) d d' t ∧
      d'.columnCount t = d.columnCount t - count := by
  induction count generalizing d with
  | zero =>
    simp only [deleteColumnTimes, ensures_pure]
    refine ⟨trivial, reg, (Inherits.of_sameTree reg.wf reg.kind (.refl d)).congr fun c hc => ?_, rfl⟩
    obtain ⟨g, hg, r, hs⟩ := mem_tableCells.1 hc
    have := reg.wf.width_pos (reg.kind_group hg) hs
    rw [eq_comm, Bool.not_eq_true', ← Bool.not_eq_true, inColumns_iff]
    omega
  | succ count ih =>
    simp only [deleteColumnTimes, ensures_bind]
    refine (ensures_deleteColumn reg (k := k) (by omega) (by omega)).mono
      fun done d₁ ⟨hdone, reg₁, inh₁, count₁, shape₁⟩ => ?_
    rw [if_pos hdone]
    refine (ih reg₁ (by omega) (by omega)).mono fun _ d₂ ⟨hdone₂, reg₂, inh₂, count₂⟩ =>
      ⟨hdone₂, reg₂, (inh₁.trans inh₂ reg₁.wf reg₁.kind).congr fun c hc => ?_, by omega⟩
    obtain ⟨g, hg, r, hs⟩ := mem_tableCells.1 hc
    exact inColumns_succ (reg.wf.width_pos (reg.kind_group hg) hs) fun fills =>
      shape₁ c (inh₁.mem_of_keep hc (by simpa using fills))

/-! ## Deleting columns of any table -/

omit [Length L] in
/-- The grid check fails unless the table can be tiled. -/
theorem ends_place_checkGrid {α : Type} {f : Action L α} {Q : α → Document L → Prop}
    (wf : d.WellFormed) (ht : d.kind? t = some .table)
    (spans : ∀ c ∈ d.tableCells t, ∀ props, d.cell? c = some props →
      1 ≤ props.columnSpan ∧ 1 ≤ props.rowSpan)
    (rest : ∀ n s, d.Tileable t n s →
      Ends (do let _ ← place t; checkGrid t; f) d Q fun _ _ => True) :
    Ends (do let _ ← place t; checkGrid t; f) d Q fun _ _ => True := by
  have same := wf.sameTree_placed t
  have ht' := (same.kind t).trans ht
  cases fault : (d.placed t).gridFault? t with
  | none =>
    have tiled := ((same.wellFormed wf).gridFault?_eq_none_iff ht' (wf.settled_placed ht)).1 fault
    obtain ⟨s, hs⟩ := wf.exists_columns t
    obtain ⟨width, height, -⟩ := wf.shape_placed ht hs
    refine rest ((d.placed t).columnCount t) (d.placed t).shape.start ⟨wf, ht, fun g hg => ?_, spans⟩
    have tiling := tiled g ((same.children t).symm ▸ hg)
    rw [same.rowsOf] at tiling
    -- As an opaque record the shape is the one that its parts make up.
    generalize (d.placed t).shape = σ at tiling width height ⊢
    rwa [← width, ← height]
  | some problem =>
    refine Ensures.ends_bind ((ensures_place wf ht).2 ?_)
    generalize d.placed t = s at *
    rw [ends_bind, checkGrid, ends_bind, ends_get, fault]
    trivial

/-- If a column can be deleted, the table is regular and has lost no other column. -/
theorem ends_deleteColumn (steady : d.Steady t) {k : Nat} (hn : 1 < d.columnCount t)
    (hk : k < d.columnCount t) : Ends (deleteColumn t k) d (fun done d' => done = true ∧
      d'.Regular t ∧ d.columnCount t ≤ d'.columnCount t + 1) fun _ _ => True := by
  refine Ensures.ends_bind ((ensures_place_steady steady).2 ?_)
  rw [if_neg (by omega)]
  refine ends_bind.2 (ends_get.2 (Ensures.ends_bind ((ensures_narrowRows steady k).mono ?_)))
  intro _ e narrowed
  obtain ⟨groups, -, rows⟩ := narrowed.tree
  refine ends_bind.2 (ends_modify.2 ?_)
  set f : TableProps L → TableProps L := fun props => { props with columns := props.columns.eraseIdx k }
  have same : SameTree e (e.modifyTable t f) := .modifyTable e t f
  have ht₂ := (same.kind t).trans narrowed.kind
  refine ends_place_checkGrid (same.wellFormed narrowed.wf) ht₂ (fun c hc props hp => ?_)
    fun n s tile => ?_
  · rw [same.tableCells] at hc
    exact narrowed.spans hc (by simpa using hp)
  refine Ensures.ends ?_
  simp only [ensures_bind]
  refine ensures_place_checkGrid tile fun d₃ laid => ?_
  refine (ensures_correctBorders (laid.same.wellFormed tile.wf)
    ((laid.same.kind t).trans tile.kind)).mono fun _ d₄ bordered => ensures_pure.2 ?_
  have laid := laid.trans_rebordered bordered
  refine ⟨rfl, laid.regular tile, ?_⟩
  -- a full row needs as many columns as before but one
  obtain ⟨g, hg, i, full⟩ := steady.exists_full (by omega)
  have tiling := tile.tiling g (by rwa [same.children, groups])
  rw [shape_modifyTable, same.rowsOf] at tiling
  have := Tiling.le_of_full (a := ⟨d.narrowedStart k, e.shape.width, e.shape.height⟩) tiling
    ((narrowed.narrowing hg).full (steady.wf.width_pos (steady.wf.kind_group steady.kind hg)) full)
  rw [laid.columnCount tile.kind, tableWidth_of_tiling tile.tiling]
  · omega
  · rw [same.tableRows, rows]
    intro none
    rw [((steady.wf.settled_iff steady.kind).1 steady.settled).2.2, tableWidth_of_no_rows none] at hn
    omega

/-- Either all of some columns are deleted, or the grid is found malformed. -/
theorem ends_deleteColumnTimes (steady : d.Steady t) {k count : Nat} (hc : count ≠ 0)
    (hn : count < d.columnCount t) (hk : k + count ≤ d.columnCount t) :
    Ends (deleteColumnTimes t k count) d (fun done _ => done = true) fun _ _ => True := by
  obtain ⟨count, rfl⟩ := Nat.exists_eq_succ_of_ne_zero hc
  refine ends_bind.2 ((ends_deleteColumn steady (k := k) (by omega) (by omega)).mono ?_ fun _ _ => id)
  rintro done d' ⟨rfl, reg, count⟩
  rw [if_pos rfl]
  exact ((ensures_deleteColumnTimes k _ reg (by omega) (by omega)).mono fun _ _ h => h.1).ends

end Action

end RichTable
