import Mathlib
import RichTable.Proofs.Grid.Table

/-!
# Placed tables

Placing a table writes one column per cell and nothing else (`cell?_placed`). The columns depend on
the extents of the cells only, so placing a table twice is placing it once; a table on which placing
has no effect is `Settled`.
-/

namespace RichTable

/-! ## Lists of one shape -/

theorem exists_map_eq {α : Type} {l : List α} (nodup : l.Nodup) {m : List Nat} (h : m.length = l.length) :
    ∃ s : α → Nat, m = l.map s := by
  classical
  refine ⟨fun x => (m[l.idxOf x]?).getD 0, List.ext_getElem (by simpa using h) fun i hi hi' => ?_⟩
  rw [List.getElem_map, nodup.idxOf_getElem, List.getElem?_eq_getElem hi, Option.getD_some]

namespace Placement

theorem length_starts (cover : List Nat) (column : Nat) (es : List Extent) :
    (starts cover column es).length = es.length := by
  induction es generalizing column with
  | nil => rfl
  | cons e es ih => simp [starts, ih]

/-- The cells of a row are placed from left to right. -/
theorem pairwise_of_starts_eq {a : Shape} {cover : List Nat} (row : List NodeId) (column : Nat)
    (h : starts cover column (row.map a.extent) = row.map a.start) :
    (∀ c ∈ row, column ≤ a.start c) ∧
      row.Pairwise fun b c => a.start b + a.width b ≤ a.start c := by
  induction row generalizing column with
  | nil => simp
  | cons c row ih =>
    simp only [List.map_cons, starts, List.cons.injEq] at h
    obtain ⟨hc, hrow⟩ := h
    rw [hc] at hrow
    obtain ⟨hle, hpair⟩ := ih _ hrow
    have hcol : column ≤ a.start c := hc ▸ le_firstFree cover column
    refine ⟨fun b hb => ?_, List.pairwise_cons.2 ⟨hle, hpair⟩⟩
    rcases List.mem_cons.1 hb with rfl | hb
    · exact hcol
    · exact hcol.trans ((Nat.le_add_right _ _).trans (hle b hb))

theorem pairwise_of_groupStarts_eq {a : Shape} {cover : List Nat} {rows : List (List NodeId)}
    (h : groupStarts cover (rows.map (·.map a.extent)) = rows.map (·.map a.start)) :
    ∀ row ∈ rows, row.Pairwise fun b c => a.start b + a.width b ≤ a.start c := by
  induction rows generalizing cover with
  | nil => simp
  | cons row rows ih =>
    simp only [List.map_cons, groupStarts, List.cons.injEq] at h
    intro r hr
    rcases List.mem_cons.1 hr with rfl | hr
    · exact (pairwise_of_starts_eq r 0 h.1).2
    · exact ih h.2 r hr

/-- Whatever the extents are, a group gets one column per cell. -/
theorem exists_groupStarts_eq (extent : NodeId → Extent) {rows : List (List NodeId)}
    (nodup : rows.flatten.Nodup) (cover : List Nat) :
    ∃ s : NodeId → Nat, groupStarts cover (rows.map (·.map extent)) = rows.map (·.map s) := by
  classical
  induction rows generalizing cover with
  | nil => exact ⟨fun _ => 0, rfl⟩
  | cons row rows ih =>
    rw [List.flatten_cons, List.nodup_append'] at nodup
    obtain ⟨hrow, hrows, hdis⟩ := nodup
    obtain ⟨s, hs⟩ := exists_map_eq hrow (m := starts cover 0 (row.map extent))
      (by simp [length_starts])
    obtain ⟨t, ht⟩ := ih hrows (coverBelow cover (starts cover 0 (row.map extent)) (row.map extent))
    refine ⟨fun x => if x ∈ row then s x else t x, ?_⟩
    simp only [List.map_cons, groupStarts, List.cons.injEq, ht]
    refine ⟨hs.trans (List.map_congr_left fun x hx => (if_pos hx).symm),
      List.map_congr_left fun r hr => List.map_congr_left fun x hx => (if_neg fun hx' => ?_).symm⟩
    exact hdis hx' (List.mem_flatten.2 ⟨r, hr, hx⟩)

end Placement

namespace Document

open Placement

variable {L : Type} {d d' : Document L} {t : NodeId}

/-! ## Writing to many cells -/

section Many

variable {cells : List NodeId} {f : NodeId → CellProps L → CellProps L}

theorem sameTree_foldl (cells : List NodeId) (f : NodeId → CellProps L → CellProps L)
    (d : Document L) : SameTree d (cells.foldl (fun d c => d.modifyCell c (f c)) d) := by
  induction cells generalizing d with
  | nil => exact .refl d
  | cons c cells ih => exact (SameTree.modifyCell d c (f c)).trans (ih _)

theorem table?_foldl (x : NodeId) :
    (cells.foldl (fun d c => d.modifyCell c (f c)) d).table? x = d.table? x := by
  induction cells generalizing d with
  | nil => rfl
  | cons c cells ih => rw [List.foldl_cons, ih, table?_modifyCell]

theorem cell?_foldl (nodup : cells.Nodup) (x : NodeId) :
    (cells.foldl (fun d c => d.modifyCell c (f c)) d).cell? x =
      (d.cell? x).map fun props => if x ∈ cells then f x props else props := by
  induction cells generalizing d with
  | nil => simp
  | cons c cells ih =>
    obtain ⟨hc, nodup⟩ := List.nodup_cons.1 nodup
    rw [List.foldl_cons, ih nodup, cell?_modifyCell]
    rcases eq_or_ne x c with rfl | hne
    · cases d.cell? x <;> simp [hc]
    · simp [hne]

end Many

/-! ## What placing writes -/

/-- The columns `s` are those that the cells of a table are placed at. -/
def Columns (d : Document L) (t : NodeId) (s : NodeId → Nat) : Prop :=
  ∀ g ∈ d.children t, groupStarts [] ((d.rowsOf g).map (·.map d.extent)) = (d.rowsOf g).map (·.map s)

theorem WellFormed.exists_columns (wf : d.WellFormed) (t : NodeId) : ∃ s, d.Columns t s := by
  choose f hf using fun g => exists_groupStarts_eq d.extent (wf.nodup_rowsOf g) []
  refine ⟨fun c => f (((d.parent? c).bind d.parent?).getD 0) c, fun g _ => (hf g).trans ?_⟩
  refine List.map_congr_left fun row hrow => List.map_congr_left fun c hc => ?_
  obtain ⟨r, hr, rfl⟩ := List.mem_map.1 hrow
  simp [wf.mem_children.1 hc, wf.mem_children.1 hr]

theorem Columns.congr {s s' : NodeId → Nat} (h : d.Columns t s)
    (e : ∀ c ∈ d.tableCells t, s' c = s c) : d.Columns t s' := by
  refine fun g hg => (h g hg).trans ?_
  refine List.map_congr_left fun row hrow => List.map_congr_left fun c hc => (e c ?_).symm
  obtain ⟨r, hr⟩ := List.getElem?_of_mem hrow
  exact mem_tableCells.2 ⟨g, hg, r, row, hr, hc⟩

theorem Columns.unique {s s' : NodeId → Nat} (h : d.Columns t s) (h' : d.Columns t s') :
    ∀ c ∈ d.tableCells t, s' c = s c := by
  intro c hc
  obtain ⟨g, hg, r, row, hr, hc⟩ := mem_tableCells.1 hc
  have rows := (h' g hg).symm.trans (h g hg)
  exact List.map_inj_left.1 (List.map_inj_left.1 rows row (List.mem_of_getElem? hr)) c hc

theorem placement_eq {s : NodeId → Nat} (h : d.Columns t s) :
    d.placement t = (d.tableCells t).map fun c => (c, s c) := by
  have columns : (d.extents t).map (groupStarts []) = (d.cellGrid t).map (·.map (·.map s)) := by
    simp only [extents, cellGrid, List.map_map]
    exact List.map_congr_left fun g hg => h g hg
  have flat : ((d.cellGrid t).map (·.map (·.map s))).flatten.flatten = (d.tableCells t).map s := by
    rw [← flatten_cellGrid, ← List.map_flatten, ← List.map_flatten]
  rw [placement, columns, flat, flatten_cellGrid]
  conv_lhs => rw [← List.map_id (d.tableCells t)]
  rw [List.map_map, List.zip_map']
  rfl

theorem placed_eq {s : NodeId → Nat} (h : d.Columns t s) :
    d.placed t = ((d.tableCells t).foldl (fun d c =>
      d.modifyCell c fun props => { props with columnIndex := some (s c) }) d).modifyTable t
        fun props => { props with columnCount := tableWidth (d.extents t) } := by
  rw [placed, placement_eq h, writeColumns, List.foldl_map]

theorem WellFormed.sameTree_placed (wf : d.WellFormed) (t : NodeId) :
    SameTree d (d.placed t) := by
  obtain ⟨s, hs⟩ := wf.exists_columns t
  rw [placed_eq hs]
  exact (sameTree_foldl _ _ d).trans (.modifyTable _ _ _)

theorem WellFormed.cell?_placed (wf : d.WellFormed) {s : NodeId → Nat} (h : d.Columns t s)
    (x : NodeId) : (d.placed t).cell? x = (d.cell? x).map fun props =>
      if x ∈ d.tableCells t then { props with columnIndex := some (s x) } else props := by
  rw [placed_eq h, cell?_modifyTable, cell?_foldl (wf.nodup_tableCells t)]

theorem WellFormed.table?_placed (wf : d.WellFormed) (x : NodeId) :
    (d.placed t).table? x = (d.table? x).map fun props =>
      if x = t then { props with columnCount := tableWidth (d.extents t) } else props := by
  obtain ⟨s, hs⟩ := wf.exists_columns t
  rw [placed_eq hs, table?_modifyTable, table?_foldl]

/-! ## Settled tables -/

theorem ext_of_sameTree (h : SameTree d d') (cell : ∀ x, d'.cell? x = d.cell? x)
    (table : ∀ x, d'.table? x = d.table? x) : d' = d := by
  have payload : ∀ x, d'.payload? x = d.payload? x := fun x => by
    have hk := h.kind x
    have ht := h.text x
    have hc := cell x
    have hb := table x
    simp only [kind?, text?, cell?, table?] at hk ht hc hb
    generalize d'.payload? x = p at hk ht hc hb ⊢
    generalize d.payload? x = q at hk ht hc hb ⊢
    rcases p with _ | p <;> rcases q with _ | q
    · rfl
    · cases hk
    · cases hk
    · cases p <;> cases q <;> simp_all [Payload.kind]
  have node : ∀ x, d'.node? x = d.node? x := fun x => by
    have hp := payload x
    have hu := h.parent x
    have hc := h.children x
    have hl := h.contentLength x
    simp only [payload?, parent?, Document.children, Document.contentLength] at hp hu hc hl
    generalize d'.node? x = m at hp hu hc hl ⊢
    generalize d.node? x = n at hp hu hc hl ⊢
    rcases m with _ | ⟨p, u, c, l⟩ <;> rcases n with _ | ⟨p', u', c', l'⟩ <;> simp_all
  cases d
  cases d'
  simp only [Document.mk.injEq]
  exact Array.ext_getElem? node

/-- Placing the table has no effect. -/
def Settled (d : Document L) (t : NodeId) : Prop := d.placed t = d

theorem WellFormed.settled_iff (wf : d.WellFormed) (ht : d.kind? t = some .table) :
    d.Settled t ↔ (∀ c ∈ d.tableCells t, (d.columnIndex? c).isSome) ∧ d.Columns t d.shape.start ∧
      d.columnCount t = tableWidth (d.extents t) := by
  obtain ⟨props, hp⟩ := exists_table? ht
  have kind : ∀ c ∈ d.tableCells t, d.kind? c = some .cell := fun c hc => by
    obtain ⟨g, hg, r, hs⟩ := mem_tableCells.1 hc
    exact wf.kind_stored (wf.kind_group ht hg) hs
  constructor
  · intro h
    obtain ⟨s, hs⟩ := wf.exists_columns t
    have written : ∀ c ∈ d.tableCells t, d.columnIndex? c = some (s c) := fun c hc => by
      obtain ⟨p, hc'⟩ := exists_cell? (kind c hc)
      have e := wf.cell?_placed hs c
      rw [h, hc', Option.map_some, if_pos hc, Option.some.injEq] at e
      rw [columnIndex?, hc', Option.bind_some, e]
    refine ⟨fun c hc => by simp [written c hc], hs.congr fun c hc => by simp [shape, written c hc], ?_⟩
    have e := wf.table?_placed (t := t) t
    rw [h, hp, Option.map_some, if_pos rfl, Option.some.injEq] at e
    rw [columnCount, hp, Option.map_some, Option.getD_some, e]
  · rintro ⟨placed, columns, count⟩
    refine ext_of_sameTree (wf.sameTree_placed t) (fun x => ?_) fun x => ?_
    · rw [wf.cell?_placed columns]
      cases hx : d.cell? x with
      | none => rfl
      | some p =>
        rw [Option.map_some]
        split
        · next hmem =>
          obtain ⟨j, hj⟩ := Option.isSome_iff_exists.1 (placed x hmem)
          have : p.columnIndex = some j := by simpa [columnIndex?, hx] using hj
          rw [start_eq hj, ← this]
        · rfl
    · rw [wf.table?_placed]
      cases hx : d.table? x with
      | none => rfl
      | some p =>
        rw [Option.map_some]
        split
        · next e =>
          subst e
          simp only [columnCount, hx, Option.map_some, Option.getD_some] at count
          simp [← count]
        · rfl

section Alike

variable (h : SameTree d d')

include h

theorem SameTree.rowsOf (g : NodeId) : d'.rowsOf g = d.rowsOf g := by
  simp [Document.rowsOf, h.children, funext h.children]

theorem SameTree.tableRows (t : NodeId) : d'.tableRows t = d.tableRows t := by
  simp [Document.tableRows, h.children, funext h.children]

theorem SameTree.tableCells (t : NodeId) : d'.tableCells t = d.tableCells t := by
  simp [Document.tableCells, h.tableRows, funext h.children]

theorem SameTree.extents (e : ∀ c ∈ d.tableCells t, d'.extent c = d.extent c) :
    d'.extents t = d.extents t := by
  simp only [Document.extents, cellGrid, List.map_map, h.children]
  refine List.map_congr_left fun g hg => ?_
  simp only [Function.comp_def, List.map_map]
  rw [funext h.children]
  refine List.map_congr_left fun row hr => List.map_congr_left fun c hc => e c ?_
  exact List.mem_flatMap.2 ⟨row, List.mem_flatMap.2 ⟨g, hg, hr⟩, hc⟩

theorem SameTree.columns {s : NodeId → Nat} (e : ∀ c ∈ d.tableCells t, d'.extent c = d.extent c)
    (hs : d.Columns t s) : d'.Columns t s := by
  intro g hg
  rw [h.children] at hg
  rw [h.rowsOf, ← hs g hg]
  refine congrArg _ (List.map_congr_left fun row hrow => List.map_congr_left fun c hc => e c ?_)
  obtain ⟨r, hr⟩ := List.getElem?_of_mem hrow
  exact mem_tableCells.2 ⟨g, hg, r, row, hr, hc⟩

end Alike

theorem WellFormed.extent_placed (wf : d.WellFormed) (t c : NodeId) :
    (d.placed t).extent c = d.extent c := by
  obtain ⟨s, hs⟩ := wf.exists_columns t
  rw [extent, extent, wf.cell?_placed hs]
  cases d.cell? c with
  | none => rfl
  | some props =>
    simp only [Option.map_some, Option.getD_some]
    split <;> rfl

theorem WellFormed.columnIndex?_placed (wf : d.WellFormed) (ht : d.kind? t = some .table)
    {s : NodeId → Nat} (hs : d.Columns t s) {c : NodeId} (hc : c ∈ d.tableCells t) :
    (d.placed t).columnIndex? c = some (s c) := by
  obtain ⟨g, hg, r, hst⟩ := mem_tableCells.1 hc
  obtain ⟨props, hp⟩ := exists_cell? (wf.kind_stored (wf.kind_group ht hg) hst)
  simp [columnIndex?, wf.cell?_placed hs, hp, hc]

theorem WellFormed.columnCount_placed (wf : d.WellFormed) (ht : d.kind? t = some .table) :
    (d.placed t).columnCount t = tableWidth (d.extents t) := by
  obtain ⟨props, hp⟩ := exists_table? ht
  simp [columnCount, wf.table?_placed, hp]

theorem WellFormed.settled_placed (wf : d.WellFormed) (ht : d.kind? t = some .table) :
    (d.placed t).Settled t := by
  have same := wf.sameTree_placed t
  obtain ⟨s, hs⟩ := wf.exists_columns t
  have written := fun {c} => wf.columnIndex?_placed ht hs (c := c)
  have extents := same.extents (t := t) fun c _ => wf.extent_placed t c
  refine ((same.wellFormed wf).settled_iff (same.kind t ▸ ht)).2 ⟨fun c hc => ?_, ?_, ?_⟩
  · rw [written (same.tableCells t ▸ hc)]
    rfl
  · refine (same.columns (fun c _ => wf.extent_placed t c) hs).congr fun c hc => ?_
    simp [shape, written (same.tableCells t ▸ hc)]
  · rw [wf.columnCount_placed ht, extents]

end Document

end RichTable
