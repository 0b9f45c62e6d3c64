import Mathlib
import RichTable.Proofs.Edit.Absorb
import RichTable.Proofs.Edit.Clamp
import RichTable.Proofs.Grid.Merging
import RichTable.Proofs.Grid.Rect
import RichTable.Proofs.Selection.Cells

/-!
# Merging cells

After the content has moved, the rows below the top one are cleared from the bottom up. `Clearing` is
the invariant of this loop. It speaks of the cells that stay, as if the merged ones were gone already
and the surviving cell had the height that is left of the rectangle: these cells tile the group, at
the start by `Tiling.Merging` and after every deleted row by `Tiling.RowRemoval`. When the merged
cells are gone, this is the tiling of the table.
-/

namespace RichTable

theorem flatten_eraseIdx_nil {α : Type} {l : List (List α)} {i : Nat} (h : l[i]? = some []) :
    (l.eraseIdx i).flatten = l.flatten := by
  obtain ⟨hi, hget⟩ := List.getElem?_eq_some_iff.1 h
  conv_rhs => rw [← List.take_append_drop i l, List.drop_eq_getElem_cons hi, hget]
  rw [List.eraseIdx_eq_take_drop_succ]
  simp

/-- The properties of a merged cell before rows are deleted. -/
def CellRect.widen {L : Type} (rect : CellRect) (props : CellProps L) : CellProps L :=
  { props with
    rowSpan := rect.bottom - rect.top + 1
    columnSpan := rect.right - rect.left + 1 }

namespace Document

open Tiling

variable {L : Type} {d d' e e' : Document L} {C P : NodeId → Prop} {t g v : NodeId} {n : Nat}
  {s : NodeId → Nat} {rect : CellRect} {cells : List NodeId}

/-- Without new nodes, what had a parent in `C` has none outside. -/
theorem Frame.parent_mem (frame : Frame C P d e) (wf : d.WellFormed) (wfe : e.WellFormed)
    (size : e.size = d.size) {c p q : NodeId} (hp : d.parent? c = some p) (hC : C p)
    (hq : e.parent? c = some q) : C q := by
  by_contra hn
  have hmem := wfe.mem_children.2 hq
  rw [frame.children q (size ▸ wfe.lt_size_parent hq) hn] at hmem
  exact hn (wf.parent_unique hmem (wf.mem_children.2 hp) ▸ hC)

/-- Cells of one table are not inside one another. -/
theorem WellFormed.separate_tableCells (wf : d.WellFormed) (t : NodeId) :
    d.Separate (· ∈ d.tableCells t) := fun _ _ hx hy h =>
  wf.eq_of_depth_eq h (wf.self_mem_ancestors (lt_size_of_ancestor h))
    ((wf.depth_tableCells hx).trans (wf.depth_tableCells hy).symm)

/-- Whether a cell is left over when `cells` are merged into `v`. -/
def keeps (v : NodeId) (cells : List NodeId) (c : NodeId) : Bool := c == v || !cells.contains c

theorem keeps_iff {c : NodeId} : keeps v cells c ↔ c = v ∨ c ∉ cells := by
  simp [keeps]

/-- The rows of a group without the cells that are merged into another. -/
def keptRows (d : Document L) (g v : NodeId) (cells : List NodeId) : List (List NodeId) :=
  (d.rowsOf g).map (·.filter (keeps v cells))

theorem stored_keptRows {i : Nat} {c : NodeId} :
    Stored (d.keptRows g v cells) i c ↔ Stored (d.rowsOf g) i c ∧ keeps v cells c :=
  stored_map_filter

theorem flatten_keptRows :
    (d.keptRows g v cells).flatten = (d.rowsOf g).flatten.filter (keeps v cells) := by
  rw [keptRows, List.filter_flatten]

/-- The rows of a rectangle below row `i` that store merged cells only. -/
def emptied (d : Document L) (g : NodeId) (rect : CellRect) (cells : List NodeId) (i : Nat) :
    List NodeId :=
  (((d.children g).take (rect.bottom + 1)).drop (i + 1)).filter fun row =>
    ∀ c ∈ d.children row, c ∈ cells

theorem emptied_bottom : d.emptied g rect cells rect.bottom = [] := by
  simp [emptied]

theorem emptied_eq {i : Nat} {row : NodeId} (hrow : (d.children g)[i + 1]? = some row)
    (hi : i + 1 ≤ rect.bottom) : d.emptied g rect cells i =
      if ∀ c ∈ d.children row, c ∈ cells then row :: d.emptied g rect cells (i + 1)
      else d.emptied g rect cells (i + 1) := by
  obtain ⟨hlt, rfl⟩ := List.getElem?_eq_some_iff.1 hrow
  have split : ((d.children g).take (rect.bottom + 1)).drop (i + 1) =
      (d.children g)[i + 1] :: ((d.children g).take (rect.bottom + 1)).drop (i + 2) := by
    rw [List.drop_eq_getElem_cons (by rw [List.length_take]; omega), List.getElem_take]
  rw [emptied, split, List.filter_cons]
  simp [emptied]

/-- Cells in columns `s`, with one of height `h`. -/
def tallShape (d : Document L) (s : NodeId → Nat) (v : NodeId) (h : Nat) : Shape :=
  ⟨s, d.shape.width, fun c => if c = v then h else d.shape.height c⟩

/-! ## Deleting a row of merged cells -/

/-- The cells that lose a row with a deleted one. -/
def shortened (e : Document L) (v : NodeId) (cells : List NodeId) (row : NodeId) : List NodeId :=
  (e.spannedCells row).filter fun c => !(cells.contains c || c == v)

theorem WellFormed.mem_shortened (wf : e.WellFormed) (hg : e.kind? g = some .rowGroup) {i : Nat}
    {row c : NodeId} (hrow : (e.children g)[i]? = some row) : c ∈ e.shortened v cells row ↔
      c ∉ cells ∧ c ≠ v ∧ ∃ r < i, Stored (e.rowsOf g) r c ∧ i < r + e.shape.height c := by
  rw [shortened, List.mem_filter, wf.mem_spannedCells hg hrow]
  simp only [Bool.not_eq_true', Bool.or_eq_false_iff, List.contains_eq_mem, decide_eq_false_iff_not,
    beq_eq_false_iff_ne, ne_eq]
  tauto

/-- `e'` is `e` without a row, and some cells are shorter by one. -/
structure RowDropped (e e' : Document L) (row : NodeId) (short : List NodeId) : Prop where
  wf : e'.WellFormed
  size : e'.size = e.size
  kind : ∀ x, e'.kind? x = e.kind? x
  text : ∀ x, e'.text? x = e.text? x
  table : ∀ x, e'.table? x = e.table? x
  cell : ∀ c, e'.cell? c = (e.cell? c).map fun props =>
    if c ∈ short then { props with rowSpan := max (props.rowSpan - 1) 1 } else props
  children : ∀ x, e'.children x = (e.children x).filter (· != row)
  parent : ∀ x, e'.parent? x = if x = row then none else e.parent? x

theorem WellFormed.rowDropped (wf : e.WellFormed) (row : NodeId) {short : List NodeId}
    (nodup : short.Nodup) : RowDropped e ((short.foldl (fun e c => e.modifyCell c fun props =>
      { props with rowSpan := max (props.rowSpan - 1) 1 }) e).detach row) row short := by
  have tree := sameTree_foldl short
    (fun _ (props : CellProps L) => { props with rowSpan := max (props.rowSpan - 1) 1 }) e
  have wf₁ := tree.wellFormed wf
  refine ⟨wf₁.detach row, by simp [tree.size], by simp [tree.kind], by simp [tree.text], fun x => ?_,
    fun c => ?_, fun x => ?_, fun x => ?_⟩
  · rw [table?_detach]
    exact table?_foldl x
  · rw [cell?_detach]
    exact cell?_foldl nodup c
  · rw [wf₁.children_detach, tree.children]
  · rw [parent?_detach, tree.parent]

namespace RowDropped

variable {row : NodeId} {short : List NodeId}

theorem children_other (h : RowDropped e e' row short) (wf : e.WellFormed)
    (hr : row ∈ e.children g) {x : NodeId} (hx : x ≠ g) : e'.children x = e.children x := by
  rw [h.children, List.filter_eq_self]
  intro y hy
  simp only [bne_iff_ne]
  rintro rfl
  exact hx (wf.parent_unique hy hr)

theorem children_parent (h : RowDropped e e' row short) (wf : e.WellFormed) {i : Nat}
    (hr : (e.children g)[i]? = some row) : e'.children g = (e.children g).eraseIdx i := by
  obtain ⟨hlt, hget⟩ := List.getElem?_eq_some_iff.1 hr
  rw [h.children, ← (wf.nodup g).erase_eq_filter, ← hget, (wf.nodup g).erase_getElem]

theorem rowsOf (h : RowDropped e e' row short) (wf : e.WellFormed) (hg : e.kind? g = some .rowGroup)
    {i : Nat} (hr : (e.children g)[i]? = some row) : e'.rowsOf g = (e.rowsOf g).eraseIdx i := by
  rw [Document.rowsOf, Document.rowsOf, h.children_parent wf hr, List.eraseIdx_map]
  refine List.map_congr_left fun x hx => h.children_other wf (List.mem_of_getElem? hr) ?_
  rintro rfl
  have := wf.kind_row hg (List.mem_of_mem_eraseIdx hx)
  rw [hg] at this
  cases this

theorem shape (h : RowDropped e e' row short) {c : NodeId} (hk : e.kind? c = some .cell) :
    e'.shape.width c = e.shape.width c ∧
      e'.shape.height c = if c ∈ short then max (e.shape.height c - 1) 1 else e.shape.height c := by
  obtain ⟨p, hp⟩ := exists_cell? hk
  have hc := h.cell c
  rw [hp, Option.map_some] at hc
  simp only [Document.shape, extent_eq hp, extent_eq hc]
  split_ifs with hmem
  · refine ⟨rfl, ?_⟩
    simp only [CellProps.extent, CellProps.height]
    omega
  · exact ⟨rfl, rfl⟩

theorem frame (h : RowDropped e e' row short) (wf : e.WellFormed) (hP : ∀ c ∈ short, P c)
    (hC : C g) (hr : row ∈ e.children g) : Frame C P e e' where
  size := h.size.ge
  kind x _ := h.kind x
  text x _ := h.text x
  table x _ _ := h.table x
  children x _ hx := h.children_other wf hr fun e => hx (e ▸ hC)
  cell x _ hx := by
    have hs : x ∉ short := fun hs => hx (hP x hs)
    rw [h.cell]
    simp [hs]
  parent x _ hx := by
    rw [h.parent, if_neg]
    rintro rfl
    exact hx g (wf.mem_children.1 hr) hC

end RowDropped

/-! ## The loop over the rows -/

/-- The row group of a merge, with the surviving cell in the top row of the rectangle. -/
structure Corner (d : Document L) (g v : NodeId) (rect : CellRect) : Prop where
  wf : d.WellFormed
  group : d.kind? g = some .rowGroup
  stored : Stored (d.rowsOf g) rect.top v
  range : rect.top ≤ rect.bottom ∧ rect.bottom < (d.rowsOf g).length

/-- The survivor is in no row below. -/
theorem Corner.not_mem_row (corner : Corner d g v rect) {i : Nat} (hi : rect.top < i) {row : NodeId}
    (hrow : (d.children g)[i]? = some row) : v ∉ d.children row := fun hv =>
  hi.ne (corner.stored.row_unique (corner.wf.nodup_rowsOf g) (stored_rowsOf.2 ⟨row, hrow, hv⟩))

/-- Going from `d` to `e`, rows `i + 1` to `rect.bottom` have been cleared and `k` of them deleted. -/
structure Clearing (n : Nat) (s : NodeId → Nat) (d e : Document L) (g v : NodeId) (rect : CellRect)
    (cells : List NodeId) (i k : Nat) : Prop where
  wf : e.WellFormed
  size : e.size = d.size
  frame : Frame (fun x => x = g ∨ x ∈ d.children g) (· ∈ (d.rowsOf g).flatten) d e
  table : ∀ x, e.table? x = d.table? x
  removed : i + k ≤ rect.bottom
  length : (e.children g).length + k = (d.children g).length
  above : (e.children g).take (i + 1) = (d.children g).take (i + 1)
  rows : ∀ row ∈ (d.children g).take (i + 1), e.children row = d.children row
  survivor : e.cell? v = d.cell? v
  whole : k = 0 → ∀ c, e.cell? c = d.cell? c
  spans : ∀ c ∈ (d.rowsOf g).flatten, ∀ props, e.cell? c = some props →
    1 ≤ props.columnSpan ∧ 1 ≤ props.rowSpan
  kept : (e.keptRows g v cells).flatten = (d.keptRows g v cells).flatten
  tiling : Tiling n (e.tallShape s v (rect.bottom + 1 - rect.top - k)) (e.keptRows g v cells)
  left : e.children g = (d.children g).filter (· ∉ d.emptied g rect cells i)
  covers : ∀ {p q j row c}, (e.children g)[p]? = some row → (d.children g)[q]? = some row →
    ((e.tallShape s v (rect.bottom + 1 - rect.top - k)).Covers (e.keptRows g v cells) p j c ↔
      (d.tallShape s v (rect.bottom + 1 - rect.top)).Covers (d.keptRows g v cells) q j c)

namespace Clearing

variable {i k : Nat}

theorem kind_eq (h : Clearing n s d e g v rect cells i k) {x : NodeId} {k' : Kind}
    (hx : d.kind? x = some k') : e.kind? x = some k' :=
  (h.frame.kind x (lt_size_of_kind? hx)).trans hx

/-- The rows still to be cleared are where they were. -/
theorem row_eq (h : Clearing n s d e g v rect cells i k) {j : Nat} (hj : j ≤ i) :
    (e.children g)[j]? = (d.children g)[j]? := by
  have := congrArg (·[j]?) h.above
  simpa [List.getElem?_take, Nat.lt_succ_of_le hj] using this

theorem stored_iff (h : Clearing n s d e g v rect cells i k) {j : Nat} (hj : j ≤ i) {c : NodeId} :
    Stored (e.rowsOf g) j c ↔ Stored (d.rowsOf g) j c := by
  rw [stored_rowsOf, stored_rowsOf, h.row_eq hj]
  refine exists_congr fun row => and_congr_right fun hrow => ?_
  rw [h.rows row (List.mem_of_getElem? (i := j) ?_)]
  rw [List.getElem?_take, if_pos (Nat.lt_succ_of_le hj), hrow]

/-- Clearing a row that stays does not touch the cells that stay. -/
theorem keep (h : Clearing n s d e g v rect cells (i + 1) k) (corner : Corner d g v rect)
    (hi : rect.top ≤ i) {row : NodeId} (hrow : (d.children g)[i + 1]? = some row)
    (stays : ¬ ∀ c ∈ d.children row, c ∈ cells)
    (detached : Detached e e' ((e.children row).filter cells.contains)) :
    Clearing n s d e' g v rect cells i k := by
  have hrowe : (e.children g)[i + 1]? = some row := (h.row_eq le_rfl).trans hrow
  have hrk := h.wf.kind_row (h.kind_eq corner.group) (List.mem_of_getElem? hrowe)
  have same : ∀ {x}, x ≠ row → e'.children x = e.children x := fun {x} hx => by
    rw [detached.children, List.filter_eq_self]
    intro y hy
    have hyr : y ∉ e.children row := fun hyr => hx (h.wf.parent_unique hy hyr)
    simp [hyr]
  have hgr : g ≠ row := by
    rintro rfl
    rw [h.kind_eq corner.group] at hrk
    cases hrk
  have hd : e.children row = d.children row :=
    h.rows row (List.mem_of_getElem? (i := i + 1) (by rw [List.getElem?_take]; simpa using hrow))
  have kept : e'.keptRows g v cells = e.keptRows g v cells := by
    rw [keptRows, keptRows, rowsOf, rowsOf, same hgr, List.map_map, List.map_map]
    refine List.map_congr_left fun x hx => ?_
    rw [Function.comp_apply, Function.comp_apply, detached.children, List.filter_filter]
    refine List.filter_congr fun y _ => ?_
    by_cases hy : y ∈ (e.children row).filter cells.contains
    · obtain ⟨hyr, hyc⟩ := List.mem_filter.1 hy
      have hyv : y ≠ v := fun e => corner.not_mem_row (by omega) hrow (e ▸ hd ▸ hyr)
      have : keeps v cells y = false := by simpa [keeps, hyv] using hyc
      simp [this]
    · simp [hy]
  have shape : e'.shape = e.shape := by
    unfold Document.shape columnIndex? extent
    simp only [detached.cell]
  refine ⟨detached.wf, detached.size.trans h.size, ?_, fun x => (detached.table x).trans (h.table x),
    by have := h.removed; omega, by rw [same hgr]; exact h.length, ?_, fun x hx => ?_,
    (detached.cell v).trans h.survivor, fun hk c => (detached.cell c).trans (h.whole hk c),
    fun c hc props hp => h.spans c hc props (detached.cell c ▸ hp),
    by rw [kept, h.kept], ?_, ?_, fun {p q j x c} hp hq => ?_⟩
  · refine h.frame.trans (detached.frame h.wf fun x hx p hp => .inr ?_)
    rw [h.wf.parent_unique (h.wf.mem_children.2 hp) (List.mem_filter.1 hx).1]
    exact List.mem_of_getElem? hrow
  · have := congrArg (List.take (i + 1)) h.above
    rw [same hgr]
    simpa [List.take_take] using this
  · obtain ⟨j, hj⟩ := List.getElem?_of_mem hx
    rw [List.getElem?_take] at hj
    split_ifs at hj with hlt
    have hxr : x ≠ row := by
      rintro rfl
      have := corner.wf.index_unique hj hrow
      omega
    rw [same hxr, h.rows x (List.mem_of_getElem? (i := j) _)]
    rw [List.getElem?_take, if_pos (by omega), hj]
  · rw [kept, tallShape, shape]
    exact h.tiling
  · rw [same hgr, h.left, emptied_eq hrow (by have := h.removed; omega), if_neg stays]
  · rw [kept, tallShape, shape]
    exact h.covers (same hgr ▸ hp) hq

/-- Deleting a row of merged cells shortens the other cells that reach over it. -/
theorem remove (h : Clearing n s d e g v rect cells (i + 1) k) (corner : Corner d g v rect)
    (hi : rect.top ≤ i) {row : NodeId} (hrow : (d.children g)[i + 1]? = some row)
    (merged : ∀ c ∈ d.children row, c ∈ cells)
    (drop : RowDropped e e' row (e.shortened v cells row)) :
    Clearing n s d e' g v rect cells i (k + 1) := by
  have hgk := h.kind_eq corner.group
  have hrowe : (e.children g)[i + 1]? = some row := (h.row_eq le_rfl).trans hrow
  have hlt := (List.getElem?_eq_some_iff.1 hrowe).1
  have hrem := h.removed
  have erase := drop.children_parent h.wf hrowe
  have same := fun {x} => drop.children_other h.wf (List.mem_of_getElem? hrowe) (x := x)
  have inside : ∀ c ∈ e.shortened v cells row, c ∈ (d.rowsOf g).flatten := by
    intro c hc
    obtain ⟨hc, hne, r, -, hs, -⟩ := (h.wf.mem_shortened hgk hrowe).1 hc
    have hk : keeps v cells c := keeps_iff.2 (.inr hc)
    have := (stored_keptRows.2 ⟨hs, hk⟩).mem_flatten
    rw [h.kept, flatten_keptRows] at this
    exact (List.mem_filter.1 this).1
  have kept : e'.keptRows g v cells = (e.keptRows g v cells).eraseIdx (i + 1) := by
    rw [keptRows, keptRows, List.eraseIdx_map, drop.rowsOf h.wf hgk hrowe]
  have empty : (e.keptRows g v cells)[i + 1]? = some [] := by
    have hd : e.children row = d.children row :=
      h.rows row (List.mem_of_getElem? (i := i + 1) (by rw [List.getElem?_take]; simpa using hrow))
    rw [keptRows, rowsOf, List.getElem?_map, List.getElem?_map, hrowe]
    simp only [Option.map_some, Option.some.injEq, List.filter_eq_nil_iff, hd]
    intro c hc hk
    rcases keeps_iff.1 hk with rfl | hk
    · exact corner.not_mem_row (by omega) hrow hc
    · exact hk (merged c hc)
  have removal : RowRemoval (e.tallShape s v (rect.bottom + 1 - rect.top - k))
      (e'.tallShape s v (rect.bottom + 1 - rect.top - (k + 1))) (i + 1) (e.keptRows g v cells)
      (e'.keptRows g v cells) := by
    have shape := fun {r c} (hs : Stored (e.keptRows g v cells) r c) =>
      drop.shape (h.wf.kind_stored hgk (stored_keptRows.1 hs).1)
    refine ⟨empty, kept, fun _ => rfl, fun hs => (shape hs).1, fun {r c} hkept => ?_⟩
    obtain ⟨hs, hk⟩ := stored_keptRows.1 hkept
    by_cases hv : c = v
    · subst hv
      obtain rfl := hs.row_unique (h.wf.nodup_rowsOf g)
        ((h.stored_iff (by omega)).2 corner.stored)
      simp only [tallShape, if_pos]
      rw [if_pos (by omega)]
      omega
    · simp only [tallShape, if_neg hv, (shape hkept).2]
      have hshort : c ∈ e.shortened v cells row ↔ r < i + 1 ∧ i + 1 < r + e.shape.height c := by
        rw [h.wf.mem_shortened hgk hrowe]
        constructor
        · rintro ⟨-, -, r', hlt, hs', hh⟩
          obtain rfl := hs.row_unique (h.wf.nodup_rowsOf g) hs'
          exact ⟨hlt, hh⟩
        · rintro ⟨hlt, hh⟩
          exact ⟨(keeps_iff.1 hk).resolve_left hv, hv, r, hlt, hs, hh⟩
      by_cases hc : c ∈ e.shortened v cells row
      · have := hshort.1 hc
        rw [if_pos hc, if_pos this]
        omega
      · rw [if_neg hc, if_neg (mt hshort.2 hc)]
  refine ⟨drop.wf, drop.size.trans h.size, h.frame.trans ?_, fun x => (drop.table x).trans (h.table x),
    by omega, ?_, ?_, fun x hx => ?_, ?_, fun hk => absurd hk k.succ_ne_zero,
    fun c hc q hq => ?_, ?_, removal.tiling h.tiling, ?_,
    fun {p q j x c} hp hq => ?_⟩
  · exact drop.frame h.wf inside (.inl rfl) (List.mem_of_getElem? hrowe)
  · rw [erase, List.length_eraseIdx_of_lt hlt]
    have := h.length
    omega
  · have := congrArg (List.take (i + 1)) h.above
    rw [erase, List.take_eraseIdx_eq_take_of_le _ _ _ le_rfl]
    simpa [List.take_take] using this
  · have hxg : x ≠ g := by
      rintro rfl
      have := corner.wf.kind_row corner.group (List.mem_of_mem_take hx)
      rw [corner.group] at this
      cases this
    rw [same hxg, h.rows x (List.take_subset_take_left _ (by omega) hx)]
  · have hv : v ∉ e.shortened v cells row := fun hv =>
      ((h.wf.mem_shortened hgk hrowe).1 hv).2.1 rfl
    rw [drop.cell, ← h.survivor]
    simp [hv]
  · obtain ⟨p, hp, rfl⟩ := Option.map_eq_some_iff.1 ((drop.cell c).symm.trans hq)
    have := h.spans c hc p hp
    split_ifs
    · exact ⟨this.1, by dsimp only; omega⟩
    · exact this
  · rw [kept, ← h.kept]
    exact flatten_eraseIdx_nil empty
  · rw [drop.children, h.left, emptied_eq hrow (by omega), if_pos merged, List.filter_filter]
    refine List.filter_congr fun x _ => ?_
    simp [bne, beq_eq_decide]
  · rw [erase, List.getElem?_eraseIdx] at hp
    rw [removal.covers_iff h.tiling.nodup]
    split_ifs at hp ⊢
    · exact h.covers hp hq
    · exact h.covers hp hq

end Clearing

/-! ## The merged cells gone -/

/-- Going from `d` to `e`, a row group has lost the cells that are merged into another, and is tiled
again. The rows that are left show what they showed with the surviving cell in place of the merged
ones. If all rows are left, no cell has another extent. -/
structure Cleared (n : Nat) (s : NodeId → Nat) (d e : Document L) (g v : NodeId) (rect : CellRect)
    (cells : List NodeId) : Prop where
  wf : e.WellFormed
  frame : Frame (fun x => x = g ∨ x ∈ d.children g) (· ∈ (d.rowsOf g).flatten) d e
  spans : ∀ c ∈ (d.rowsOf g).flatten, ∀ props, e.cell? c = some props →
    1 ≤ props.columnSpan ∧ 1 ≤ props.rowSpan
  kept : (e.rowsOf g).flatten = (d.rowsOf g).flatten.filter (keeps v cells)
  tiling : Tiling n ⟨s, e.shape.width, e.shape.height⟩ (e.rowsOf g)
  left : e.children g = (d.children g).filter (· ∉ d.emptied g rect cells rect.top)
  upper : ∀ row ∈ (d.children g).take (rect.top + 1),
    e.children row = (d.children row).filter (keeps v cells)
  whole : e.children g = d.children g → ∀ c, e.cell? c = d.cell? c
  covers : ∀ {p q j row c}, (e.children g)[p]? = some row → (d.children g)[q]? = some row →
    ((⟨s, e.shape.width, e.shape.height⟩ : Shape).Covers (e.rowsOf g) p j c ↔
      (d.tallShape s v (rect.bottom + 1 - rect.top)).Covers (d.keptRows g v cells) q j c)

theorem Clearing.children_detached {i k : Nat} (h : Clearing n s d e g v rect cells i k)
    (corner : Corner d g v rect) (stored : ∀ c ∈ cells, c ∈ (d.rowsOf g).flatten)
    (detached : Detached e e' (cells.filter (· != v))) : e'.children g = e.children g := by
  rw [detached.children, List.filter_eq_self]
  intro row hrow
  refine decide_eq_true fun hmem => ?_
  replace hmem := (List.mem_filter.1 hmem).1
  obtain ⟨r, hs⟩ := exists_stored (stored row hmem)
  have hcell := h.kind_eq (corner.wf.kind_stored corner.group hs)
  rw [h.wf.kind_row (h.kind_eq corner.group) hrow] at hcell
  cases hcell

theorem children_detached_keeps (detached : Detached e e' (cells.filter (· != v))) (row : NodeId) :
    e'.children row = (e.children row).filter (keeps v cells) := by
  rw [detached.children]
  refine List.filter_congr fun c _ => ?_
  rw [Bool.eq_iff_iff, keeps_iff, decide_eq_true_iff, List.mem_filter, bne_iff_ne]
  tauto

/-- Once the merged cells are detached, the rows of the group are those that the invariant speaks
of. -/
theorem Clearing.rowsOf_detached {i k : Nat} (h : Clearing n s d e g v rect cells i k)
    (corner : Corner d g v rect) (stored : ∀ c ∈ cells, c ∈ (d.rowsOf g).flatten)
    (detached : Detached e e' (cells.filter (· != v))) : e'.rowsOf g = e.keptRows g v cells := by
  rw [rowsOf, keptRows, rowsOf, h.children_detached corner stored detached, List.map_map]
  exact List.map_congr_left fun row _ => children_detached_keeps detached row

/-- The cells of the rectangle are gone, and the height of the survivor is what is left of it or
reaches below the last row as before. -/
theorem Clearing.cleared {k : Nat} (h : Clearing n s d e g v rect cells rect.top k)
    (corner : Corner d g v rect) (stored : ∀ c ∈ cells, c ∈ (d.rowsOf g).flatten)
    {props : CellProps L} (hv : d.cell? v = some props)
    (hprops : props.rowSpan = rect.bottom + 1 - rect.top)
    (detached : Detached e e' (cells.filter (· != v))) {e₂ : Document L} {m : Nat}
    (hm : m = if rect.bottom + 1 < (d.children g).length then k else 0)
    (tree : SameTree e' e₂) (cell : ∀ c, e₂.cell? c = (e'.cell? c).map fun props =>
      if c = v then { props with rowSpan := props.rowSpan - m } else props)
    (table : ∀ x, e₂.table? x = e'.table? x) : Cleared n s d e₂ g v rect cells := by
  have hchildren : e₂.children g = e.children g := by
    rw [tree.children, h.children_detached corner stored detached]
  have hrows : e₂.rowsOf g = e.keptRows g v cells := by
    rw [tree.rowsOf, h.rowsOf_detached corner stored detached]
  have hcell : ∀ c, e₂.cell? c = (e.cell? c).map fun props =>
      if c = v then { props with rowSpan := props.rowSpan - m } else props := fun c => by
    rw [cell, detached.cell]
  have hrem := h.removed
  have hlen := h.length
  obtain ⟨htop, hbottom⟩ := corner.range
  rw [length_rowsOf] at hbottom
  have hve : e.cell? v = some props := h.survivor.trans hv
  have hvk : v ∈ (d.rowsOf g).flatten := corner.stored.mem_flatten
  have shape_v : e₂.shape.width v = e.shape.width v ∧
      e₂.shape.height v = rect.bottom + 1 - rect.top - m := by
    have hv₂ := hcell v
    rw [hve, Option.map_some, if_pos rfl] at hv₂
    simp only [shape, extent_eq hve, extent_eq hv₂, CellProps.extent]
    refine ⟨rfl, ?_⟩
    simp only [CellProps.height, hprops]
    split_ifs at hm <;> omega
  have shape_ne : ∀ {c}, c ≠ v → e₂.shape.width c = e.shape.width c ∧
      e₂.shape.height c = e.shape.height c := fun {c} hne => by
    have : e₂.cell? c = e.cell? c := by simp [hcell, hne]
    simp [shape, extent, this]
  have width : ∀ {r c}, Stored (e.keptRows g v cells) r c → e₂.shape.width c = e.shape.width c :=
    fun {r c} _ => by
      by_cases hcv : c = v
      · subst hcv
        exact shape_v.1
      · exact (shape_ne hcv).1
  have height : ∀ {r c i}, Stored (e.keptRows g v cells) r c → r ≤ i →
      i < (e.keptRows g v cells).length → (i < r + e₂.shape.height c ↔
        i < r + (e.tallShape s v (rect.bottom + 1 - rect.top - k)).height c) :=
    fun {r c i} hs hle hi => by
      by_cases hcv : c = v
      · subst hcv
        obtain rfl := (stored_keptRows.1 hs).1.row_unique (h.wf.nodup_rowsOf g)
          ((h.stored_iff le_rfl).2 corner.stored)
        rw [keptRows, List.length_map, length_rowsOf] at hi
        simp only [tallShape, if_pos, shape_v.2]
        split_ifs at hm <;> omega
      · simp [tallShape, hcv, (shape_ne hcv).2]
  refine ⟨tree.wellFormed detached.wf, ?_, fun c hc q hq => ?_, ?_, ?_, ?_, fun row hrow => ?_,
    fun all c => ?_, fun {p q j row c} hp hq => ?_⟩
  · refine h.frame.trans ((detached.frame h.wf fun x hx p hp => ?_).trans
      (tree.frame (fun x hx => ?_) fun x _ => table x))
    · obtain ⟨r, hs⟩ := exists_stored (stored x (List.mem_filter.1 hx).1)
      obtain ⟨row, hrow, hxr⟩ := stored_rowsOf.1 hs
      exact h.frame.parent_mem corner.wf h.wf h.size (corner.wf.mem_children.1 hxr)
        (.inr (List.mem_of_getElem? hrow)) hp
    · have hxv : x ≠ v := fun e => hx (e ▸ hvk)
      simp [cell, hxv]
  · obtain ⟨p, hp, rfl⟩ := Option.map_eq_some_iff.1 ((hcell c).symm.trans hq)
    have hspans := h.spans c hc p hp
    by_cases hcv : c = v
    · subst hcv
      obtain rfl := Option.some.inj (hve.symm.trans hp)
      simp only [if_pos]
      refine ⟨hspans.1, ?_⟩
      split_ifs at hm <;> omega
    · simpa [hcv] using hspans
  · rw [hrows, h.kept, flatten_keptRows]
  · rw [hrows]
    refine h.tiling.clip (fun _ => rfl) width (fun {r c} hs => ?_) height
    by_cases hcv : c = v
    · subst hcv
      show 0 < e₂.shape.height c
      split_ifs at hm <;> omega
    · have := h.tiling.height_pos hs
      simpa [tallShape, hcv, (shape_ne hcv).2] using this
  · rw [hchildren, h.left]
  · rw [tree.children, children_detached_keeps detached, h.rows row hrow]
  · rw [← hchildren, all] at hlen
    obtain rfl : k = 0 := by omega
    obtain rfl : m = 0 := by simpa using hm
    rw [hcell, ← h.whole rfl c]
    cases e.cell? c <;> simp
  · rw [hchildren] at hp
    have hlt : p < (e.keptRows g v cells).length := by
      rw [keptRows, List.length_map, length_rowsOf]
      exact (List.getElem?_eq_some_iff.1 hp).1
    rw [hrows, ← h.covers hp hq]
    exact covers_clip (a := e.tallShape s v _) (b := ⟨s, e₂.shape.width, e₂.shape.height⟩)
      (fun _ => rfl) width height hlt

/-! ## The whole merge -/

namespace Rectangle

variable {v : NodeId}

theorem flatten_of_mem (h : Rectangle d t g rect cells) {c : NodeId} (hc : c ∈ cells) :
    c ∈ (d.rowsOf g).flatten := by
  obtain ⟨r, hs, -⟩ := h.stored hc
  exact hs.mem_flatten

/-- The cell that stands in the corner of a rectangle is one of its cells. -/
theorem exists_corner (h : Rectangle d t g rect cells) (reg : d.Regular t) (hg : g ∈ d.children t) :
    ∃ v, ((((d.children g)[rect.top]?).map d.children).getD []).find?
      (fun c => (d.columnRange? c).any (·.first == rect.left)) = some v ∧
      Stored (d.rowsOf g) rect.top v ∧ d.shape.start v = rect.left ∧ v ∈ cells := by
  obtain ⟨htop, hbottom⟩ := h.rows
  obtain ⟨hleft, hright⟩ := h.columns
  have hgk := reg.kind_group hg
  have range : ∀ {c}, Stored (d.rowsOf g) rect.top c →
      ((d.columnRange? c).any (·.first == rect.left) = true ↔ d.shape.start c = rect.left) :=
    fun hs => by rw [reg.columnRange?_eq (mem_tableCells.2 ⟨g, hg, _, hs⟩)]; simp
  have member : ∀ {c}, Stored (d.rowsOf g) rect.top c → d.shape.start c = rect.left → c ∈ cells :=
    fun {c} hs e => by
      have := reg.wf.width_pos hgk hs
      have := reg.wf.height_pos hgk hs
      exact h.mem_iff.2 ⟨rect.top, rect.left, ⟨le_rfl, htop⟩, ⟨le_rfl, hleft⟩,
        ⟨_, hs, le_rfl, by omega⟩, e.le, by omega⟩
  obtain ⟨row, hrow⟩ : ∃ row, (d.children g)[rect.top]? = some row :=
    ⟨_, List.getElem?_eq_getElem (by rw [← length_rowsOf]; omega)⟩
  obtain ⟨c, hr, hsp⟩ := (reg.tiled g hg).covered (i := rect.top) (j := rect.left) (by omega) (by omega)
  have hc : c ∈ cells := h.mem_iff.2 ⟨_, _, ⟨le_rfl, htop⟩, ⟨le_rfl, hleft⟩, hr, hsp⟩
  obtain ⟨r, hs, h₁, -, h₂⟩ := h.stored hc
  obtain ⟨hle, -⟩ := (hs.reaches_iff (reg.wf.nodup_rowsOf g)).1 hr
  obtain rfl : r = rect.top := by omega
  have hstart : d.shape.start c = rect.left := le_antisymm hsp.1 h₂
  rw [hrow, Option.map_some, Option.getD_some]
  cases hfind : (d.children row).find? fun c => (d.columnRange? c).any (·.first == rect.left) with
  | none =>
    obtain ⟨row', hrow', hcr⟩ := stored_rowsOf.1 hs
    obtain rfl := Option.some.inj (hrow.symm.trans hrow')
    exact absurd ((range hs).2 hstart) (List.find?_eq_none.1 hfind c hcr)
  | some v =>
    have hv := stored_rowsOf.2 ⟨row, hrow, List.mem_of_find?_eq_some hfind⟩
    have hfirst := List.find?_some hfind
    have hstart := (range hv).1 hfirst
    exact ⟨v, rfl, hv, hstart, member hv hstart⟩

/-- The cell in the corner comes before the others. -/
theorem head?_eq (h : Rectangle d t g rect cells) (reg : d.Regular t) (hg : g ∈ d.children t)
    (hcand : d.mergeCandidates? t rect (d.children g) = some cells) (hv : v ∈ cells)
    (stored : Stored (d.rowsOf g) rect.top v) (corner : d.shape.start v = rect.left) :
    cells.head? = some v := by
  have hgk := reg.kind_group hg
  have order := reg.pairwise_candidates hg hcand
  cases cells with
  | nil => cases hv
  | cons c rest =>
    by_contra hne
    have hvr : v ∈ rest := (List.mem_cons.1 hv).resolve_left fun e => hne (e ▸ rfl)
    obtain ⟨r, hs, htop, -, hleft⟩ := h.stored (List.mem_cons_self (a := c))
    have before := List.rel_of_pairwise_cons order hvr
    rw [Before, reg.wf.topRow_eq hgk hs, reg.wf.topRow_eq hgk stored, corner] at before
    omega

/-- One cell in place of those of the rectangle. -/
theorem merging (h : Rectangle d t g rect cells) (hv : v ∈ cells)
    (stored : Stored (d.rowsOf g) rect.top v) (corner : d.shape.start v = rect.left) {b : Shape}
    (start : ∀ {r c}, Stored (d.rowsOf g) r c → b.start c = d.shape.start c)
    (width : ∀ {r c}, Stored (d.rowsOf g) r c →
      b.width c = if c = v then rect.right + 1 - rect.left else d.shape.width c)
    (height : ∀ {r c}, Stored (d.rowsOf g) r c →
      b.height c = if c = v then rect.bottom + 1 - rect.top else d.shape.height c) :
    Merging d.shape b rect.top rect.bottom rect.left rect.right v (keeps v cells) (d.rowsOf g)
      (d.keptRows g v cells) where
  range := ⟨h.rows.1, h.rows.2, h.columns.1⟩
  stored := stored
  corner := corner
  keep_iff {r c} hs := by
    rw [keeps_iff, h.mem_iff]
    refine or_congr_right ⟨fun hn i j h₁ h₂ h₃ h₄ hr hsp => ?_, ?_⟩
    · exact hn ⟨i, j, ⟨h₁, h₂⟩, ⟨h₃, h₄⟩, hr, hsp⟩
    · rintro hn ⟨i, j, ⟨h₁, h₂⟩, ⟨h₃, h₄⟩, hr, hsp⟩
      exact hn i j h₁ h₂ h₃ h₄ hr hsp
  inside {r c} hs hc := by
    refine h.inside ?_
    rcases hc with rfl | hc
    · exact hv
    · by_contra hn
      rw [keeps_iff.2 (.inr hn)] at hc
      cases hc
  rows_eq := rfl
  start := start
  width := width
  height := height

end Rectangle

/-- Going from `d` to `e`, the cells of a rectangle have been emptied into one of them, which now has
the size of the rectangle. -/
structure Widened (d e : Document L) (rect : CellRect) (v : NodeId) (cells : List NodeId) : Prop where
  wf : e.WellFormed
  frame : Frame (fun x => x = v ∨ x ∈ cells) (· = v) d e
  cell : e.cell? v = (d.cell? v).map rect.widen
  children : e.children v = d.absorbed v cells

theorem Absorbed.widened (h : Absorbed d e v cells) (wf : d.WellFormed) (rect : CellRect)
    (hv : v < d.size) :
    Widened d (e.modifyCell v rect.widen) rect v cells where
  wf := h.wf.modifyCell _ _
  frame := (h.frame.mono (fun _ _ => id) (fun _ _ => False.elim) wf).trans (.of_modifyCell rfl)
  cell := by rw [cell?_modifyCell, h.frame.cell v hv id]; simp
  children := by simpa using h.children

namespace Widened

variable {v : NodeId}

theorem children_eq (h : Widened d e rect v cells) (hv : v ∈ cells)
    (cell : ∀ c ∈ cells, d.kind? c = some .cell) {x : NodeId} {k : Kind} (hx : d.kind? x = some k)
    (hk : k ≠ .cell) : e.children x = d.children x := by
  have hn : x ∉ cells := fun hc => by
    rw [cell x hc, Option.some.injEq] at hx
    exact hk hx.symm
  refine h.frame.children x (lt_size_of_kind? hx) ?_
  rintro (rfl | hc)
  · exact hn hv
  · exact hn hc

theorem rowsOf_eq (h : Widened d e rect v cells) (hv : v ∈ cells) (wf : d.WellFormed)
    (cell : ∀ c ∈ cells, d.kind? c = some .cell) {q : NodeId} (hq : d.kind? q = some .rowGroup) :
    e.rowsOf q = d.rowsOf q := by
  rw [rowsOf, rowsOf, h.children_eq hv cell hq (by decide)]
  exact List.map_congr_left fun row hrow =>
    h.children_eq hv cell (wf.kind_row hq hrow) (by decide)

theorem shape_ne (h : Widened d e rect v cells) {c : NodeId} (hc : d.kind? c = some .cell)
    (hne : c ≠ v) : e.shape.width c = d.shape.width c ∧ e.shape.height c = d.shape.height c := by
  have : e.cell? c = d.cell? c := h.frame.cell c (lt_size_of_kind? hc) hne
  simp [shape, extent, this]

theorem shape_survivor (h : Widened d e rect v cells) (hv : d.kind? v = some .cell) :
    e.shape.width v = rect.right - rect.left + 1 ∧
      e.shape.height v = rect.bottom - rect.top + 1 := by
  obtain ⟨p, hp⟩ := exists_cell? hv
  have hc := h.cell
  rw [hp, Option.map_some] at hc
  simp only [shape, extent_eq hc, CellProps.extent, CellProps.width, CellProps.height,
    CellRect.widen]
  omega

theorem merging (h : Widened d e rect v cells) (reg : d.Regular t) (hg : g ∈ d.children t)
    (hrect : Rectangle d t g rect cells) (hv : v ∈ cells) (stored : Stored (d.rowsOf g) rect.top v)
    (corner : d.shape.start v = rect.left) :
    Merging d.shape (e.tallShape d.shape.start v (rect.bottom + 1 - rect.top)) rect.top rect.bottom
      rect.left rect.right v (keeps v cells) (d.rowsOf g) (e.keptRows g v cells) := by
  have wf := reg.wf
  have hgk := reg.kind_group hg
  have cell := hrect.kind_cells reg hg
  have hcols := hrect.columns
  rw [keptRows, h.rowsOf_eq hv wf cell hgk]
  refine hrect.merging hv stored corner (fun _ => rfl) (fun {r c} hs => ?_) fun {r c} hs => ?_
  · split_ifs with hcv
    · subst hcv
      show e.shape.width c = _
      rw [(h.shape_survivor (cell c hv)).1]
      omega
    · exact (h.shape_ne (wf.kind_stored hgk hs) hcv).1
  · simp only [tallShape]
    split_ifs with hcv
    · rfl
    · exact (h.shape_ne (wf.kind_stored hgk hs) hcv).2

/-- Where the loop over the rows starts. -/
theorem clearing (h : Widened d e rect v cells) (reg : d.Regular t) (hg : g ∈ d.children t)
    (hrect : Rectangle d t g rect cells) (hv : v ∈ cells) (stored : Stored (d.rowsOf g) rect.top v)
    (corner : d.shape.start v = rect.left) :
    Corner e g v rect ∧
      Clearing (d.columnCount t) d.shape.start e e g v rect cells rect.bottom 0 := by
  have wf := reg.wf
  have hgk := reg.kind_group hg
  have cell := hrect.kind_cells reg hg
  have hrows := h.rowsOf_eq hv wf cell hgk
  obtain ⟨htop, hbottom⟩ := hrect.rows
  refine ⟨⟨h.wf, (h.frame.kind g (lt_size_of_kind? hgk)).trans hgk, hrows ▸ stored,
    htop, hrows ▸ hbottom⟩, ⟨h.wf, rfl, .refl e, fun _ => rfl, le_rfl, rfl, rfl, fun _ _ => rfl, rfl,
    fun _ _ => rfl, fun c hc q hq => ?_, rfl, ?_, by simp [emptied_bottom], fun {p q j row c} hp hq => ?_⟩⟩
  · rw [hrows] at hc
    obtain ⟨r, hs⟩ := exists_stored hc
    have hck := wf.kind_stored hgk hs
    by_cases hcv : c = v
    · subst hcv
      obtain ⟨p, -, rfl⟩ := Option.map_eq_some_iff.1 (h.cell.symm.trans hq)
      exact ⟨Nat.le_add_left _ _, Nat.le_add_left _ _⟩
    · rw [h.frame.cell c (lt_size_of_kind? hck) hcv] at hq
      exact reg.spans c (mem_tableCells.2 ⟨g, hg, r, hs⟩) q hq
  · exact (h.merging reg hg hrect hv stored corner).tiling (reg.tiled g hg) hrect.columns.2
  · obtain rfl := h.wf.index_unique hp hq
    rfl

end Widened

namespace Cleared

variable {v : NodeId}

theorem children_other (h : Cleared n s d e g v rect cells) (wf : d.WellFormed)
    (hg : d.kind? g = some .rowGroup) {q : NodeId} (hq : d.kind? q = some .rowGroup) (hne : q ≠ g) :
    e.children q = d.children q := by
  refine h.frame.children q (lt_size_of_kind? hq) ?_
  rintro (e | hmem)
  · exact hne e
  · rw [wf.kind_row hg hmem] at hq
    cases hq

theorem rowsOf_ne (h : Cleared n s d e g v rect cells) (wf : d.WellFormed)
    (hg : d.kind? g = some .rowGroup) {q : NodeId} (hq : d.kind? q = some .rowGroup) (hne : q ≠ g) :
    e.rowsOf q = d.rowsOf q := by
  rw [rowsOf, rowsOf, h.children_other wf hg hq hne]
  refine List.map_congr_left fun row hrow => ?_
  have hrk := wf.kind_row hq hrow
  refine h.frame.children row (lt_size_of_kind? hrk) ?_
  rintro (rfl | hmem)
  · rw [hrk] at hg
    cases hg
  · exact hne (wf.parent_unique hrow hmem)

theorem children_table (h : Cleared n s d e g v rect cells) (wf : d.WellFormed)
    (ht : d.kind? t = some .table) (hg : g ∈ d.children t) : e.children t = d.children t := by
  refine h.frame.children t (lt_size_of_kind? ht) ?_
  have hgk := wf.kind_group ht hg
  rintro (rfl | hmem)
  · rw [ht] at hgk
    cases hgk
  · rw [wf.kind_row hgk hmem] at ht
    cases ht

/-- The table has lost the merged cells and nothing else. -/
theorem tableCells (h : Cleared n s d e g v rect cells) (wf : d.WellFormed)
    (ht : d.kind? t = some .table) (hg : g ∈ d.children t)
    (stored : ∀ c ∈ cells, c ∈ (d.rowsOf g).flatten) :
    e.tableCells t = (d.tableCells t).filter (keeps v cells) := by
  have hgk := wf.kind_group ht hg
  rw [tableCells_eq_flatMap, tableCells_eq_flatMap, h.children_table wf ht hg, List.filter_flatMap]
  refine List.flatMap_congr fun q hq => ?_
  by_cases hqg : q = g
  · rw [hqg, h.kept]
  · rw [h.rowsOf_ne wf hgk (wf.kind_group ht hq) hqg, eq_comm, List.filter_eq_self]
    intro c hc
    obtain ⟨r, hs⟩ := exists_stored hc
    refine keeps_iff.2 (.inr fun hmem => ?_)
    obtain ⟨i, hi⟩ := exists_stored (stored c hmem)
    exact wf.not_stored_of_ne hqg hs i hi

theorem cell?_other (h : Cleared n s d e g v rect cells) (wf : d.WellFormed) {q : NodeId} {r : Nat}
    {c : NodeId} (hq : d.kind? q = some .rowGroup) (hne : q ≠ g) (hs : Stored (d.rowsOf q) r c) :
    e.cell? c = d.cell? c := by
  refine h.frame.cell c (lt_size_of_kind? (wf.kind_stored hq hs)) fun hmem => ?_
  obtain ⟨i, hi⟩ := exists_stored hmem
  exact wf.not_stored_of_ne hne hs i hi

theorem tileable (h : Cleared n s d e g v rect cells) (wf : d.WellFormed)
    (ht : d.kind? t = some .table) (hg : g ∈ d.children t)
    (other : ∀ q ∈ d.children t, q ≠ g → Tiling n ⟨s, d.shape.width, d.shape.height⟩ (d.rowsOf q))
    (spans : ∀ c ∈ d.tableCells t, ∀ props, d.cell? c = some props →
      1 ≤ props.columnSpan ∧ 1 ≤ props.rowSpan) : e.Tileable t n s := by
  have hgk := wf.kind_group ht hg
  have cell := fun {q r c} (hq : q ∈ d.children t) => h.cell?_other wf (r := r) (c := c)
    (wf.kind_group ht hq)
  refine ⟨h.wf, (h.frame.kind t (lt_size_of_kind? ht)).trans ht, fun q hq => ?_, fun c hc p hp => ?_⟩
  · rw [h.children_table wf ht hg] at hq
    by_cases hqg : q = g
    · rw [hqg]
      exact h.tiling
    · rw [h.rowsOf_ne wf hgk (wf.kind_group ht hq) hqg]
      refine (other q hq hqg).congr (fun _ => rfl) (fun hs => ?_) fun hs => ?_ <;>
        simp [shape, extent, cell hq hqg hs]
  · obtain ⟨q, hq, r, hs⟩ := mem_tableCells.1 hc
    rw [h.children_table wf ht hg] at hq
    by_cases hqg : q = g
    · subst hqg
      have := hs.mem_flatten
      rw [h.kept] at this
      exact h.spans c (List.mem_filter.1 this).1 p hp
    · rw [h.rowsOf_ne wf hgk (wf.kind_group ht hq) hqg] at hs
      rw [cell hq hqg hs] at hp
      exact spans c (mem_tableCells.2 ⟨q, hq, r, hs⟩) p hp

end Cleared

/-- Going from `d` to `e`, cells of a table have been merged into one of them: it holds the content of
all, and the others are gone. Nothing else has happened to the content of the table. -/
structure Merged (d e : Document L) (t v : NodeId) (cells : List NodeId) : Prop where
  size : d.size ≤ e.size
  kind : ∀ x < d.size, e.kind? x = d.kind? x
  text : ∀ x < d.size, e.text? x = d.text? x
  parent : e.parent? t = d.parent? t
  survivor : cells.head? = some v
  nodup : cells.Nodup
  mem : ∀ c ∈ cells, c ∈ d.tableCells t
  children : e.children v = d.absorbed v cells
  content : ∀ x < d.size, d.kind? x = some .cell ∧ x ∉ cells ∨ d.kind? x = some .block ∨
    d.kind? x = some .inline → e.children x = d.children x
  cells : e.tableCells t = (d.tableCells t).filter (keeps v cells)

theorem Merged.trans_sameTree {e' : Document L} {v : NodeId} (h : Merged d e t v cells)
    (same : SameTree e e') : Merged d e' t v cells where
  size := same.size ▸ h.size
  kind x hx := (same.kind x).trans (h.kind x hx)
  text x hx := (same.text x).trans (h.text x hx)
  parent := (same.parent t).trans h.parent
  survivor := h.survivor
  nodup := h.nodup
  mem := h.mem
  children := (same.children v).trans h.children
  content x hx hk := (same.children x).trans (h.content x hx hk)
  cells := (same.tableCells t).trans h.cells

/-- The surviving cell is not left empty. -/
theorem Merged.hasParagraphs {v : NodeId} (h : Merged d e t v cells) (wf : d.WellFormed)
    (ht : d.kind? t = some .table) (filled : ∀ c ∈ cells, d.HasParagraphs c) :
    e.HasParagraphs v := by
  have hv := filled v (List.mem_of_head? h.survivor)
  rw [HasParagraphs, h.children]
  refine ⟨wf.absorbed_ne_nil hv.1 fun c hc => wf.kind_tableCells ht (h.mem c hc), fun b hb => ?_⟩
  have hbk : d.kind? b = some .block := by
    rcases mem_absorbed hb with hb | ⟨c, hc, hb⟩
    · exact hv.2 b hb
    · exact (filled c hc).2 b hb
  rw [h.kind b (lt_size_of_kind? hbk), hbk]

theorem Merged.filled {v : NodeId} (h : Merged d e t v cells) (wf : d.WellFormed)
    (ht : d.kind? t = some .table) (filled : d.Filled t) : e.Filled t := by
  intro c hmem
  rw [h.cells] at hmem
  obtain ⟨hc, hk⟩ := List.mem_filter.1 hmem
  have hck := wf.kind_tableCells ht hc
  by_cases hcv : c = v
  · subst hcv
    exact h.hasParagraphs wf ht fun c hc => filled c (h.mem c hc)
  · have hn := (keeps_iff.1 hk).resolve_left hcv
    rw [HasParagraphs, h.content c (lt_size_of_kind? hck) (.inl ⟨hck, hn⟩)]
    refine ⟨(filled c hc).1, fun b hb => ?_⟩
    rw [h.kind b (wf.lt_size_child hb), (filled c hc).2 b hb]

section Assembly

variable {d₁ : Document L} {v : NodeId}

theorem Widened.children_table (h : Widened d d₁ rect v cells) (reg : d.Regular t)
    (hg : g ∈ d.children t) (hrect : Rectangle d t g rect cells) (hv : v ∈ cells) :
    d₁.kind? t = some .table ∧ d₁.children t = d.children t ∧
      (∀ q ∈ d.children t, d₁.rowsOf q = d.rowsOf q) ∧ d₁.tableCells t = d.tableCells t := by
  have cell := hrect.kind_cells reg hg
  have htable := h.children_eq hv cell reg.kind (by decide)
  have hrows : ∀ q ∈ d.children t, d₁.rowsOf q = d.rowsOf q := fun q hq =>
    h.rowsOf_eq hv reg.wf cell (reg.kind_group hq)
  refine ⟨(h.frame.kind t (lt_size_of_kind? reg.kind)).trans reg.kind, htable, hrows, ?_⟩
  rw [tableCells_eq_flatMap, tableCells_eq_flatMap, htable]
  exact List.flatMap_congr fun q hq => by rw [hrows q hq]

theorem Widened.tileable (h : Widened d d₁ rect v cells) (reg : d.Regular t)
    (hg : g ∈ d.children t) (hrect : Rectangle d t g rect cells) (hv : v ∈ cells)
    (cleared : Cleared (d.columnCount t) d.shape.start d₁ e g v rect cells) :
    e.Tileable t (d.columnCount t) d.shape.start := by
  obtain ⟨ht, htable, hrows, hcells⟩ := h.children_table reg hg hrect hv
  have ne_of_stored : ∀ {q r c}, q ∈ d.children t → q ≠ g → Stored (d.rowsOf q) r c → c ≠ v := by
    rintro q r c - hne hs rfl
    obtain ⟨i, hi, -⟩ := hrect.stored hv
    exact reg.wf.not_stored_of_ne hne hs i hi
  refine cleared.tileable h.wf ht (htable ▸ hg) (fun q hq hne => ?_) fun c hc p hp => ?_
  · rw [htable] at hq
    rw [hrows q hq]
    have shape := fun {r c} (hs : Stored (d.rowsOf q) r c) => h.shape_ne
      (reg.wf.kind_stored (reg.kind_group hq) hs) (ne_of_stored hq hne hs)
    exact (reg.tiled q hq).congr (fun _ => rfl) (fun hs => (shape hs).1) fun hs => (shape hs).2
  · rw [hcells] at hc
    by_cases hcv : c = v
    · subst hcv
      obtain ⟨q, -, rfl⟩ := Option.map_eq_some_iff.1 (h.cell.symm.trans hp)
      exact ⟨Nat.le_add_left _ _, Nat.le_add_left _ _⟩
    · rw [h.frame.cell c (lt_size_of_kind? (reg.wf.kind_tableCells reg.kind hc)) hcv] at hp
      exact reg.spans c hc p hp

theorem Widened.merged (h : Widened d d₁ rect v cells) (reg : d.Regular t) (hg : g ∈ d.children t)
    (hrect : Rectangle d t g rect cells) (first : cells.head? = some v)
    (cleared : Cleared (d.columnCount t) d.shape.start d₁ e g v rect cells) : Merged d e t v cells := by
  have wf := reg.wf
  have hv := List.mem_of_head? first
  obtain ⟨ht, htable, hrows, hcells⟩ := h.children_table reg hg hrect hv
  have hgk := h.wf.kind_group ht (htable ▸ hg)
  have outer : ∀ {x k}, d₁.kind? x = some k → k ≠ .rowGroup → k ≠ .row →
      ¬ (x = g ∨ x ∈ d₁.children g) := by
    rintro x k hx hk hk' (rfl | hmem)
    · rw [hgk, Option.some.injEq] at hx
      exact hk hx.symm
    · rw [h.wf.kind_row hgk hmem, Option.some.injEq] at hx
      exact hk' hx.symm
  have mem : ∀ c ∈ cells, c ∈ d.tableCells t := fun c hc => by
    obtain ⟨r, hs, -⟩ := hrect.stored hc
    exact mem_tableCells.2 ⟨g, hg, r, hs⟩
  have kind : ∀ {x k}, d.kind? x = some k → d₁.kind? x = some k := fun hx =>
    (h.frame.kind _ (lt_size_of_kind? hx)).trans hx
  refine ⟨h.frame.size.trans cleared.frame.size, fun x hx => ?_, fun x hx => ?_, ?_, first, hrect.nodup,
    mem, ?_, fun x hx hk => ?_, ?_⟩
  · exact (cleared.frame.kind x (hx.trans_le h.frame.size)).trans (h.frame.kind x hx)
  · exact (cleared.frame.text x (hx.trans_le h.frame.size)).trans (h.frame.text x hx)
  · have parent : d₁.parent? t = d.parent? t := by
      refine h.frame.parent t (lt_size_of_kind? reg.kind) fun p hp hC => ?_
      have hp' : p ∈ cells := hC.elim (fun e => e ▸ hv) id
      have := wf.depth_tableCells (mem p hp')
      have := wf.depth_of_parent hp
      omega
    rw [cleared.frame.parent t (lt_size_of_kind? ht) fun p hp hC => ?_, parent]
    have hpt := h.wf.mem_children.2 hp
    rcases hC with rfl | hmem
    · rw [h.wf.kind_row hgk hpt] at ht
      cases ht
    · rw [h.wf.kind_cell (h.wf.kind_row hgk hmem) hpt] at ht
      cases ht
  · rw [cleared.frame.children v (h.frame.size.trans_lt' ?_) ?_, h.children]
    · exact lt_size_of_kind? (wf.kind_tableCells reg.kind (mem v hv))
    · exact outer (kind (wf.kind_tableCells reg.kind (mem v hv))) (by decide) (by decide)
  · have hC : ¬ (x = v ∨ x ∈ cells) := by
      intro hC
      have hxc : x ∈ cells := hC.elim (fun e => e ▸ hv) id
      rcases hk with ⟨-, hn⟩ | hk | hk
      · exact hn hxc
      all_goals
        rw [wf.kind_tableCells reg.kind (mem x hxc)] at hk
        cases hk
    obtain ⟨k, hxk, h₁, h₂⟩ : ∃ k, d.kind? x = some k ∧ k ≠ .rowGroup ∧ k ≠ .row := by
      rcases hk with ⟨hk, -⟩ | hk | hk <;> exact ⟨_, hk, by decide, by decide⟩
    rw [cleared.frame.children x (hx.trans_le h.frame.size) (outer (kind hxk) h₁ h₂),
      h.frame.children x hx hC]
  · rw [cleared.tableCells h.wf ht (htable ▸ hg) fun c hc => ?_, hcells]
    rw [hrows g hg]
    exact hrect.flatten_of_mem hc

/-- The stages of a merge from `d` to `d'`: the cells of the rectangle are emptied into the one in its
corner, the rows are cleared, the table is placed, and the borders of the group are corrected. -/
structure MergeStages [Length L] (d d₁ e d' : Document L) (t g : NodeId) (rect : CellRect) (v : NodeId)
    (cells : List NodeId) : Prop where
  regular : d.Regular t
  group : g ∈ d.children t
  rectangle : Rectangle d t g rect cells
  first : cells.head? = some v
  stored : Stored (d.rowsOf g) rect.top v
  corner : d.shape.start v = rect.left
  widened : Widened d d₁ rect v cells
  cleared : Cleared (d.columnCount t) d.shape.start d₁ e g v rect cells
  borders : ∃ props, (e.placed t).table? t = some props ∧ d' = (e.placed t).reborder props.cellSpacing
    ((e.placed t).tableRows t).head? ((e.placed t).rowsOf g).flatten

namespace MergeStages

variable [Length L]

theorem mem_survivor (h : MergeStages d d₁ e d' t g rect v cells) : v ∈ cells :=
  List.mem_of_head? h.first

theorem tileable (h : MergeStages d d₁ e d' t g rect v cells) :
    e.Tileable t (d.columnCount t) d.shape.start :=
  h.widened.tileable h.regular h.group h.rectangle h.mem_survivor h.cleared

theorem laid (h : MergeStages d d₁ e d' t g rect v cells) : Laid e d' t d.shape.start := by
  obtain ⟨props, -, borders⟩ := h.borders
  rw [borders]
  exact h.tileable.laid.trans_rebordered (rebordered_reborder ..)

theorem merged (h : MergeStages d d₁ e d' t g rect v cells) : Merged d d' t v cells :=
  (h.widened.merged h.regular h.group h.rectangle h.first h.cleared).trans_sameTree
    h.laid.same

end MergeStages

end Assembly

end Document

end RichTable

namespace RichTable.Action

open Document

variable {L : Type} {d e : Document L} {t g v : NodeId} {n : Nat} {s : NodeId → Nat}
  {rect : CellRect} {cells : List NodeId}

theorem ensures_clearRow {i k : Nat} (h : Clearing n s d e g v rect cells (i + 1) k)
    (corner : Corner d g v rect) (hi : rect.top ≤ i) {row : NodeId}
    (hrow : (d.children g)[i + 1]? = some row) :
    Ensures (clearRow v cells row) e fun cleared e' =>
      Clearing n s d e' g v rect cells i (k + cleared.toNat) := by
  have hgk := h.kind_eq corner.group
  have hrowe : (e.children g)[i + 1]? = some row := (h.row_eq le_rfl).trans hrow
  have hd : e.children row = d.children row :=
    h.rows row (List.mem_of_getElem? (i := i + 1) (by rw [List.getElem?_take]; simpa using hrow))
  simp only [clearRow, ensures_bind, ensures_get]
  split
  · next all =>
    have merged : ∀ c ∈ d.children row, c ∈ cells := fun c hc => by
      simpa using List.length_filter_eq_length_iff.1 all c (hd ▸ hc)
    have kind : ∀ c ∈ e.shortened v cells row, e.kind? c = some .cell := fun c hc => by
      obtain ⟨-, -, r, -, hs, -⟩ := (h.wf.mem_shortened hgk hrowe).1 hc
      exact h.wf.kind_stored hgk hs
    simp only [ensures_bind, ensures_detach, ensures_pure]
    refine (ensures_forM_updateCell kind).2 (h.remove corner hi hrow merged ?_)
    exact h.wf.rowDropped row ((h.wf.nodup_spannedCells row).filter _)
  · next some =>
    have stays : ¬ ∀ c ∈ d.children row, c ∈ cells := fun merged =>
      some (List.length_filter_eq_length_iff.2 fun c hc => by simpa using merged c (hd ▸ hc))
    simp only [ensures_bind, ensures_pure]
    exact (ensures_forM_detach h.wf _).mono fun _ e' detached =>
      h.keep corner hi hrow stays detached

/-- The rows below the top row of the rectangle are cleared from the bottom up. -/
theorem ensures_clearRows (h : Clearing n s d d g v rect cells rect.bottom 0)
    (corner : Corner d g v rect) :
    Ensures (((rect.rowsOf (d.children g)).drop 1).reverse.mapM (clearRow v cells)) d
      fun cleared e => Clearing n s d e g v rect cells rect.top (cleared.count true) := by
  obtain ⟨hle, hlt⟩ := corner.range
  rw [length_rowsOf] at hlt
  have below : ∀ i, ((d.children g).take (i + 1)).drop (rect.top + 1) = [] →
      i < (d.children g).length → i ≤ rect.top := fun i hnil hi => by
    have := List.drop_eq_nil_iff.1 hnil
    rw [List.length_take] at this
    omega
  refine (Ensures.mapM
    (I := fun rest cleared e => ∃ i, (rect.top ≤ i ∧ i ≤ rect.bottom) ∧
      rest = (((d.children g).take (i + 1)).drop (rect.top + 1)).reverse ∧
      Clearing n s d e g v rect cells i (cleared.count true))
    (fun row rest cleared e ⟨i, hi, hrest, h⟩ => ?_) _ d ⟨rect.bottom, ⟨hle, le_rfl⟩, ?_, h⟩).mono ?_
  · have hi' : i < (d.children g).length := by omega
    rcases Nat.lt_or_eq_of_le hi.1 with htop | rfl
    swap
    · rw [List.drop_eq_nil_iff.2 (by rw [List.length_take]; omega)] at hrest
      cases hrest
    obtain ⟨i, rfl⟩ : ∃ j, i = j + 1 := ⟨i - 1, by omega⟩
    rw [List.take_succ_eq_append_getElem hi', List.drop_append_of_le_length
      (by rw [List.length_take]; omega), List.reverse_append] at hrest
    simp only [List.reverse_singleton, List.singleton_append, List.cons.injEq] at hrest
    obtain ⟨rfl, hrest⟩ := hrest
    refine (ensures_clearRow h corner (by omega) (List.getElem?_eq_getElem hi')).mono
      fun b e' h' => ⟨i, by omega, hrest, ?_⟩
    rw [List.count_append]
    cases b <;> simpa using h'
  · rw [CellRect.rowsOf, List.drop_drop]
  · rintro cleared e ⟨i, hi, hrest, h⟩
    obtain rfl : i = rect.top :=
      le_antisymm (below i (List.reverse_eq_nil_iff.1 hrest.symm) (by omega)) hi.1
    exact h

/-- A merge goes through its stages and ends with a caret in the merged cell. Without candidates, it
does nothing. -/
theorem ensures_mergeRect_stages [Length L] (reg : d.Regular t) (hg : g ∈ d.children t)
    (rect : CellRect) :
    Ensures (mergeRect g rect) d fun result d' =>
      match d.mergeCandidates? t rect (d.children g) with
      | none => result = none ∧ d' = d
      | some cells => ∃ v d₁ e, MergeStages d d₁ e d' t g rect v cells ∧
        result = (d'.firstCaret? v).map .collapsed := by
  have wf := reg.wf
  have hgk := reg.kind_group hg
  simp only [mergeRect, ensures_bind, ensures_requireParent (wf.tableOf?_eq reg.kind hg),
    ensures_place_steady reg.steady, ensures_get]
  cases hcand : d.mergeCandidates? t rect (d.children g) with
  | none => exact ensures_pure.2 ⟨rfl, rfl⟩
  | some cells =>
    obtain ⟨hrect, -, -⟩ := reg.rectangle hg hcand
    obtain ⟨v, hfind, stored, corner, hv⟩ := hrect.exists_corner reg hg
    have cell : ∀ c ∈ cells, c ∈ d.tableCells t ∧ d.kind? c = some .cell := fun c hc => by
      obtain ⟨r, hs, -⟩ := hrect.stored hc
      exact ⟨mem_tableCells.2 ⟨g, hg, r, hs⟩, wf.kind_stored hgk hs⟩
    have first := hrect.head?_eq reg hg hcand hv stored corner
    have hvk := (cell v hv).2
    have hvlt := lt_size_of_kind? hvk
    simp only [hfind, ensures_bind]
    have separate : d.Separate fun x => x = v ∨ x ∈ cells :=
      (wf.separate_tableCells t).mono fun c hc => (cell c (hc.elim (fun e => e ▸ hv) id)).1
    refine (ensures_absorbContent wf hvk hrect.nodup (fun c hc => (cell c hc).2) separate).mono
      fun _ d₁ absorbed => ?_
    rw [ensures_updateCell ((absorbed.frame.kind v hvlt).trans hvk)]
    have wide := absorbed.widened wf rect hvlt
    obtain ⟨ht₂, htable, hrows, -⟩ := wide.children_table reg hg hrect hv
    obtain ⟨corner₂, start⟩ := wide.clearing reg hg hrect hv stored corner
    have hchildren : d.children g = (d₁.modifyCell v rect.widen).children g :=
      (wide.children_eq hv (fun c hc => (cell c hc).2) hgk (by decide)).symm
    have finish : ∀ e, Cleared (d.columnCount t) d.shape.start (d₁.modifyCell v rect.widen) e g v
          rect cells →
        Ensures (place t) e fun _ e₁ => Ensures (checkGrid t) e₁ fun _ e₂ =>
          Ensures (correctGroupBorders t g) e₂ fun _ d' => ∃ v' d₁ e,
            MergeStages d d₁ e d' t g rect v' cells ∧
              (d'.firstCaret? v).map Segment.collapsed = (d'.firstCaret? v').map .collapsed := by
      intro e cleared
      have tile := wide.tileable reg hg hrect hv cleared
      have same := tile.laid.same
      have hg₂ : g ∈ (e.placed t).children t := by
        rw [same.children, cleared.children_table wide.wf ht₂ (htable ▸ hg), htable]
        exact hg
      obtain ⟨props, hp⟩ := exists_table? ((same.kind t).trans tile.kind)
      rw [ensures_place_checkGrid_iff tile,
        ensures_correctGroupBorders_iff (same.wellFormed tile.wf) hg₂ hp]
      exact ⟨v, _, e, ⟨reg, hg, hrect, first, stored, corner, wide, cleared, props, hp, rfl⟩,
        rfl⟩
    rw [hchildren]
    refine (ensures_clearRows start corner₂).mono fun cleared e clearing => ?_
    refine (ensures_forM_detach clearing.wf _).mono fun _ e' detached => ?_
    obtain ⟨p, hp⟩ := exists_cell? hvk
    have hp₂ := wide.cell
    rw [hp, Option.map_some] at hp₂
    have stored₂ : ∀ c ∈ cells, c ∈ ((d₁.modifyCell v rect.widen).rowsOf g).flatten := fun c hc => by
      rw [hrows g hg]
      exact hrect.flatten_of_mem hc
    have hspan : (rect.widen p).rowSpan = rect.bottom + 1 - rect.top := by
      have := hrect.rows.1
      simp only [CellRect.widen]
      omega
    split
    · next hlt =>
      have hve : e'.kind? v = some .cell := by
        rw [detached.kind]
        exact clearing.kind_eq ((wide.frame.kind v hvlt).trans hvk)
      simp only [ensures_bind, ensures_updateCell hve, ensures_get, ensures_pure]
      refine finish _ (clearing.cleared corner₂ stored₂ hp₂ hspan detached (if_pos hlt).symm
        (.modifyCell _ _ _) (fun c => ?_) (by simp))
      rw [cell?_modifyCell]
    · next hge =>
      simp only [ensures_bind, ensures_get, ensures_pure]
      exact finish _ (clearing.cleared corner₂ stored₂ hp₂ hspan detached (if_neg hge).symm (.refl e')
        (fun c => by simp) fun _ => rfl)

/-- A merge keeps the table regular. Without candidates, it does nothing. -/
theorem ensures_mergeRect [Length L] (reg : d.Regular t) (hg : g ∈ d.children t) (rect : CellRect) :
    Ensures (mergeRect g rect) d fun result d' => d'.Regular t ∧
      match d.mergeCandidates? t rect (d.children g) with
      | none => result = none ∧ d' = d
      | some cells => ∃ v, Merged d d' t v cells := by
  refine (ensures_mergeRect_stages reg hg rect).mono fun result d' h => ?_
  cases hcand : d.mergeCandidates? t rect (d.children g) with
  | none =>
    rw [hcand] at h
    exact ⟨h.2 ▸ reg, h⟩
  | some cells =>
    rw [hcand] at h
    obtain ⟨v, d₁, e, stages, -⟩ := h
    exact ⟨stages.laid.regular stages.tileable, v, stages.merged⟩

end RichTable.Action
