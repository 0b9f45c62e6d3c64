import Mathlib
import RichTable.Proofs.Edit.ColumnDelete

/-!
# Deletions undo insertions

Rows or columns that have been inserted can be deleted again, and the table is described as before
(`SameOutline`). Edits of rows cut the row spans of their group first, so the description that comes
back is the one with these spans cut (`TableOutline.cutGroup`).
-/

namespace RichTable

/-- The description with the row spans in row group `k` cut to the rows of the group. -/
def TableOutline.cutGroup {L : Type} (o : TableOutline L) (k : Nat) : TableOutline L :=
  { o with
    groups := o.groups.modify k fun rows => rows.mapIdx fun r row =>
      row.map fun c => { c with rowSpan := min c.rowSpan (rows.length - r) } }

/-- The row before which rows go that are inserted next to row `ρ`. -/
def Side.gap : Side → (ρ : Nat) → Nat
  | .before, ρ => ρ
  | .after, ρ => ρ + 1

/-- The width that an inserted column has got is taken away with it. -/
theorem eraseIdx_insertWidth {L : Type} (after : Option Nat) (columns : List (ColumnWidth L)) :
    (insertWidth after columns).eraseIdx ((after.map (· + 1)).getD 0) = columns := by
  simp only [insertWidth]
  split_ifs with recorded
  · exact List.eraseIdx_insertIdx_self _
  · refine List.eraseIdx_of_length_le ?_
    by_cases empty : columns = []
    · simp [empty]
    · have := mt (fun le => And.intro le empty) recorded
      omega

theorem insertWidth_none_eq_iff {L : Type} {columns : List (ColumnWidth L)} :
    insertWidth none columns = columns ↔ columns = [] := by
  constructor
  · intro same
    by_contra recorded
    have longer := congrArg List.length same
    simp [insertWidth, recorded] at longer
  · rintro rfl
    rfl

theorem place_after (after : Option Nat) :
    (after.map (· + 1)).getD 0 = Tiling.Widening.place (after.getD 0) after.isSome := by
  cases after <;> rfl

namespace Tiling.CellWidened

open Widening (place)

variable {a b : Shape} {τ : Nat} {behind : Bool} {c : NodeId}

/-- A cell that has got out of the way of a new column does not lie in it alone, and goes back when
the column goes. -/
theorem narrowed (w : CellWidened a b τ behind c) (pos : 0 < a.width c) :
    ¬ (b.start c = place τ behind ∧ b.width c = 1) ∧
    (if place τ behind < b.start c then b.start c - 1 else b.start c) = a.start c ∧
    (if b.start c ≤ place τ behind ∧ place τ behind < b.start c + b.width c then b.width c - 1
      else b.width c) = a.width c := by
  obtain ⟨start, width, -⟩ := w
  unfold place
  cases behind with
  | true =>
    simp only [Bool.true_eq_false, false_and, or_false, if_true] at start ⊢
    split_ifs at start width ⊢ <;> omega
  | false =>
    simp only [true_and, Bool.false_eq_true, if_false] at start ⊢
    split_ifs at start width ⊢ <;> omega

end Tiling.CellWidened

namespace Document

variable {L : Type} {d d' d₁ e e' : Document L} {t g : NodeId}

/-! ## Descriptions -/

theorem cellOutline?_congr {c : NodeId}
    (layout : (d'.cell? c).map (·.layout) = (d.cell? c).map (·.layout))
    (text : d'.plainText c = d.plainText c) : d'.cellOutline? c = d.cellOutline? c := by
  unfold cellOutline?
  cases hp : d.cell? c with
  | none =>
    rw [hp, Option.map_none, Option.map_eq_none_iff] at layout
    rw [layout]
    rfl
  | some p =>
    rw [hp, Option.map_some, Option.map_eq_some_iff] at layout
    obtain ⟨p', hp', layout⟩ := layout
    simp only [CellProps.layout, Prod.mk.injEq] at layout
    simp [hp', layout, text]

/-- The table has the same rows and cells, and they are described in the same way. -/
structure SameOutline (d d' : Document L) (t : NodeId) : Prop where
  table : (d'.table? t).map (fun props => (props.cellSpacing, props.columns)) =
    (d.table? t).map fun props => (props.cellSpacing, props.columns)
  groups : d'.children t = d.children t
  rows : ∀ g ∈ d.children t, d'.children g = d.children g
  cells : ∀ row ∈ d.tableRows t, d'.children row = d.children row
  outline : ∀ c ∈ d.tableCells t, d'.cellOutline? c = d.cellOutline? c

theorem SameOutline.outline?_eq (h : SameOutline d d' t) : d'.outline? t = d.outline? t := by
  have groups : ((d'.children t).map fun g => (d'.children g).map fun row =>
      (d'.children row).filterMap d'.cellOutline?) =
      (d.children t).map fun g => (d.children g).map fun row =>
        (d.children row).filterMap d.cellOutline? := by
    rw [h.groups]
    refine List.map_congr_left fun g hg => ?_
    rw [h.rows g hg]
    refine List.map_congr_left fun row hr => ?_
    have hrow : row ∈ d.tableRows t := List.mem_flatMap.2 ⟨g, hg, hr⟩
    rw [h.cells row hrow]
    exact List.filterMap_congr fun c hc => h.outline c (List.mem_flatMap.2 ⟨row, hrow, hc⟩)
  have table := h.table
  unfold outline?
  rw [groups]
  cases hp : d.table? t with
  | none =>
    rw [hp, Option.map_none, Option.map_eq_none_iff] at table
    rw [table]
  | some p =>
    rw [hp, Option.map_some, Option.map_eq_some_iff] at table
    obtain ⟨p', hp', table⟩ := table
    simp only [Prod.mk.injEq] at table
    simp [hp', table]

/-- Placing a table does not change its spacing and its columns. -/
theorem Laid.table_eq {s : NodeId → Nat} (h : Laid d d' t s) :
    (d'.table? t).map (fun props => (props.cellSpacing, props.columns)) =
      (d.table? t).map fun props => (props.cellSpacing, props.columns) := by
  rw [h.table]
  cases d.table? t <;> simp

theorem Laid.background_eq {s : NodeId → Nat} (h : Laid d d' t s) (c : NodeId) :
    (d'.cell? c).map (·.background) = (d.cell? c).map (·.background) := by
  cases hp : d.cell? c with
  | none =>
    have := h.layout c
    rw [hp, Option.map_none, Option.map_eq_none_iff] at this
    rw [this]
  | some p =>
    obtain ⟨p', hp', -, -, background⟩ := h.exists_props hp
    rw [hp', Option.map_some, Option.map_some, background]

theorem SameTree.plainText (same : SameTree d d') (wf : d.WellFormed) {c : NodeId}
    (hc : c < d.size) : d'.plainText c = d.plainText c :=
  (SameBelow.of_sameTree same c).plainText wf hc same.size.ge

/-- Cutting the row spans of a group is seen in the description of this group only. -/
theorem Clamped.outline?_eq (h : Clamped d d' g) (reg : d.Regular t) {k : Nat}
    (hk : (d.children t)[k]? = some g) : d'.outline? t = (d.outline? t).map (·.cutGroup k) := by
  have hg := List.mem_of_getElem? hk
  have lt : ∀ {q r c}, q ∈ d.children t → Stored (d.rowsOf q) r c → c < d.size := fun hq hs =>
    lt_size_of_kind? (reg.wf.kind_stored (reg.kind_group hq) hs)
  -- In the group, a cell in row `r` has its row span cut to the rows from `r` on.
  have inside : ∀ {r row}, (d.children g)[r]? = some row → ∀ c ∈ d.children row,
      d'.cellOutline? c = (d.cellOutline? c).map fun o =>
        { o with rowSpan := min o.rowSpan ((d.children g).length - r) } := by
    intro r row hr c hc
    have hs : Stored (d.rowsOf g) r c := stored_rowsOf.2 ⟨row, hr, hc⟩
    obtain ⟨p, hp⟩ := exists_cell? (reg.wf.kind_stored (reg.kind_group hg) hs)
    have height := (reg.steady.shape_eq (mem_tableCells.2 ⟨g, hg, r, hs⟩) hp).2
    simp [cellOutline?, h.inside hs, hp, height, h.same.plainText reg.wf (lt hg hs)]
  have outside : ∀ q ∈ d.children t, q ≠ g → ∀ row ∈ d.children q, ∀ c ∈ d.children row,
      d'.cellOutline? c = d.cellOutline? c := by
    intro q hq hqg row hr c hc
    obtain ⟨i, hi⟩ := List.getElem?_of_mem hr
    have hs : Stored (d.rowsOf q) i c := stored_rowsOf.2 ⟨row, hi, hc⟩
    refine cellOutline?_congr ?_ (h.same.plainText reg.wf (lt hq hs))
    rw [h.outside (reg.wf.not_stored_of_ne hqg hs)]
  obtain ⟨props, hp⟩ := exists_table? reg.kind
  have groups : ((d'.children t).map fun q => (d'.children q).map fun row =>
      (d'.children row).filterMap d'.cellOutline?) =
      ((d.children t).map fun q => (d.children q).map fun row =>
        (d.children row).filterMap d.cellOutline?).modify k fun rows => rows.mapIdx fun r row =>
          row.map fun c => { c with rowSpan := min c.rowSpan (rows.length - r) } := by
    refine List.ext_getElem? fun i => ?_
    rw [List.getElem?_modify, List.getElem?_map, List.getElem?_map, h.same.children]
    cases hi : (d.children t)[i]? with
    | none => rfl
    | some q =>
      simp only [Option.map_some, Option.map_eq_map, h.same.children]
      by_cases hki : k = i
      · obtain rfl : g = q := Option.some.inj (hk.symm.trans (hki ▸ hi))
        rw [if_pos hki, Option.some.injEq]
        refine List.ext_getElem? fun r => ?_
        rw [List.getElem?_mapIdx, List.getElem?_map, List.getElem?_map]
        cases hr : (d.children g)[r]? with
        | none => rfl
        | some row =>
          simp only [Option.map_some, List.length_map, Option.some.injEq]
          rw [List.map_filterMap]
          exact List.filterMap_congr (inside hr)
      · have hqg : q ≠ g := by
          rintro rfl
          exact hki (reg.wf.index_unique hk hi)
        rw [if_neg hki, Option.some.injEq]
        exact List.map_congr_left fun row hr =>
          List.filterMap_congr (outside q (List.mem_of_getElem? hi) hqg row hr)
  simp only [outline?, h.table, hp, Option.map_some, groups, TableOutline.cutGroup]

/-- Edits of row groups and rows do not change the text of a cell. -/
theorem Frame.plainText_cell {C P : NodeId → Prop} (frame : Frame C P d e) (wf : d.WellFormed)
    {c : NodeId} (hc : c ∈ d.tableCells t)
    (outer : ∀ x, C x → ∃ q ∈ d.children t, x = q ∨ x ∈ d.children q) :
    e.plainText c = d.plainText c := by
  obtain ⟨row, -, hcr⟩ := List.mem_flatMap.1 hc
  have below : SameBelow d e c := by
    refine .of_frame frame fun x hx hC => ?_
    obtain ⟨q, hq, hxq⟩ := outer x hC
    exact wf.not_mem_ancestors_tableRows hc hq hxq hx
  exact below.plainText wf (wf.lt_size_child hcr) frame.size

/-! ## Rows -/

/-- Where no cell reaches below its group, there is nothing to cut. -/
theorem Clamped.cell?_eq (h : Clamped d d' g) (reg : d.Regular t) (hg : g ∈ d.children t)
    (fits : ∀ {r c}, Stored (d.rowsOf g) r c → r + d.shape.height c ≤ (d.rowsOf g).length)
    (c : NodeId) : d'.cell? c = d.cell? c := by
  by_cases hin : ∃ r, Stored (d.rowsOf g) r c
  · obtain ⟨r, hs⟩ := hin
    obtain ⟨p, hp⟩ := exists_cell? (reg.wf.kind_stored (reg.kind_group hg) hs)
    have height := (reg.steady.shape_eq (mem_tableCells.2 ⟨g, hg, r, hs⟩) hp).2
    have fit := fits hs
    rw [length_rowsOf] at fit
    rw [h.inside hs, hp, Option.map_some, min_eq_left (by omega), height]
  · exact h.outside (not_exists.1 hin)

theorem Deleting.children_of_nil {d₂ : Document L} {first last : Nat} {copy : NodeId → NodeId}
    (h : Deleting d d₁ d₂ e t g first last [] copy) {x : NodeId} (hx : x < d.size) (hg : x ≠ g) :
    e.children x = d.children x := by
  by_cases hnext : (d.children g)[last + 1]? = some x
  · rcases h.recreate with ⟨next, hnext', hrec⟩ | ⟨hlen, -⟩
    · obtain rfl : x = next := Option.some.inj (hnext.symm.trans hnext')
      have wf₁ := h.shrink.same.wellFormed h.regular.wf
      rw [h.detached.children x (hx.trans_le h.size_le) hg, ← h.shrink.same.children, ← hrec.old,
        eq_comm, List.filter_eq_self]
      intro c hc
      have old : c ∈ d₁.children x := by simpa using hrec.mem_iff.1 hc
      simpa using wf₁.lt_size_child old
    · have := (List.getElem?_eq_some_iff.1 hnext).1
      omega
  · exact h.children_eq hx hg hnext

namespace Inserting

variable {first ρ count : Nat} {templates new : List NodeId}

/-- After the insertion no cell of the group reaches below its last row, and no cell of the new rows
reaches below its own. -/
theorem fits_tidied [Length L] (h : Inserting d d₁ e t g first ρ count templates new) {i : Nat}
    {x : NodeId} (hs : Stored ((e.tidied t).rowsOf g) i x) :
    i + (e.tidied t).shape.height x ≤ ((e.tidied t).rowsOf g).length ∧
      (first ≤ i → i < first + count → (e.tidied t).shape.height x = 1) := by
  obtain ⟨copy', s, -, old, insertion⟩ := h.exists_rowInsertion
  have tile := h.tileable_of_rowInsertion old insertion
  rw [tile.laid_tidied.same.rowsOf] at hs ⊢
  rw [(tile.laid_tidied.shape_eq tile.wf tile.kind).2.1, insertion.length_eq]
  rcases insertion.stored_iff.1 hs with ⟨hi, hs⟩ | ⟨h₁, h₂, c, hc, rfl⟩ | ⟨hi, hs⟩
  · have height := insertion.height hs
    have fit := insertion.clamped hs
    dsimp only at height
    split_ifs at height <;> omega
  · have height := (insertion.new (show i - first < count by omega) hc).2.2
    have := insertion.first_le
    dsimp only at height
    omega
  · have height := insertion.height hs
    have fit := insertion.clamped hs
    dsimp only at height
    rw [if_neg (by omega)] at height
    omega

/-- An old cell is as tall as its row span says, grown over the gap. -/
theorem layout_tidied [Length L] (h : Inserting d d₁ e t g first ρ count templates new)
    {c : NodeId} (hc : c ∈ d.tableCells t) :
    ((e.tidied t).cell? c).map (·.layout) = (d₁.cell? c).map (·.layout) := by
  obtain ⟨s, tile, old⟩ := h.tileable
  have hlt := lt_size_of_kind? (h.regular.wf.kind_tableCells h.regular.kind hc)
  have column : e.columnIndex? c = some (s c) := by
    rw [columnIndex?, h.cell?_eq hlt, ← columnIndex?, h.stretch.columnIndex?_eq,
      h.regular.columnIndex?_eq hc, old c hlt]
  rw [tile.laid_tidied.layout_of_columnIndex? column, h.cell?_eq hlt]

end Inserting

/-- Rows are inserted, going from `d` to `e`, and then deleted again, going from `b₁` to `e'`. -/
structure RowsUndone [Length L] (d d₁ e b₁ b₂ b₃ e' : Document L) (t g : NodeId)
    (first ρ count : Nat) (templates new cells : List NodeId) (copy : NodeId → NodeId) : Prop where
  pos : 1 ≤ count
  inserting : Inserting d d₁ e t g first ρ count templates new
  clamp : Clamped (e.tidied t) b₁ g
  deleting : Deleting b₁ b₂ b₃ e' t g first (first + count - 1) cells copy

namespace RowsUndone

variable [Length L] {first ρ count : Nat} {templates new cells : List NodeId}
  {b₁ b₂ b₃ : Document L} {copy : NodeId → NodeId}

theorem regular (h : RowsUndone d d₁ e b₁ b₂ b₃ e' t g first ρ count templates new cells copy) :
    (e.tidied t).Regular t :=
  h.inserting.poised.regular

theorem group (h : RowsUndone d d₁ e b₁ b₂ b₃ e' t g first ρ count templates new cells copy) :
    g ∈ (e.tidied t).children t := by
  rw [h.inserting.poised.same.children, h.inserting.children_table]
  exact h.inserting.group

/-- The deletion finds nothing to cut. -/
theorem cell?_eq (h : RowsUndone d d₁ e b₁ b₂ b₃ e' t g first ρ count templates new cells copy)
    (c : NodeId) : b₁.cell? c = (e.tidied t).cell? c :=
  Clamped.cell?_eq h.clamp h.regular h.group (fun hs => (h.inserting.fits_tidied hs).1) c

/-- The deletion finds nothing to recreate. -/
theorem cells_eq_nil (h : RowsUndone d d₁ e b₁ b₂ b₃ e' t g first ρ count templates new cells copy) :
    cells = [] := by
  refine List.eq_nil_iff_forall_not_mem.2 fun c hc => ?_
  obtain ⟨r, hs, h₁, h₂, h₃⟩ := h.deleting.cells_iff.1 hc
  have pos := h.pos
  have height := (shape_of_cell? (h.cell?_eq c)).2
  rw [h.clamp.same.rowsOf] at hs
  have one := (h.inserting.fits_tidied hs).2 h₁ (by omega)
  omega

theorem size_le (h : RowsUndone d d₁ e b₁ b₂ b₃ e' t g first ρ count templates new cells copy) :
    d.size ≤ b₁.size := by
  rw [h.clamp.same.size, h.inserting.poised.same.size, ← h.inserting.stretch.same.size]
  exact h.inserting.added.frame.size

theorem children_of_ne
    (h : RowsUndone d d₁ e b₁ b₂ b₃ e' t g first ρ count templates new cells copy) {x : NodeId}
    (hx : x < d.size) (hg : x ≠ g) : (e'.tidied t).children x = d.children x := by
  have deleting := h.deleting
  rw [h.cells_eq_nil] at deleting
  rw [deleting.poised.same.children, deleting.children_of_nil (hx.trans_le h.size_le) hg,
    h.clamp.same.children, h.inserting.poised.same.children, h.inserting.children_eq hx hg]

theorem children_group
    (h : RowsUndone d d₁ e b₁ b₂ b₃ e' t g first ρ count templates new cells copy) :
    (e'.tidied t).children g = d.children g := by
  have pos := h.pos
  have above : ((d.children g).take first).length = first := by
    have := h.inserting.next
    rw [length_rowsOf] at this
    rw [List.length_take]
    omega
  have through : ((d.children g).take first ++ new).length = first + count - 1 + 1 := by
    rw [List.length_append, above, h.inserting.length]
    omega
  rw [h.deleting.poised.same.children, h.deleting.rows, h.clamp.same.children,
    h.inserting.poised.same.children, h.inserting.children_group, List.drop_left' through,
    List.append_assoc, List.take_left' above, List.take_append_drop]

theorem table_eq (h : RowsUndone d d₁ e b₁ b₂ b₃ e' t g first ρ count templates new cells copy) :
    ((e'.tidied t).table? t).map (fun props => (props.cellSpacing, props.columns)) =
      (d.table? t).map fun props => (props.cellSpacing, props.columns) := by
  have hlt := lt_size_of_kind? h.inserting.regular.kind
  have hlt₁ := hlt.trans_le h.size_le
  obtain ⟨s, tile, -⟩ := h.inserting.tileable
  have deleted : e'.table? t = b₁.table? t := by
    rw [h.deleting.detached.table t (hlt₁.trans_le h.deleting.size_le) id,
      h.deleting.frame₂.table t (h.deleting.shrink.same.size.symm ▸ hlt₁) id, h.deleting.shrink.table]
  have inserted : e.table? t = d.table? t := by
    rw [h.inserting.added.frame.table t (h.inserting.stretch.same.size.symm ▸ hlt) id,
      h.inserting.stretch.table]
  rw [h.deleting.tileable.laid_tidied.table_eq, deleted, h.clamp.table, tile.laid_tidied.table_eq,
    inserted]

theorem still_there
    (h : RowsUndone d d₁ e b₁ b₂ b₃ e' t g first ρ count templates new cells copy) {c : NodeId}
    (hc : c ∈ d.tableCells t) : c ∈ b₁.tableCells t := by
  have old : c ∈ (e.tableCells t).filter (· < d.size) := by
    rw [h.inserting.inherits.cells, List.filter_true]
    exact hc
  rw [h.clamp.same.tableCells, h.inserting.poised.same.tableCells]
  exact (List.mem_filter.1 old).1

theorem plainText_eq
    (h : RowsUndone d d₁ e b₁ b₂ b₃ e' t g first ρ count templates new cells copy) {c : NodeId}
    (hc : c ∈ d.tableCells t) : (e'.tidied t).plainText c = d.plainText c := by
  have ins := h.inserting
  have stretch := ins.stretch.same
  have wf := ins.regular.wf
  have hlt := lt_size_of_kind? (wf.kind_tableCells ins.regular.kind hc)
  have inserted : e.plainText c = d₁.plainText c := by
    refine ins.added.frame.plainText_cell (stretch.wellFormed wf)
      ((stretch.tableCells t).symm ▸ hc) ?_
    rintro x rfl
    exact ⟨x, (stretch.children t).symm ▸ ins.group, .inl rfl⟩
  have deleted : (e'.tidied t).plainText c = (e.tidied t).plainText c :=
    (h.deleting.frame_tidied h.clamp).plainText_cell h.regular.wf
      (h.clamp.same.tableCells t ▸ h.still_there hc) fun x hx => ⟨g, h.group, hx⟩
  rw [deleted, ins.poised.same.plainText ins.added.wf
    (ins.poised.same.size ▸ h.clamp.same.size ▸ hlt.trans_le h.size_le), inserted,
    stretch.plainText wf hlt]

/-- A cell of the group that has grown over the gap shrinks by as much. -/
theorem layout_eq
    (h : RowsUndone d d₁ e b₁ b₂ b₃ e' t g first ρ count templates new cells copy) {c : NodeId}
    (hc : c ∈ d.tableCells t) :
    ((e'.tidied t).cell? c).map (·.layout) = (d.cell? c).map (·.layout) := by
  have ins := h.inserting
  have del := h.deleting
  have hlt := lt_size_of_kind? (ins.regular.wf.kind_tableCells ins.regular.kind hc)
  have same : b₁.rowsOf g = e.rowsOf g := (h.clamp.same.rowsOf g).trans (ins.poised.same.rowsOf g)
  -- The cell as the deletion finds it, and as it leaves it.
  have found := ins.layout_tidied hc
  rw [← h.cell?_eq] at found
  have left : ((e'.tidied t).cell? c).map (·.layout) = (b₂.cell? c).map (·.layout) := by
    have shrunk := del.cell?_eq (hlt.trans_le h.size_le)
    have column : e'.columnIndex? c = some (b₁.shape.start c) := by
      rw [columnIndex?, shrunk, ← columnIndex?, del.shrink.columnIndex?_eq]
      exact del.regular.columnIndex?_eq (h.still_there hc)
    rw [del.tileable.laid_tidied.layout_of_columnIndex? (by rw [start_eq column, column]), shrunk]
  rw [left]
  obtain ⟨q, hq, r, hs⟩ := mem_tableCells.1 hc
  by_cases hqg : q = g
  · subst hqg
    obtain ⟨p, hp⟩ := exists_cell? (ins.regular.wf.kind_tableCells ins.regular.kind hc)
    obtain ⟨_, _, -, -, insertion⟩ := ins.exists_rowInsertion
    have hs₁ := insertion.old hs
    rw [← same] at hs₁
    rw [ins.stretch.inside hs, hp, Option.map_some, Option.map_some, Option.map_eq_some_iff] at found
    obtain ⟨p₁, hp₁, layout⟩ := found
    have height := (ins.regular.steady.shape_eq hc hp).2
    have height₁ := (del.regular.steady.shape_eq (h.still_there hc) hp₁).2
    simp only [CellProps.layout, Prod.mk.injEq] at layout
    have back : b₁.shrunk first (first + count - 1) (if r < first then r else r + count) c =
        p.rowSpan := by
      have grown : b₁.shape.height c = d.stretched first count r c := by rw [height₁, layout.2.1]
      have pos := h.pos
      unfold shrunk
      rw [grown, ← height]
      unfold stretched
      split_ifs <;> omega
    rw [del.shrink.inside hs₁, hp, hp₁, back]
    simp [CellProps.layout, layout]
  · have hs₁ : Stored (b₁.rowsOf q) r c := by
      rw [h.clamp.same.rowsOf, ins.poised.same.rowsOf, ins.rowsOf_eq hq hqg]
      exact hs
    rw [del.shrink.outside (del.regular.wf.not_stored_of_ne hqg hs₁), found,
      ins.stretch.outside (ins.regular.wf.not_stored_of_ne hqg hs)]

theorem sameOutline
    (h : RowsUndone d d₁ e b₁ b₂ b₃ e' t g first ρ count templates new cells copy) :
    SameOutline d (e'.tidied t) t where
  table := h.table_eq
  groups := by
    refine h.children_of_ne (lt_size_of_kind? h.inserting.regular.kind) ?_
    rintro rfl
    have := h.inserting.regular.kind
    rw [h.inserting.kind_group] at this
    cases this
  rows q hq := by
    by_cases hqg : q = g
    · rw [hqg, h.children_group]
    · exact h.children_of_ne (h.inserting.regular.wf.lt_size_child hq) hqg
  cells row hr := by
    obtain ⟨q, hq, hrq⟩ := List.mem_flatMap.1 hr
    exact h.children_of_ne (h.inserting.regular.wf.lt_size_child hrq) (h.inserting.row_ne hq hrq)
  outline c hc := cellOutline?_congr (h.layout_eq hc) (h.plainText_eq hc)

end RowsUndone

/-! ## Columns -/

/-- A regular table says the layout of its cells with its shape. -/
theorem Regular.layout_eq (reg : d.Regular t) {c : NodeId} {p : CellProps L}
    (hc : c ∈ d.tableCells t) (hp : d.cell? c = some p) :
    p.layout = (d.shape.width c, d.shape.height c, some (d.shape.start c), p.background) := by
  obtain ⟨width, height⟩ := reg.steady.shape_eq hc hp
  have column := reg.columnIndex?_eq hc
  rw [columnIndex?, hp, Option.bind_some] at column
  rw [CellProps.layout, width, height, column]

theorem ViewWidened.background_eq {τ : Nat} {behind : Bool} {row c : NodeId} (wf : d.WellFormed)
    (h : ViewWidened d τ behind row (e.rowView row)) (hc : c ∈ d.children row) :
    (e.cell? c).map (·.background) = (d.cell? c).map (·.background) := by
  generalize hV : e.rowView row = V at h
  cases h with
  | absent found => rw [cell?_of_rowView hV hc]
  | @wide c' props found cell wide =>
    rw [(rowView_eq_map.1 hV).2 c hc]
    split_ifs with eq
    · rw [eq, cell]
      rfl
    · rfl
  | @narrow c' f props l u found cell narrow split fresh =>
    have hmem : c ∈ (if behind then l ++ c' :: f :: u else l ++ f :: c' :: u) := by
      rw [split] at hc
      cases behind <;> simp at hc ⊢ <;> tauto
    have hne : c ≠ f := ((wf.lt_size_child hc).trans_le fresh).ne
    rw [(rowView_eq_map.1 hV).2 c hmem, if_neg hne]

theorem ViewNarrowed.background_eq {k : Nat} {row c : NodeId}
    (h : ViewNarrowed d k row (e.rowView row)) (hc : c ∈ e.children row) :
    (e.cell? c).map (·.background) = (d.cell? c).map (·.background) := by
  generalize hV : e.rowView row = V at h
  cases h with
  | absent found => rw [cell?_of_rowView hV (children_of_rowView hV ▸ hc)]
  | @wide c' props found cell wide =>
    obtain ⟨children, cells⟩ := rowView_eq_map.1 hV
    rw [cells c (children ▸ hc)]
    split_ifs with eq
    · rw [eq, cell]
      rfl
    · rfl
  | gone found cell narrow =>
    obtain ⟨children, cells⟩ := rowView_eq_map.1 hV
    rw [cells c (children ▸ hc)]

/-- A column is inserted, going from `d` to `d'`, and then deleted again, going from `d'` to `d''`. -/
structure ColumnUndone (d e d' e' d'' : Document L) (t : NodeId) (after : Option Nat) : Prop where
  widened : RowsWidened d e t (after.getD 0) after.isSome
  laid : Laid (e.modifyTable t fun props => { props with columns := insertWidth after props.columns })
    d' t (d.widenedStart (after.getD 0) after.isSome)
  narrowed : RowsNarrowed d' e' t ((after.map (· + 1)).getD 0)
  laid' : Laid (e'.modifyTable t fun props =>
      { props with columns := props.columns.eraseIdx ((after.map (· + 1)).getD 0) }) d'' t
    (d'.narrowedStart ((after.map (· + 1)).getD 0))

namespace ColumnUndone

variable {d'' : Document L} {after : Option Nat}

theorem laidOut (h : ColumnUndone d e d' e' d'' t after) : d'.Regular t ∧ SameTree e d' ∧
    d'.columnCount t = d.columnCount t + 1 ∧
    (∀ c ∈ e.tableCells t, d'.shape.start c = d.widenedStart (after.getD 0) after.isSome c) ∧
    d'.shape.width = e.shape.width :=
  h.laid.of_modifyTable h.widened.tileable (h.widened.tree.2.2 ▸
    h.widened.regular.tableRows_ne_nil (Nat.zero_lt_of_lt h.widened.target))

theorem height_eq (h : ColumnUndone d e d' e' d'' t after) : d'.shape.height = e.shape.height := by
  have tile := h.widened.tileable.modifyTable fun props =>
    { props with columns := insertWidth after props.columns }
  rw [(h.laid.shape_eq tile.wf tile.kind).2.1, shape_modifyTable]

/-- The old cells when the column has been inserted. -/
theorem cellWidened (h : ColumnUndone d e d' e' d'' t after) {row c : NodeId}
    (hr : row ∈ d.tableRows t) (hc : c ∈ d.children row) :
    Tiling.CellWidened d.shape d'.shape (after.getD 0) after.isSome c := by
  obtain ⟨-, -, -, start, width⟩ := h.laidOut
  obtain ⟨f, row_widened⟩ := (h.widened.gains hr).widened
  have hce : c ∈ e.tableCells t :=
    List.mem_flatMap.2 ⟨row, h.widened.tree.2.2 ▸ hr, row_widened.subset hc⟩
  have cell := (h.widened.gains hr).cell c hc
  exact ⟨(start c hce).trans cell.start, (congrFun width c).trans cell.width,
    (congrFun h.height_eq c).trans cell.height⟩

theorem width_pos (h : ColumnUndone d e d' e' d'' t after) {row c : NodeId}
    (hr : row ∈ d.tableRows t) (hc : c ∈ d.children row) : 0 < d.shape.width c := by
  obtain ⟨g, hg, i, hi⟩ := exists_group_of_mem_tableRows hr
  exact (h.widened.regular.tiled g hg).width_pos (stored_rowsOf.2 ⟨row, hi, hc⟩)

/-- The deletion finds the new cells, and no others, in the new column alone. -/
theorem fillsColumn_eq (h : ColumnUndone d e d' e' d'' t after) {row c : NodeId}
    (hr : row ∈ d.tableRows t) (hc : c ∈ e.children row) :
    (!d'.fillsColumn ((after.map (· + 1)).getD 0) c) = decide (c < d.size) := by
  obtain ⟨-, -, -, start, width⟩ := h.laidOut
  have hce : c ∈ e.tableCells t := List.mem_flatMap.2 ⟨row, h.widened.tree.2.2 ▸ hr, hc⟩
  by_cases old : c < d.size
  · have hcd : c ∈ d.children row := by
      rw [← (h.widened.gains hr).old]
      exact List.mem_filter.2 ⟨hc, decide_eq_true old⟩
    rw [decide_eq_true old, Bool.not_eq_true', ← Bool.not_eq_true, fillsColumn_iff, place_after]
    exact ((h.cellWidened hr hcd).narrowed (h.width_pos hr hcd)).1
  · obtain ⟨f, row_widened⟩ := (h.widened.gains hr).widened
    have new : e.shape.width c = 1 := by
      rcases row_widened.cases_mem hc with hold | ⟨rfl, -, -, -, -, -, one, -⟩
      · exact absurd (h.widened.regular.wf.lt_size_child hold) old
      · exact one
    rw [decide_eq_false old, Bool.not_eq_false', fillsColumn_iff, start c hce, width, new,
      widenedStart, if_neg old]
    cases after <;> simp

theorem children_row (h : ColumnUndone d e d' e' d'' t after) {row : NodeId}
    (hr : row ∈ d.tableRows t) : d''.children row = d.children row := by
  obtain ⟨-, same, -⟩ := h.laidOut
  have hr' : row ∈ d'.tableRows t := by rwa [same.tableRows, h.widened.tree.2.2]
  have same' : SameTree e' d'' := SameTree.trans (.modifyTable e' t _) h.laid'.same
  rw [same'.children, (h.narrowed.loses hr').children, same.children, ← (h.widened.gains hr).old]
  exact List.filter_congr fun c hc => h.fillsColumn_eq hr hc

theorem inside (h : ColumnUndone d e d' e' d'' t after) :
    (after.map (· + 1)).getD 0 < d'.columnCount t := by
  obtain ⟨-, -, count, -⟩ := h.laidOut
  have := h.widened.target
  rw [count]
  cases after <;> simp_all

theorem regular (h : ColumnUndone d e d' e' d'' t after) : d''.Regular t :=
  (h.narrowed.laidOut h.laidOut.1 h.inside h.laid').1

theorem tree (h : ColumnUndone d e d' e' d'' t after) : d''.children t = d.children t ∧
    (∀ g ∈ d.children t, d''.children g = d.children g) ∧ d''.tableRows t = d.tableRows t := by
  obtain ⟨-, same, -⟩ := h.laidOut
  have same' : SameTree e' d'' := SameTree.trans (.modifyTable e' t _) h.laid'.same
  obtain ⟨groups, rows, tableRows⟩ := h.widened.tree
  obtain ⟨groups', rows', tableRows'⟩ := h.narrowed.tree
  have back : d'.children t = d.children t := (same.children t).trans groups
  refine ⟨by rw [same'.children, groups', back], fun g hg => ?_, ?_⟩
  · rw [same'.children, rows' g (back ▸ hg), same.children, rows g hg]
  · rw [same'.tableRows, tableRows', same.tableRows, tableRows]

theorem mem_tableCells_back (h : ColumnUndone d e d' e' d'' t after) {row c : NodeId}
    (hr : row ∈ d.tableRows t) (hc : c ∈ d.children row) : c ∈ d''.tableCells t :=
  List.mem_flatMap.2 ⟨row, h.tree.2.2 ▸ hr, (h.children_row hr).symm ▸ hc⟩

/-- The old cells are again where they were and as large as they were. -/
theorem shape_eq (h : ColumnUndone d e d' e' d'' t after) {row c : NodeId}
    (hr : row ∈ d.tableRows t) (hc : c ∈ d.children row) : d''.shape.start c = d.shape.start c ∧
      d''.shape.width c = d.shape.width c ∧ d''.shape.height c = d.shape.height c := by
  obtain ⟨reg', same, -⟩ := h.laidOut
  obtain ⟨-, same', -, shape⟩ := h.narrowed.laidOut reg' h.inside h.laid'
  obtain ⟨start', width'⟩ := shape c (h.mem_tableCells_back hr hc)
  have cell := h.cellWidened hr hc
  obtain ⟨-, start, width⟩ := cell.narrowed (h.width_pos hr hc)
  have height : d''.shape.height c = d'.shape.height c := by
    have hr' : row ∈ d'.tableRows t := by rwa [same.tableRows, h.widened.tree.2.2]
    have tile := (h.narrowed.tileable reg' h.inside).modifyTable fun props =>
      { props with columns := props.columns.eraseIdx ((after.map (· + 1)).getD 0) }
    rw [(h.laid'.shape_eq tile.wf tile.kind).2.1, shape_modifyTable]
    exact (h.narrowed.loses hr').height c (same'.children row ▸ (h.children_row hr).symm ▸ hc)
  rw [place_after] at start' width'
  exact ⟨start'.trans start, width'.trans width, height.trans cell.height⟩

theorem background_eq (h : ColumnUndone d e d' e' d'' t after) {row c : NodeId}
    (hr : row ∈ d.tableRows t) (hc : c ∈ d.children row) :
    (d''.cell? c).map (·.background) = (d.cell? c).map (·.background) := by
  obtain ⟨-, same, -⟩ := h.laidOut
  have same' : SameTree e' d'' := SameTree.trans (.modifyTable e' t _) h.laid'.same
  have hr' : row ∈ d'.tableRows t := by rwa [same.tableRows, h.widened.tree.2.2]
  have hc' : c ∈ e'.children row := same'.children row ▸ (h.children_row hr).symm ▸ hc
  rw [h.laid'.background_eq, cell?_modifyTable, (h.narrowed.views row hr').background_eq hc',
    h.laid.background_eq, cell?_modifyTable,
    (h.widened.views row hr).background_eq h.widened.regular.wf hc]

theorem plainText_eq (h : ColumnUndone d e d' e' d'' t after) {row c : NodeId}
    (hr : row ∈ d.tableRows t) (hc : c ∈ d.children row) : d''.plainText c = d.plainText c := by
  obtain ⟨reg', same, -⟩ := h.laidOut
  have same' : SameTree e' d'' := SameTree.trans (.modifyTable e' t _) h.laid'.same
  have wf := h.widened.regular.wf
  have hlt := (wf.lt_size_child hc).trans_le h.widened.frame.size
  have hlt' := (same.size ▸ hlt).trans_le h.narrowed.frame.size
  have hct' : c ∈ d'.tableCells t := by
    obtain ⟨f, row_widened⟩ := (h.widened.gains hr).widened
    rw [same.tableCells]
    exact List.mem_flatMap.2 ⟨row, h.widened.tree.2.2 ▸ hr, row_widened.subset hc⟩
  have inserted : e.plainText c = d.plainText c :=
    h.widened.frame.plainText_cell wf (List.mem_flatMap.2 ⟨row, hr, hc⟩) fun x hx =>
      (List.mem_flatMap.1 hx).imp fun _ hq => ⟨hq.1, .inr hq.2⟩
  have deleted : e'.plainText c = d'.plainText c :=
    h.narrowed.frame.plainText_cell reg'.wf hct' fun x hx =>
      (List.mem_flatMap.1 hx).imp fun _ hq => ⟨hq.1, .inr hq.2⟩
  rw [same'.plainText h.narrowed.wf hlt', deleted, same.plainText h.widened.wf hlt, inserted]

theorem table_eq (h : ColumnUndone d e d' e' d'' t after) :
    (d''.table? t).map (fun props => (props.cellSpacing, props.columns)) =
      (d.table? t).map fun props => (props.cellSpacing, props.columns) := by
  rw [h.laid'.table_eq, table?_modifyTable, h.narrowed.table?_eq, h.laid.table, table?_modifyTable,
    h.widened.table?_eq]
  cases d.table? t with
  | none => rfl
  | some props => simp [eraseIdx_insertWidth]

theorem sameOutline (h : ColumnUndone d e d' e' d'' t after) : SameOutline d d'' t where
  table := h.table_eq
  groups := h.tree.1
  rows := h.tree.2.1
  cells row hr := h.children_row hr
  outline c hc := by
    obtain ⟨row, hr, hcr⟩ := List.mem_flatMap.1 hc
    have reg := h.widened.regular
    have hc' := h.mem_tableCells_back hr hcr
    obtain ⟨p, hp⟩ := exists_cell? (reg.wf.kind_tableCells reg.kind hc)
    obtain ⟨p', hp'⟩ := exists_cell? (h.regular.wf.kind_tableCells h.regular.kind hc')
    obtain ⟨start, width, height⟩ := h.shape_eq hr hcr
    have background := h.background_eq hr hcr
    rw [hp, hp', Option.map_some, Option.map_some, Option.some.injEq] at background
    refine cellOutline?_congr ?_ (h.plainText_eq hr hcr)
    rw [hp, hp', Option.map_some, Option.map_some, reg.layout_eq hc hp, h.regular.layout_eq hc' hp',
      start, width, height, background]

end ColumnUndone

/-! ## No columns -/

/-- Without cells, the description of a table is up to its rows and its properties. -/
theorem outline?_of_noCells (same : SameTree d d') (cells : d.tableCells t = [])
    {f : List (ColumnWidth L) → List (ColumnWidth L)}
    (table : (d'.table? t).map (fun props => (props.cellSpacing, props.columns)) =
      (d.table? t).map fun props => (props.cellSpacing, f props.columns)) :
    d'.outline? t = (d.outline? t).map fun o => { o with columns := f o.columns } := by
  have groups : ((d'.children t).map fun g => (d'.children g).map fun row =>
      (d'.children row).filterMap d'.cellOutline?) =
      (d.children t).map fun g => (d.children g).map fun row =>
        (d.children row).filterMap d.cellOutline? := by
    simp only [same.children]
    refine List.map_congr_left fun g hg => List.map_congr_left fun row hr => ?_
    rw [List.flatMap_eq_nil_iff.1 cells row (List.mem_flatMap.2 ⟨g, hg, hr⟩)]
    rfl
  unfold outline?
  rw [groups]
  cases hp : d.table? t with
  | none =>
    rw [hp, Option.map_none, Option.map_eq_none_iff] at table
    rw [table]
    rfl
  | some p =>
    rw [hp, Option.map_some, Option.map_eq_some_iff] at table
    obtain ⟨p', hp', table⟩ := table
    simp only [Prod.mk.injEq] at table
    simp [hp', table]

end Document

namespace Action

open Document

variable {L : Type} [Length L] {d : Document L} {t g : NodeId}

theorem ensures_deleteRowInterval_stages (reg : d.Regular t) (hg : g ∈ d.children t)
    {first last : Nat} (range : first ≤ last ∧ last < (d.children g).length)
    (part : ¬ (first = 0 ∧ last + 1 = (d.children g).length)) :
    Ensures (deleteRowInterval g first last) d fun done d' => done = true ∧
      ∃ d₁ d₂ d₃ e cells copy, Clamped d d₁ g ∧ Deleting d₁ d₂ d₃ e t g first last cells copy ∧
        d' = e.tidied t := by
  simp only [deleteRowInterval, ensures_bind,
    ensures_requireParent (reg.wf.tableOf?_eq reg.kind hg), ensures_get]
  rw [if_neg (by omega), if_neg part]
  exact ensures_deletePart_stages reg hg range (tableRows_ne_nil_of_lt hg range.2)

/-- Rows that have been inserted are deleted again. -/
theorem ensures_insertRows_undone (reg : d.Regular t) {k : Nat} (hk : (d.children t)[k]? = some g)
    {reference : NodeId} {ρ : Nat} (hρ : (d.children g)[ρ]? = some reference) {count : Nat}
    (pos : 1 ≤ count) (side : Side) :
    Ensures (insertRows reference count side) d fun result d' => result.isSome = true ∧
      (∃ new, new.length = count ∧ (∀ row ∈ new, d.size ≤ row) ∧ d'.children g =
        (d.children g).take (side.gap ρ) ++ new ++ (d.children g).drop (side.gap ρ)) ∧
      Ensures (deleteRowInterval g (side.gap ρ) (side.gap ρ + count - 1)) d' fun done d'' =>
        done = true ∧ d''.outline? t = (d.outline? t).map (·.cutGroup k) := by
  have hg := List.mem_of_getElem? hk
  refine (ensures_insertRows_stages reg hg hρ (by omega) side).mono ?_
  rintro _ _ ⟨d₁, d₂, e, templates, new, clamp, stages, rfl, rfl⟩
  have inserting : Inserting d₁ d₂ e t g (side.gap ρ) ρ count templates new := by
    cases side <;> exact stages
  have gap_le : side.gap ρ ≤ (d.children g).length := by
    have := inserting.next
    rw [length_rowsOf, clamp.same.children] at this
    omega
  have reg' := inserting.poised.regular
  have same := inserting.poised.same
  have children : (e.tidied t).children g =
      (d.children g).take (side.gap ρ) ++ new ++ (d.children g).drop (side.gap ρ) := by
    rw [same.children, inserting.children_group, clamp.same.children]
  have length : ((e.tidied t).children g).length = (d.children g).length + count := by
    rw [children, List.length_append, List.length_append, List.length_take, List.length_drop,
      inserting.length]
    omega
  have some_row : 0 < (d.children g).length :=
    Nat.zero_lt_of_lt (List.getElem?_eq_some_iff.1 hρ).1
  have group : g ∈ (e.tidied t).children t := by
    rw [same.children, inserting.children_table]
    exact inserting.group
  refine ⟨rfl, ⟨new, inserting.length, fun row hr => ?_, children⟩, ?_⟩
  · exact clamp.same.size ▸ inserting.stretch.same.size ▸ (inserting.added.rows row hr).fresh
  · refine (ensures_deleteRowInterval_stages reg' group ⟨by omega, by omega⟩ (by omega)).mono ?_
    rintro _ _ ⟨rfl, b₁, b₂, b₃, e', cells, copy, clamp', deleting, rfl⟩
    have undone : RowsUndone d₁ d₂ e b₁ b₂ b₃ e' t g (side.gap ρ) ρ count templates new cells copy :=
      ⟨pos, inserting, clamp', deleting⟩
    refine ⟨rfl, ?_⟩
    rw [undone.sameOutline.outline?_eq]
    exact Clamped.outline?_eq clamp reg hk

/-- A column that has been inserted is deleted again. -/
theorem ensures_insertColumn_undone (reg : d.Regular t) (pos : 1 ≤ d.columnCount t)
    {after : Option Nat} (inside : ∀ c, after = some c → c < d.columnCount t) :
    Ensures (insertColumn t after) d fun _ d' =>
      Ensures (deleteColumn t ((after.map (· + 1)).getD 0)) d' fun done d'' => done = true ∧
        d''.outline? t = d.outline? t := by
  have target : after.getD 0 = (after.map (min · (d.columnCount t - 1))).getD 0 := by
    cases after with
    | none => rfl
    | some c =>
      have := inside c rfl
      simp only [Option.getD_some, Option.map_some]
      omega
  refine (ensures_insertColumn_stages reg pos after target).mono ?_
  rintro _ d' ⟨e, widened, laid⟩
  obtain ⟨reg', -, count, -⟩ := laid.of_modifyTable widened.tileable
    (widened.tree.2.2 ▸ reg.tableRows_ne_nil pos)
  have hk : (after.map (· + 1)).getD 0 < d'.columnCount t := by
    have := widened.target
    rw [count]
    cases after <;> simp_all
  refine (ensures_deleteColumn_stages reg' (by omega) hk).mono ?_
  rintro done d'' ⟨rfl, e', narrowed, laid'⟩
  have undone : ColumnUndone d e d' e' d'' t after := ⟨widened, laid, narrowed, laid'⟩
  exact ⟨rfl, undone.sameOutline.outline?_eq⟩

/-- In a table without columns an insertion finds no cell to grow or to copy, and the deletion is
refused. -/
theorem ensures_insertColumn_noColumns (reg : d.Regular t) (zero : d.columnCount t = 0) :
    Ensures (insertColumn t none) d fun _ d' => Ensures (deleteColumn t 0) d' fun done d'' =>
      done = false ∧ d''.outline? t =
        (d.outline? t).map fun o => { o with columns := insertWidth none o.columns } := by
  have cells : d.tableCells t = [] := by
    by_contra some_cell
    have := reg.columnCount_pos_iff.2 some_cell
    omega
  have widened : Ensures ((d.tableRows t).forM (widenRow 0 false)) d fun _ e => e = d := by
    refine (Ensures.forM (I := fun rows e => e = d ∧ ∀ row ∈ rows, row ∈ d.tableRows t) ?_ _ _
      ⟨rfl, fun _ hr => hr⟩).mono fun _ _ h => h.1
    rintro row rows _ ⟨rfl, mem⟩
    simp only [widenRow, ensures_bind, ensures_get, storedCell?,
      List.flatMap_eq_nil_iff.1 cells row (mem row (by simp)), List.find?_nil, ensures_pure]
    exact ⟨trivial, fun r hr => mem r (by simp [hr])⟩
  simp only [insertColumn, ensures_bind, ensures_place_steady reg.steady, ensures_get]
  refine widened.mono fun _ e unchanged => ?_
  rw [unchanged]
  refine ensures_finishColumns _ reg.tileable fun d' laid => ?_
  have same := SameTree.trans (.modifyTable d t _) laid.same
  have reg' := laid.regular (reg.tileable.modifyTable _)
  have zero' : d'.columnCount t = 0 := by
    have := mt reg'.columnCount_pos_iff.1 (not_not.2 ((same.tableCells t).trans cells))
    omega
  simp only [deleteColumn, ensures_bind, ensures_place_steady reg'.steady]
  rw [if_pos (by omega), ensures_pure]
  refine ⟨rfl, outline?_of_noCells same cells ?_⟩
  rw [laid.table_eq, table?_modifyTable, Option.map_map]
  simp [Function.comp_def]

/-- Rows that have been inserted, on either side of a row, can be deleted again. The table is described
as before, but for the row spans of the group, which have been cut. A column that has been inserted
next to another can be deleted again, and the table is described as before. Where there is no column,
nothing is inserted and nothing deleted, and the table is described as before unless a width was on
record for a column that it does not have. -/
theorem deletion_undoes_insertion (reg : d.Regular t) : ∃ o, d.outline? t = some o ∧
    (∀ k g, (d.children t)[k]? = some g → ∀ ρ reference, (d.children g)[ρ]? = some reference →
      ∀ count side, 1 ≤ count → ∃ range new d' d'',
        (insertRows reference count side).run.run d = (.ok (some range), d') ∧
        new.length = count ∧ (∀ row ∈ new, d.size ≤ row) ∧
        d'.children g = (d.children g).take (side.gap ρ) ++ new ++ (d.children g).drop (side.gap ρ) ∧
        (deleteRowInterval g (side.gap ρ) (side.gap ρ + count - 1)).run.run d' = (.ok true, d'') ∧
        d''.outline? t = some (o.cutGroup k)) ∧
    (∀ after : Option Nat, (∀ c, after = some c → c < d.columnCount t) →
      ∃ d' d'', (insertColumn t after).run.run d = (.ok (), d') ∧
        (deleteColumn t ((after.map (· + 1)).getD 0)).run.run d' =
          (.ok (decide (0 < d.columnCount t)), d'') ∧
        (d''.outline? t = some o ↔ 0 < d.columnCount t ∨ o.columns = [])) := by
  obtain ⟨props, hp⟩ := exists_table? reg.kind
  obtain ⟨o, ho⟩ : ∃ o, d.outline? t = some o := ⟨_, by rw [outline?, hp, Option.map_some]⟩
  refine ⟨o, ho, ?_, ?_⟩
  · intro k g hk ρ reference hρ count side pos
    obtain ⟨result, d', run, done, ⟨new, length, fresh, rows⟩, _, d'', run', rfl, outline⟩ :=
      ensures_insertRows_undone reg hk hρ pos side
    obtain ⟨range, rfl⟩ := Option.isSome_iff_exists.1 done
    rw [ho, Option.map_some] at outline
    exact ⟨range, new, d', d'', run, length, fresh, rows, run', outline⟩
  · intro after inside
    rcases Nat.eq_zero_or_pos (d.columnCount t) with zero | pos
    · obtain rfl : after = none := by
        cases after with
        | none => rfl
        | some c => exact absurd (inside c rfl) (by omega)
      obtain ⟨_, d', run, _, d'', run', rfl, outline⟩ := ensures_insertColumn_noColumns reg zero
      rw [ho, Option.map_some] at outline
      refine ⟨d', d'', run, by simpa [zero] using run', ?_⟩
      rw [outline, zero, Option.some.injEq, or_iff_right (lt_irrefl 0), ← insertWidth_none_eq_iff]
      exact ⟨fun same => congrArg TableOutline.columns same, fun same => by rw [same]⟩
    · obtain ⟨_, d', run, _, d'', run', rfl, outline⟩ := ensures_insertColumn_undone reg pos inside
      exact ⟨d', d'', run, by simpa [pos] using run', iff_of_true (outline.trans ho) (.inl pos)⟩

/-- A row group with cells that reach over its rows and below its end, and widths for some columns. -/
def braidedRows : TableOutline Int where
  columns := [.fixed 3, .fixed 4]
  groups := [[[{ text := "a" }, { text := "b", columnSpan := 2 }]],
    [[{ text := "c", rowSpan := 2 }, { text := "d" }, { text := "e", rowSpan := 7 }],
      [{ text := "f", rowSpan := 3, background := some "red" }], [{ text := "g" }]]]

/-- The document with the table of `braidedRows`. -/
def braidedRowsDocument : Document Int :=
  ((EditorAction.insertTable braidedRows).run.run { config := .standard }).2.doc

theorem deletion_undoes_insertion_braidedRows : braidedRowsDocument.Regular 1 ∧
    (∃ g reference range d' d'', (braidedRowsDocument.children 1)[1]? = some g ∧
      (braidedRowsDocument.children g)[1]? = some reference ∧
      (insertRows reference 2 .before).run.run braidedRowsDocument = (.ok (some range), d') ∧
      (deleteRowInterval g 1 2).run.run d' = (.ok true, d'') ∧
      d''.outline? 1 = (braidedRowsDocument.outline? 1).map (·.cutGroup 1)) ∧
    ∃ d' d'', (insertColumn 1 (some 1)).run.run braidedRowsDocument = (.ok (), d') ∧
      (deleteColumn 1 2).run.run d' = (.ok true, d'') ∧
      d''.outline? 1 = braidedRowsDocument.outline? 1 := by
  have loaded : Loaded .standard braidedRows braidedRowsDocument 1 :=
    EditorAction.loaded_of_insertTable (by decide +kernel)
  have sound := loaded.sound (by decide +kernel)
  have count : braidedRowsDocument.columnCount 1 = 3 := by decide +kernel
  obtain ⟨o, ho, rows, columns⟩ := deletion_undoes_insertion sound.regular
  have group : (braidedRowsDocument.children 1)[1]? = some 10 := by decide +kernel
  have reference : (braidedRowsDocument.children 10)[1]? = some 21 := by decide +kernel
  obtain ⟨range, new, d', d'', run, -, -, -, run', outline⟩ :=
    rows 1 10 group 1 21 reference 2 .before (by decide)
  obtain ⟨c', c'', insert, delete, same⟩ := columns (some 1) fun c hc => by
    cases hc
    omega
  have pos : 0 < braidedRowsDocument.columnCount 1 := by omega
  rw [decide_eq_true pos] at delete
  rw [ho]
  exact ⟨sound.regular, ⟨10, 21, range, d', d'', group, reference, run, run', outline⟩, c', c'', insert,
    delete, same.2 (.inl pos)⟩

/-- A table without rows for which the width of a column is recorded. -/
def widthsOnly : TableOutline Int where
  columns := [.fixed 5]
  groups := []

/-- The document with the table of `widthsOnly`. -/
def widthsOnlyDocument : Document Int :=
  ((EditorAction.insertTable widthsOnly).run.run { config := .standard }).2.doc

/-- The outcome of inserting a column. -/
def widthsOnlyInserted : Except EditError Unit × Document Int :=
  (insertColumn 1 none).run.run widthsOnlyDocument

/-- The outcome of deleting it again. -/
def widthsOnlyDeleted : Except EditError Bool × Document Int :=
  (deleteColumn 1 0).run.run widthsOnlyInserted.2

/-- In a table without columns, an insertion records another width, and the deletion is refused. -/
theorem insertColumn_not_undone : widthsOnlyDocument.Regular 1 ∧
    widthsOnlyDocument.columnCount 1 = 0 ∧
    ∃ d' d'', (insertColumn 1 none).run.run widthsOnlyDocument = (.ok (), d') ∧
      (deleteColumn 1 0).run.run d' = (.ok false, d'') ∧
      d''.outline? 1 ≠ widthsOnlyDocument.outline? 1 := by
  have loaded : Loaded .standard widthsOnly widthsOnlyDocument 1 :=
    EditorAction.loaded_of_insertTable (by decide +kernel)
  have sound := loaded.sound (by decide +kernel)
  have inserted : widthsOnlyInserted.1 = .ok () := by decide +kernel
  have refused : widthsOnlyDeleted.1 = .ok false := by decide +kernel
  refine ⟨sound.regular, by decide +kernel, widthsOnlyInserted.2, widthsOnlyDeleted.2, ?_, ?_, ?_⟩
  · exact Prod.ext inserted rfl
  · exact Prod.ext refused rfl
  · decide +kernel

end Action

end RichTable
