import Mathlib
import RichTable.Selection.Range
import RichTable.Proofs.Tree.Calls
import RichTable.Proofs.Tree.Caret

/-!
# Selections read from either end

What a selection covers does not depend on which of its ends is the anchor. The two ends are treated
differently on the way: each is moved and folded by its own rule, the common ancestor is searched
upwards from the anchor, and a selection inside one cell is looked up from the anchor. In a
well-formed document a position lies in a node exactly if the node is an ancestor of the position's
holder (`WellFormed.holds_iff`), so the first common ancestor is the same from both sides, and
exchanging the ends exchanges the sides of the boundaries (`WellFormed.boundaries_comm`).
-/

namespace RichTable

/-- The boundaries with the ends exchanged. -/
def Boundaries.swap (b : Boundaries) : Boundaries where
  anchor := b.moving
  moving := b.anchor
  commonAncestor := b.commonAncestor

theorem Boundaries.crossesTable_swap (b : Boundaries) : b.swap.crossesTable = b.crossesTable :=
  Bool.or_comm _ _

theorem Boundaries.isNone_swap (b : Boundaries) : b.swap.isNone = b.isNone :=
  Bool.and_comm _ _

theorem Boundaries.cells?_swap (b : Boundaries) : b.swap.cells? = b.cells?.map Prod.swap := by
  rw [Boundaries.cells?, Boundaries.cells?, b.crossesTable_swap]
  split
  · rfl
  · have anchor : b.swap.anchor = b.moving := rfl
    have moving : b.swap.moving = b.anchor := rfl
    rw [anchor, moving]
    cases b.anchor.cell <;> cases b.moving.cell <;> rfl

namespace Document

variable {L : Type} {d : Document L}

/-! ## The first common ancestor -/

namespace WellFormed

/-- Behind the end of the document there is only the root. -/
theorem elementAt_of_lastOffset_lt (wf : d.WellFormed) {p : Nat} (h : d.lastOffset < p) :
    d.elementAt p = root := by
  rw [elementAt]
  cases d.size with
  | zero => rfl
  | succ fuel =>
    rw [descend]
    split_ifs
    · rfl
    · cases hc : d.childAt p (d.children root) 0 with
      | none => rfl
      | some found =>
        obtain ⟨pre, post, hsplit, hb, -, hp⟩ := childAt_eq_some hc
        have hle := wf.symbols_children_le root
        rw [hsplit, symbols_append, symbols_cons, symbolLength] at hle
        rw [lastOffset] at h
        omega

/-- The nodes that hold a position are the ancestors of its holder. -/
theorem holds_iff (wf : d.WellFormed) {p : Position} {n : NodeId} :
    d.holds p n = true ↔ n ∈ d.ancestors (d.holder p) := by
  rcases Nat.lt_or_ge d.lastOffset p.offset with hlt | hle
  · rw [holder, wf.elementAt_of_lastOffset_lt hlt,
      wf.ancestors_of_no_parent wf.root_lt_size wf.root_parent, List.mem_singleton, Document.holds]
    by_cases hn : n = root
    · simp [hn]
    · have outside : ¬ d.Holds n p.offset := fun h =>
        absurd (wf.le_lastOffset_of_holds h) (Nat.not_le.2 hlt)
      cases ho : d.contentStart? n with
      | none => simp [hn]
      | some o =>
        have : ¬ (o ≤ p.offset ∧ p.offset ≤ o + d.contentLength n) := fun h => outside ⟨o, ho, h⟩
        simpa [hn, ho, contentEnd?] using this
  · rw [holder, wf.mem_ancestors_elementAt hle, Document.holds]
    by_cases hn : n = root
    · subst hn
      simp [holds_root.2 hle]
    · cases ho : d.contentStart? n with
      | none => simp [hn, ho, Holds]
      | some o => simp [hn, contentEnd?, ho, Holds]

/-- The holder of a position is attached. -/
theorem root_mem_ancestors_holder (wf : d.WellFormed) (p : Position) :
    root ∈ d.ancestors (d.holder p) :=
  wf.holds_iff.1 (by simp [Document.holds])

/-- On the way up from one position there is a node that holds another. -/
theorem exists_common (wf : d.WellFormed) (a m : Position) :
    ∃ common, (d.ancestors (d.holder a)).find? (d.holds m) = some common := by
  rw [← Option.isSome_iff_exists, List.find?_isSome]
  exact ⟨root, wf.root_mem_ancestors_holder a, by simp [Document.holds]⟩

/-- What comes behind the first match on the way up is an ancestor of it. -/
theorem mem_ancestors_of_find? (wf : d.WellFormed) {p : NodeId → Bool} {x c n : NodeId}
    (h : (d.ancestors x).find? p = some c) (hn : n ∈ d.ancestors x) (hp : p n = true) :
    n ∈ d.ancestors c := by
  induction x using wf.induct_up with
  | top x hx =>
    have hs := lt_size_of_ancestor hn
    rw [wf.ancestors_of_no_parent hs hx] at h hn
    obtain rfl : c = x := List.mem_singleton.1 (List.mem_of_find?_eq_some h)
    rw [List.mem_singleton.1 hn]
    exact wf.self_mem_ancestors hs
  | step x q hx ih =>
    rw [wf.ancestors_of_parent hx] at h hn
    cases hpx : p x with
    | true =>
      rw [List.find?_cons_of_pos hpx, Option.some.injEq] at h
      rw [← h, wf.ancestors_of_parent hx]
      exact hn
    | false =>
      rw [List.find?_cons_of_neg (by simp [hpx])] at h
      refine ih h ((List.mem_cons.1 hn).resolve_left ?_)
      rintro rfl
      rw [hp] at hpx
      cases hpx

/-- The first common ancestor of two nodes is the same from both sides. -/
theorem find?_common_comm (wf : d.WellFormed) {p q : NodeId → Bool} {x y : NodeId}
    (hp : ∀ n, p n = true ↔ n ∈ d.ancestors y) (hq : ∀ n, q n = true ↔ n ∈ d.ancestors x) :
    (d.ancestors x).find? p = (d.ancestors y).find? q := by
  cases hx : (d.ancestors x).find? p with
  | none =>
    rw [List.find?_eq_none] at hx
    symm
    rw [List.find?_eq_none]
    intro n hn hqn
    exact hx n ((hq n).1 hqn) ((hp n).2 hn)
  | some c =>
    have hcx := List.mem_of_find?_eq_some hx
    have hcy := (hp c).1 (List.find?_some hx)
    have found : ((d.ancestors y).find? q).isSome := by
      rw [List.find?_isSome]
      exact ⟨c, hcy, (hq c).2 hcx⟩
    obtain ⟨c', hy⟩ := Option.isSome_iff_exists.1 found
    have hcy' := List.mem_of_find?_eq_some hy
    have hcx' := (hq c').1 (List.find?_some hy)
    have up := wf.mem_ancestors_of_find? hx hcx' ((hp c').2 hcy')
    have down := wf.mem_ancestors_of_find? hy hcy ((hq c).2 hcx)
    rw [hy, wf.ancestors_antisymm up down]

end WellFormed

/-! ## Exchanging the ends -/

theorem normalizedEnds_comm (a m : Position) :
    d.normalizedEnds m a = (d.normalizedEnds a m).swap := by
  unfold normalizedEnds
  rcases Nat.lt_trichotomy a.offset m.offset with h | h | h
  · simp [h, Nat.lt_asymm h]
  · simp [h]
  · simp [h, Nat.lt_asymm h]

/-- What `walkUp` does to a side. -/
theorem position_walkUp (id common : NodeId) (side : BoundarySide) :
    (d.walkUp id common side).position = side.position := by
  rw [walkUp]
  generalize (d.ancestors id).takeWhile (· != common) = l
  induction l generalizing side with
  | nil => rfl
  | cons n l ih =>
    rw [List.foldl_cons, ih]
    cases d.kind? n with
    | none => rfl
    | some k => cases k <;> rfl

/-- A side without a cell has left no cell. -/
theorem not_cell_of_foldl_record {l : List NodeId} {side : BoundarySide}
    (h : (l.foldl (fun side n => ((d.kind? n).map (side.record n)).getD side) side).cell = none) :
    side.cell = none ∧ ∀ n ∈ l, d.kind? n ≠ some .cell := by
  induction l generalizing side with
  | nil => exact ⟨h, by simp⟩
  | cons n l ih =>
    obtain ⟨first, rest⟩ := ih h
    simp only at first
    cases hk : d.kind? n with
    | none =>
      rw [hk] at first
      exact ⟨first, by simpa [hk] using rest⟩
    | some k =>
      rw [hk] at first
      cases k with
      | cell => cases first
      | _ => exact ⟨first, by simpa [hk] using rest⟩

namespace WellFormed

/-- A way up on which no cell is left ends inside the same cell. -/
theorem enclosing?_of_walkUp (wf : d.WellFormed) {x common : NodeId} {side : BoundarySide}
    (hx : common ∈ d.ancestors x) (h : (d.walkUp x common side).cell = none) :
    d.enclosing? x .cell = d.enclosing? common .cell := by
  obtain ⟨below, split, hn⟩ := wf.ancestors_suffix hx
  have self := wf.ancestors_eq (lt_size_of_mem_ancestors hx)
  have walk : (d.ancestors x).takeWhile (· != common) = below := by
    rw [split, self, List.takeWhile_append_of_pos, List.takeWhile_cons_of_neg (by simp),
      List.append_nil]
    intro n hnb
    simpa using fun e : n = common => hn (e ▸ hnb)
  rw [walkUp, walk] at h
  have none : below.find? (d.isKind · .cell) = none := List.find?_eq_none.2 fun n hnb hk =>
    (not_cell_of_foldl_record h).2 n hnb (isKind_iff.1 hk)
  rw [enclosing?, enclosing?, split, List.find?_append, none, Option.none_or]

/-- Exchanging the ends of a selection exchanges the sides of its boundaries. -/
theorem boundaries_comm (wf : d.WellFormed) (a m : Position) :
    d.boundaries m a = (d.boundaries a m).swap := by
  unfold boundaries
  rw [normalizedEnds_comm]
  generalize d.normalizedEnds a m = ends
  obtain ⟨a, m⟩ := ends
  have common := wf.find?_common_comm (p := d.holds m) (q := d.holds a) (x := d.holder a)
    (y := d.holder m) (fun _ => wf.holds_iff) fun _ => wf.holds_iff
  simp only [Prod.swap_prod_mk]
  rcases eq_or_ne (d.holder a) (d.holder m) with h | h
  · rw [if_pos h, if_pos h.symm]
    simp only [Boundaries.swap, h]
  · rw [if_neg h, if_neg h.symm, ← common]
    generalize d.walkUp (d.holder a) _ _ = sideA
    generalize d.walkUp (d.holder m) _ _ = sideM
    have cross := Boundaries.crossesTable_swap
      ⟨sideA, sideM, ((d.ancestors (d.holder a)).find? (d.holds m)).getD root⟩
    simp only [Boundaries.swap] at cross
    rw [cross]
    cases Boundaries.crossesTable ⟨sideA, sideM, _⟩ <;> rfl

/-- If the ends of a selection have left no cell, they are in the same cell, or in none. -/
theorem enclosing?_boundaries (wf : d.WellFormed) {a m : Position}
    (cross : (d.boundaries a m).crossesTable = false) (ha : (d.boundaries a m).anchor.cell = none)
    (hm : (d.boundaries a m).moving.cell = none) :
    d.enclosing? (d.holder (d.boundaries a m).anchor.position) .cell =
      d.enclosing? (d.holder (d.boundaries a m).moving.position) .cell := by
  unfold boundaries at cross ha hm ⊢
  generalize d.normalizedEnds a m = ends at cross ha hm ⊢
  obtain ⟨a, m⟩ := ends
  simp only at cross ha hm ⊢
  split_ifs at cross ha hm ⊢ with same h
  · rw [same]
  · cases cross.symm.trans h
  · rw [position_walkUp, position_walkUp]
    obtain ⟨common, hc⟩ := wf.exists_common a m
    rw [hc, Option.getD_some] at ha hm
    exact (wf.enclosing?_of_walkUp (List.mem_of_find?_eq_some hc) ha).trans
      (wf.enclosing?_of_walkUp (wf.holds_iff.1 (List.find?_some hc)) hm).symm

end WellFormed

/-- The ends of a selection that leaves a table are at different offsets. -/
theorem offset_ne_of_crossesTable {a m : Position} (cross : (d.boundaries a m).crossesTable = true) :
    (d.boundaries a m).anchor.position.offset ≠ (d.boundaries a m).moving.position.offset := by
  unfold boundaries at cross ⊢
  generalize d.normalizedEnds a m = ends at cross ⊢
  obtain ⟨a, m⟩ := ends
  simp only at cross ⊢
  have apart : d.holder a ≠ d.holder m → a.offset ≠ m.offset := fun h e => h (by rw [holder, e, holder])
  split_ifs at cross ⊢ with same h
  · cases cross
  · rw [position_walkUp, position_walkUp]
    exact apart same
  · exact absurd cross h

theorem columnBounds?_comm (a b : NodeId) : d.columnBounds? a b = d.columnBounds? b a := by
  unfold columnBounds?
  cases d.columnRange? a <;> cases d.columnRange? b <;>
    simp [ColumnRange.join, min_comm, max_comm]

/-- Two cells span the same columns in either order. -/
theorem columnBounds?_of_ends {x y a b : NodeId} (h : x = a ∧ y = b ∨ x = b ∧ y = a) :
    d.columnBounds? x y = d.columnBounds? a b := by
  rcases h with ⟨rfl, rfl⟩ | ⟨rfl, rfl⟩
  · rfl
  · exact columnBounds?_comm x y

theorem cellRange?_comm (a b : NodeId) : d.cellRange? a b = d.cellRange? b a := by
  unfold cellRange?
  cases ha : d.tableOfCell? a with
  | none => cases d.tableOfCell? b <;> rfl
  | some t =>
    cases hb : d.tableOfCell? b with
    | none => rfl
    | some u =>
      simp only [Option.bind_eq_bind, Option.bind_some]
      rcases eq_or_ne u t with rfl | hne
      · simp only [ne_eq, not_true_eq_false, if_false]
        cases d.tableRowIndex? u a with
        | none => cases d.tableRowIndex? u b <;> rfl
        | some i =>
          cases d.tableRowIndex? u b with
          | none => rfl
          | some j =>
            simp only [Option.bind_some, columnBounds?_comm a b, min_comm i j,
              max_comm (i + max (d.effectiveRowSpan a) 1 - 1)]
      · rw [if_pos hne, if_pos hne.symm]
        rfl

theorem crossTableSegment_comm {a m : Position} (h : a.offset ≠ m.offset)
    (rowA rowM : Option NodeId) :
    d.crossTableSegment a m rowA rowM = d.crossTableSegment m a rowM rowA := by
  unfold crossTableSegment
  rcases Nat.lt_or_gt_of_ne h with hlt | hlt
  · rw [if_pos hlt.le, if_neg (Nat.not_le.2 hlt)]
  · rw [if_neg (Nat.not_le.2 hlt), if_pos hlt.le]

namespace WellFormed

theorem boundaryCells?_comm (wf : d.WellFormed) (a m : Position) :
    d.boundaryCells? m a = (d.boundaryCells? a m).map Prod.swap := by
  unfold boundaryCells?
  rw [wf.boundaries_comm a m]
  simp only [Boundaries.crossesTable_swap]
  have inside := wf.enclosing?_boundaries (a := a) (m := m)
  generalize d.boundaries a m = b at inside ⊢
  cases hc : b.crossesTable with
  | true => rfl
  | false =>
    simp only [Bool.false_eq_true, if_false, Boundaries.swap]
    cases ha : b.anchor.cell with
    | none =>
      cases hm : b.moving.cell with
      | none =>
        simp only [inside hc ha hm, Option.map_map]
        rfl
      | some y => rfl
    | some x => cases b.moving.cell <;> rfl

theorem selectedRange?_comm (wf : d.WellFormed) (a m : Position) :
    d.selectedRange? m a = d.selectedRange? a m := by
  unfold selectedRange?
  rw [wf.boundaries_comm a m]
  have apart := offset_ne_of_crossesTable (d := d) (a := a) (m := m)
  generalize d.boundaries a m = b at apart ⊢
  simp only [Boundaries.isNone_swap, Boundaries.crossesTable_swap, Boundaries.cells?_swap]
  split
  · rfl
  · split
    · next cross => rw [crossTableSegment_comm (apart cross)]; rfl
    · cases b.cells? with
      | none => rfl
      | some pair => simp [cellRange?_comm pair.1]

end WellFormed

/-- What a selection covers does not depend on the direction it was dragged. -/
theorem selection_comm (wf : d.WellFormed) (a m : Position) :
    d.selectedRange? a m = d.selectedRange? m a ∧
      d.boundaryCells? m a = (d.boundaryCells? a m).map Prod.swap :=
  ⟨(wf.selectedRange?_comm a m).symm, wf.boundaryCells?_comm a m⟩

/-- A table of two cells, of which the first holds another such table. -/
def nestedTables : Document Int :=
  Call.runAll [.buildTable .standard root { groups := [[[{ text := "a" }, { text := "b" }]]] },
    .buildTable .standard 4 { groups := [[[{ text := "c" }, { text := "d" }]]] },
    .place 1, .place 10] .empty

/-- From the inner table to the second cell of the outer one, and back. -/
theorem selection_comm_nestedTables :
    nestedTables.WellFormed ∧
      nestedTables.boundaryCells? ⟨15, .forward⟩ ⟨33, .backward⟩ = some (4, 7) ∧
      nestedTables.selectedRange? ⟨15, .forward⟩ ⟨33, .backward⟩ =
        nestedTables.selectedRange? ⟨33, .backward⟩ ⟨15, .forward⟩ ∧
      nestedTables.boundaryCells? ⟨33, .backward⟩ ⟨15, .forward⟩ =
        (nestedTables.boundaryCells? ⟨15, .forward⟩ ⟨33, .backward⟩).map Prod.swap :=
  ⟨Call.wellFormed_runAll _, by decide +kernel, selection_comm (Call.wellFormed_runAll _) _ _⟩

end Document

end RichTable
