import Mathlib
import RichTable.Proofs.Selection.Ends

/-!
# The cells at the ends of a selection

The ends of a selection walk up to their lowest common ancestor and record what they leave. What
they have recorded in the end can be told from the tree (`WellFormed.leaves_some`): a cell, if the
common ancestor is between this cell and its table, and nothing, if no cell and no table was left.
So the cells of a selection are those that hold its ends: two cells of one table, or the innermost
cell of both ends.
-/

namespace RichTable.Document

variable {L : Type} {d : Document L} {t : NodeId}

/-! ## What is recorded on the way up -/

/-- Neither a cell nor a table. -/
def Plain (d : Document L) (n : NodeId) : Prop := d.kind? n ≠ some .cell ∧ d.kind? n ≠ some .table

/-- What one end has recorded after leaving some nodes, in this order. -/
def recorded (d : Document L) (l : List NodeId) (side : BoundarySide) : BoundarySide :=
  l.foldl (fun side n => ((d.kind? n).map (side.record n)).getD side) side

theorem recorded_cons (n : NodeId) (l : List NodeId) (side : BoundarySide) :
    d.recorded (n :: l) side = d.recorded l (((d.kind? n).map (side.record n)).getD side) := rfl

theorem recorded_nothing {l : List NodeId} {side : BoundarySide} :
    (d.recorded l side).table = none ∧ (d.recorded l side).cell = none ↔
      (side.table = none ∧ side.cell = none) ∧ ∀ n ∈ l, d.Plain n := by
  induction l generalizing side with
  | nil => simp [recorded]
  | cons n l ih =>
    rw [recorded_cons, ih, List.forall_mem_cons, ← and_assoc]
    refine and_congr_left' ?_
    rw [Plain]
    cases hk : d.kind? n with
    | none => simp
    | some k => cases k <;> simp [BoundarySide.record]

theorem recorded_cell {l : List NodeId} {side : BoundarySide} {c : NodeId} :
    (d.recorded l side).table = none ∧ (d.recorded l side).cell = some c ↔
      (∃ l₁ l₂, l = l₁ ++ c :: l₂ ∧ d.kind? c = some .cell ∧ ∀ n ∈ l₂, d.Plain n) ∨
        (side.table = none ∧ side.cell = some c) ∧ ∀ n ∈ l, d.Plain n := by
  induction l generalizing side with
  | nil => simp [recorded]
  | cons n l ih =>
    have first : (∃ l₁ l₂, n :: l = l₁ ++ c :: l₂ ∧ d.kind? c = some .cell ∧ ∀ n ∈ l₂, d.Plain n) ↔
        (∃ l₁ l₂, l = l₁ ++ c :: l₂ ∧ d.kind? c = some .cell ∧ ∀ n ∈ l₂, d.Plain n) ∨
          (n = c ∧ d.kind? c = some .cell) ∧ ∀ n ∈ l, d.Plain n := by
      constructor
      · rintro ⟨l₁, l₂, split, hk, plain⟩
        rcases List.cons_eq_append_iff.1 split with ⟨-, eq⟩ | ⟨l', -, rest⟩
        · obtain ⟨rfl, rfl⟩ := List.cons.inj eq
          exact .inr ⟨⟨rfl, hk⟩, plain⟩
        · exact .inl ⟨l', l₂, rest, hk, plain⟩
      · rintro (⟨l₁, l₂, rfl, hk, plain⟩ | ⟨⟨rfl, hk⟩, plain⟩)
        · exact ⟨n :: l₁, l₂, rfl, hk, plain⟩
        · exact ⟨[], l, rfl, hk, plain⟩
    rw [recorded_cons, ih, first, List.forall_mem_cons, or_assoc, ← and_assoc, ← or_and_right]
    refine or_congr_right (and_congr_left' ?_)
    rw [Plain]
    cases hk : d.kind? n with
    | none =>
      have other : ¬ (n = c ∧ d.kind? c = some .cell) := by
        rintro ⟨rfl, h⟩
        rw [hk] at h
        cases h
      simp [other]
    | some k =>
      rcases eq_or_ne n c with rfl | hne
      · cases k <;> simp [BoundarySide.record, hk]
      · cases k <;> simp [BoundarySide.record, hne]

/-- On its way up to `common`, the end at `p` leaves no table since the cell `c`, or neither a table nor
a cell at all. -/
def Leaves (d : Document L) (p : Position) (common : NodeId) (c : Option NodeId) : Prop :=
  (d.walkUp (d.holder p) common { position := p }).table = none ∧
    (d.walkUp (d.holder p) common { position := p }).cell = c

namespace WellFormed

theorem ancestors_of_split (wf : d.WellFormed) {n c : NodeId} {l₁ l₂ : List NodeId}
    (h : d.ancestors n = l₁ ++ c :: l₂) : d.ancestors c = c :: l₂ := by
  induction l₁ generalizing n with
  | nil =>
    have hn : n < d.size := lt_size_of_ancestor (a := c) (by simp [h])
    have self := wf.ancestors_eq hn
    rw [h, List.nil_append, List.cons.injEq] at self
    rw [self.1, h, self.1]
    rfl
  | cons y l₁ ih =>
    have hn : n < d.size := lt_size_of_ancestor (a := c) (by simp [h])
    have self := wf.ancestors_eq hn
    rw [h, List.cons_append, List.cons.injEq] at self
    cases hp : d.parent? n with
    | none => simp [hp] at self
    | some p => exact ih (n := p) (by simpa [hp] using self.2.symm)

/-- The part of a way up that is below one of its nodes. -/
theorem exists_walkUp_eq (wf : d.WellFormed) {n common : NodeId} (h : common ∈ d.ancestors n) :
    ∃ below, d.ancestors n = below ++ d.ancestors common ∧
      (∀ side, d.walkUp n common side = d.recorded below side) ∧
      ∀ x, x ∈ below ↔ x ∈ d.ancestors n ∧ x ∉ d.ancestors common := by
  obtain ⟨below, split, hn⟩ := wf.ancestors_suffix h
  have self := wf.ancestors_eq (lt_size_of_mem_ancestors h)
  have walk : (d.ancestors n).takeWhile (· != common) = below := by
    rw [split, self, List.takeWhile_append_of_pos, List.takeWhile_cons_of_neg (by simp),
      List.append_nil]
    intro x hx
    simpa using fun e : x = common => hn (e ▸ hx)
  refine ⟨below, split, fun side => by rw [walkUp, walk, recorded], fun x => ?_⟩
  have nodup := wf.nodup_ancestors n
  rw [split, List.nodup_append] at nodup
  rw [split, List.mem_append]
  constructor
  · exact fun hx => ⟨.inl hx, fun hx' => nodup.2.2 x hx x hx' rfl⟩
  · exact fun hx => hx.1.resolve_right hx.2

theorem leaves_none (wf : d.WellFormed) {p : Position} {common : NodeId}
    (h : common ∈ d.ancestors (d.holder p)) : d.Leaves p common none ↔
      ∀ x ∈ d.ancestors (d.holder p), x ∉ d.ancestors common → d.Plain x := by
  obtain ⟨below, -, walk, mem⟩ := wf.exists_walkUp_eq h
  rw [Leaves, walk, recorded_nothing]
  simp [mem]

/-- The cell that has been left last, if its table has not been left. -/
theorem leaves_some (wf : d.WellFormed) {p : Position} {common c : NodeId}
    (h : common ∈ d.ancestors (d.holder p)) : d.Leaves p common (some c) ↔
      (c ∈ d.ancestors (d.holder p) ∧ c ∉ d.ancestors common) ∧
        ∃ t, d.kind? t = some .table ∧ c ∈ d.tableCells t ∧ t ∈ d.ancestors common := by
  obtain ⟨below, split, walk, mem⟩ := wf.exists_walkUp_eq h
  rw [Leaves, walk, recorded_cell, ← mem]
  simp only [reduceCtorEq, and_false, false_and, or_false]
  constructor
  · rintro ⟨l₁, l₂, hb, hk, plain⟩
    have hc : c ∈ below := by simp [hb]
    have hcn := ((mem c).1 hc).1
    obtain ⟨t, ht, hct⟩ := wf.exists_table_of_cell hk
      (wf.attached_of_mem_ancestors (wf.root_mem_ancestors_holder p) hcn)
    refine ⟨hc, t, ht, hct, ?_⟩
    -- above `c` there is its table, which has not been left
    have whole : d.ancestors (d.holder p) = l₁ ++ c :: (l₂ ++ d.ancestors common) := by
      simp [split, hb]
    have up := wf.table_mem_ancestors ht hct
    rw [wf.ancestors_of_split whole, List.mem_cons, List.mem_append] at up
    rcases up with rfl | up | up
    · rw [hk] at ht
      cases ht
    · exact absurd ht (plain t up).2
    · exact up
  · rintro ⟨hc, t, ht, hct, htc⟩
    obtain ⟨l₁, l₂, hb⟩ := List.append_of_mem hc
    refine ⟨l₁, l₂, hb, wf.kind_tableCells ht hct, fun x hx => ?_⟩
    -- between `c` and `common` there are at most the row and the row group of `c`
    have whole : d.ancestors (d.holder p) = l₁ ++ c :: (l₂ ++ d.ancestors common) := by
      simp [split, hb]
    obtain ⟨row, g, -, hrg, hgt, up⟩ := wf.ancestors_tableCells hct
    have hg := wf.kind_group ht hgt
    have hmem : x ∈ row :: g :: d.ancestors t := by
      rw [← (List.cons.inj ((wf.ancestors_of_split whole).symm.trans up)).2]
      exact List.mem_append_left _ hx
    rcases List.mem_cons.1 hmem with rfl | hmem
    · simp [Plain, wf.kind_row hg hrg]
    rcases List.mem_cons.1 hmem with rfl | hmem
    · simp [Plain, hg]
    · exact absurd (wf.mem_ancestors_trans hmem htc) ((mem x).1 (by simp [hb, hx])).2

end WellFormed

/-! ## The lowest common ancestor -/

/-- `c` is above `x` and above `y`, and no lower node is. -/
structure LowestAbove (d : Document L) (x y c : NodeId) : Prop where
  left : c ∈ d.ancestors x
  right : c ∈ d.ancestors y
  lowest : ∀ n, n ∈ d.ancestors x → n ∈ d.ancestors y → n ∈ d.ancestors c

/-- Where the ways up from two positions meet. -/
def meeting (d : Document L) (a m : Position) : NodeId :=
  ((d.ancestors (d.holder a)).find? (d.holds m)).getD root

theorem position_boundaries (anchor moving : Position) :
    (d.boundaries anchor moving).anchor.position = (d.normalizedEnds anchor moving).1 ∧
      (d.boundaries anchor moving).moving.position = (d.normalizedEnds anchor moving).2 := by
  unfold boundaries
  generalize d.normalizedEnds anchor moving = ends
  obtain ⟨a, m⟩ := ends
  simp only
  split_ifs <;> simp [position_walkUp]

namespace WellFormed

theorem lowestAbove_meeting (wf : d.WellFormed) (a m : Position) :
    d.LowestAbove (d.holder a) (d.holder m) (d.meeting a m) := by
  obtain ⟨common, hc⟩ := wf.exists_common a m
  rw [meeting, hc, Option.getD_some]
  exact ⟨List.mem_of_find?_eq_some hc, wf.holds_iff.1 (List.find?_some hc),
    fun n hx hy => wf.mem_ancestors_of_find? hc hx (wf.holds_iff.2 hy)⟩

/-- Ends in the same element meet there. -/
theorem meeting_eq_holder (wf : d.WellFormed) {a m : Position} (same : d.holder a = d.holder m) :
    d.meeting a m = d.holder a := by
  have low := wf.lowestAbove_meeting a m
  have self := wf.self_mem_ancestors (lt_size_of_ancestor low.left)
  exact wf.ancestors_antisymm low.left (low.lowest _ self (same ▸ self))

theorem commonAncestor_boundaries (wf : d.WellFormed) (anchor moving : Position) :
    (d.boundaries anchor moving).commonAncestor =
      d.meeting (d.normalizedEnds anchor moving).1 (d.normalizedEnds anchor moving).2 := by
  unfold boundaries
  generalize d.normalizedEnds anchor moving = ends
  obtain ⟨a, m⟩ := ends
  simp only
  split_ifs with same
  · exact (wf.meeting_eq_holder same).symm
  · rfl
  · rfl

/-- The pairs that a selection may answer, by what the two walks have recorded. -/
theorem boundaryCells?_eq_some (wf : d.WellFormed) {anchor moving a m : Position}
    (ends : d.normalizedEnds anchor moving = (a, m)) {x y : NodeId} :
    d.boundaryCells? anchor moving = some (x, y) ↔
      d.Leaves a (d.meeting a m) (some x) ∧ d.Leaves m (d.meeting a m) (some y) ∨
      (d.Leaves a (d.meeting a m) none ∧ d.Leaves m (d.meeting a m) none) ∧
        d.enclosing? (d.holder a) .cell = some x ∧ x = y := by
  have up := wf.lowestAbove_meeting a m
  have stays : ∀ n p, n < d.size → d.walkUp n n { position := p } = { position := p } := by
    intro n p hn
    rw [walkUp, wf.ancestors_eq hn, List.takeWhile_cons_of_neg (by simp), List.foldl_nil]
  have twice : ∀ o : Option NodeId, o.map (fun c => (c, c)) = some (x, y) ↔ o = some x ∧ x = y := by
    intro o
    cases o with
    | none => simp
    | some c =>
      simp only [Option.map_some, Option.some.injEq, Prod.mk.injEq]
      exact and_congr_right fun h => by rw [h]
  unfold boundaryCells? boundaries Leaves
  rw [ends]
  by_cases same : d.holder a = d.holder m
  · have hlt := lt_size_of_ancestor up.left
    simp only [if_pos same]
    rw [wf.meeting_eq_holder same, ← same, stays _ _ hlt, stays _ _ hlt]
    simp [Boundaries.crossesTable, twice]
  · have position := position_walkUp (d := d) (d.holder a) (d.meeting a m) { position := a }
    simp only [if_neg same]
    rw [← meeting]
    generalize d.walkUp (d.holder a) (d.meeting a m) { position := a } = s at position ⊢
    generalize d.walkUp (d.holder m) (d.meeting a m) { position := m } = s'
    obtain ⟨p, cell, row, group, table⟩ := s
    obtain ⟨p', cell', row', group', table'⟩ := s'
    cases position
    cases table with
    | some _ => simp [Boundaries.crossesTable]
    | none =>
      cases table' with
      | some _ => simp [Boundaries.crossesTable]
      | none => cases cell <;> cases cell' <;> simp [Boundaries.crossesTable, twice]

/-! ## Two cells of one table -/

/-- What is above a cell is above its table, its row and its row group apart. -/
theorem mem_ancestors_table (wf : d.WellFormed) (ht : d.kind? t = some .table) {c n : NodeId}
    {k : Kind} (hc : c ∈ d.tableCells t) (hn : n ∈ d.ancestors c) (hk : d.kind? n = some k)
    (hne : n ≠ c) (other : k = .cell ∨ k = .table) : n ∈ d.ancestors t := by
  obtain ⟨row, g, -, hrg, hgt, up⟩ := wf.ancestors_tableCells hc
  have hg := wf.kind_group ht hgt
  rw [up, List.mem_cons, List.mem_cons, List.mem_cons] at hn
  rcases hn with rfl | rfl | rfl | hn
  · exact absurd rfl hne
  · rw [wf.kind_row hg hrg, Option.some.injEq] at hk
    simp [← hk] at other
  · rw [hg, Option.some.injEq] at hk
    simp [← hk] at other
  · exact hn

/-- No offset is in two cells of a table. -/
theorem eq_of_holds (wf : d.WellFormed) {a b : NodeId} {p : Nat} (ha : a ∈ d.tableCells t)
    (hb : b ∈ d.tableCells t) (hap : d.Holds a p) (hbp : d.Holds b p) : a = b :=
  wf.holds_unique hap hbp (by rw [wf.depth_tableCells ha, wf.depth_tableCells hb])

/-- A selection answers two cells exactly if they are cells of one table that hold its ends. -/
theorem boundaryCells?_eq_distinct (wf : d.WellFormed) {anchor moving a m : Position}
    (ends : d.normalizedEnds anchor moving = (a, m)) {x y : NodeId} (hne : x ≠ y) :
    d.boundaryCells? anchor moving = some (x, y) ↔ ∃ t, d.Separated t x y a.offset m.offset := by
  have low := wf.lowestAbove_meeting a m
  rw [wf.boundaryCells?_eq_some ends, wf.leaves_some low.left, wf.leaves_some low.right]
  have holds : ∀ {t c p}, d.kind? t = some .table → c ∈ d.tableCells t →
      (c ∈ d.ancestors (d.holder p) ↔ d.Holds c p.offset) := fun ht hc =>
    wf.cell_mem_ancestors_holder (wf.kind_tableCells ht hc)
  constructor
  · rintro (⟨⟨hx, t, ht, hxt, htm⟩, hy, u, hu, hyu, hum⟩ | ⟨-, -, hxy⟩)
    · -- each of the two tables is above the cell of the other
      have up : ∀ {c n t u}, d.kind? t = some .table → d.kind? u = some .table → c ∈ d.tableCells t →
          c ∈ d.ancestors n → c ∉ d.ancestors (d.meeting a m) → d.meeting a m ∈ d.ancestors n →
          u ∈ d.ancestors (d.meeting a m) → u ∈ d.ancestors t := fun ht hu hc hn hout hm hum => by
        have above := (wf.mem_ancestors_or hn hm).resolve_left hout
        refine wf.mem_ancestors_table ht hc (wf.mem_ancestors_trans hum above) hu ?_ (.inr rfl)
        rintro rfl
        rw [wf.kind_tableCells ht hc] at hu
        cases hu
      obtain rfl := wf.ancestors_antisymm (up hu ht hyu hy.1 hy.2 low.right htm)
        (up ht hu hxt hx.1 hx.2 low.left hum)
      exact ⟨t, ht, hxt, hyu, hne, (holds ht hxt).1 hx.1, (holds hu hyu).1 hy.1⟩
    · exact absurd hxy hne
  · rintro ⟨t, ht, hxt, hyt, -, hxa, hym⟩
    have hx := (holds ht hxt).2 hxa
    have hy := (holds ht hyt).2 hym
    have table := low.lowest t (wf.mem_ancestors_trans (wf.table_mem_ancestors ht hxt) hx)
      (wf.mem_ancestors_trans (wf.table_mem_ancestors ht hyt) hy)
    refine .inl ⟨⟨⟨hx, fun h => hne ?_⟩, t, ht, hxt, table⟩, ⟨hy, fun h => hne ?_⟩, t, ht, hyt, table⟩
    · exact wf.eq_of_holds hxt hyt ((holds ht hxt).1 (wf.mem_ancestors_trans h low.right)) hym
    · exact wf.eq_of_holds hxt hyt hxa ((holds ht hyt).1 (wf.mem_ancestors_trans h low.left))

end WellFormed

/-! ## One cell -/

/-- `c` is the innermost cell that holds an offset. -/
structure InnermostCell (d : Document L) (p : Nat) (c : NodeId) : Prop where
  kind : d.kind? c = some .cell
  holds : d.Holds c p
  inner : ∀ b, d.kind? b = some .cell → d.Holds b p → b ∈ d.ancestors c

namespace WellFormed

theorem innermostCell_iff_enclosing? (wf : d.WellFormed) {p : Position} {c : NodeId} :
    d.InnermostCell p.offset c ↔ d.enclosing? (d.holder p) .cell = some c := by
  have holds := fun {b} => wf.cell_mem_ancestors_holder (c := b) (p := p)
  constructor
  · rintro ⟨kind, hc, inner⟩
    have found : (d.enclosing? (d.holder p) .cell).isSome := by
      rw [enclosing?, List.find?_isSome]
      exact ⟨c, (holds kind).2 hc, isKind_iff.2 kind⟩
    obtain ⟨b, hb⟩ := Option.isSome_iff_exists.1 found
    have up := List.mem_of_find?_eq_some hb
    have kind' := isKind_iff.1 (List.find?_some (p := (d.isKind · .cell)) hb)
    have below := wf.mem_ancestors_of_find? hb ((holds kind).2 hc) (isKind_iff.2 kind)
    rw [hb, wf.ancestors_antisymm (inner b kind' ((holds kind').1 up)) below]
  · intro h
    have kind := isKind_iff.1 (List.find?_some (p := (d.isKind · .cell)) h)
    exact ⟨kind, (holds kind).1 (List.mem_of_find?_eq_some h), fun b hb hp =>
      wf.mem_ancestors_of_find? h ((holds hb).2 hp) (isKind_iff.2 hb)⟩

/-- A selection between places for the caret answers one cell exactly if it is the innermost cell of
both ends. -/
theorem boundaryCells?_eq_same (wf : d.WellFormed) {anchor moving a m : Position}
    (ends : d.normalizedEnds anchor moving = (a, m)) (ha : d.isCaretOffset a.offset = true)
    (hm : d.isCaretOffset m.offset = true) {c : NodeId} :
    d.boundaryCells? anchor moving = some (c, c) ↔
      d.InnermostCell a.offset c ∧ d.InnermostCell m.offset c := by
  have low := wf.lowestAbove_meeting a m
  rw [wf.boundaryCells?_eq_some ends, wf.leaves_some low.left, wf.leaves_some low.right,
    wf.leaves_none low.left, wf.leaves_none low.right, ← wf.innermostCell_iff_enclosing?]
  have holds := fun {b p} => wf.cell_mem_ancestors_holder (c := b) (p := p)
  constructor
  · rintro (⟨⟨hx, -⟩, hy, -⟩ | ⟨⟨plainA, plainM⟩, inner, -⟩)
    · exact absurd (low.lowest c hx.1 hy.1) hx.2
    · -- no cell was left, so the cells of both ends are those of the meeting point
      have shared : ∀ {b n}, d.kind? b = some .cell → b ∈ d.ancestors n →
          (∀ x ∈ d.ancestors n, x ∉ d.ancestors (d.meeting a m) → d.Plain x) →
          b ∈ d.ancestors (d.meeting a m) := fun hb hbn plain => by
        by_contra h
        exact (plain _ hbn h).1 hb
      have hc := shared inner.kind ((holds inner.kind).2 inner.holds) plainA
      refine ⟨inner, inner.kind, (holds inner.kind).1 (wf.mem_ancestors_trans hc low.right), ?_⟩
      intro b hb hbm
      have hb' := shared hb ((holds hb).2 hbm) plainM
      exact inner.inner b hb ((holds hb).1 (wf.mem_ancestors_trans hb' low.left))
  · rintro ⟨innerA, innerM⟩
    have hc := low.lowest c ((holds innerA.kind).2 innerA.holds) ((holds innerM.kind).2 innerM.holds)
    -- a table that was left would have a cell around the caret, and that cell would be left too
    have plain : ∀ {p : Position}, d.InnermostCell p.offset c → d.isCaretOffset p.offset = true →
        ∀ x ∈ d.ancestors (d.holder p), x ∉ d.ancestors (d.meeting a m) → d.Plain x := by
      intro p inner caret x hx hout
      have cells : ∀ {b}, d.kind? b = some .cell → b ∈ d.ancestors (d.holder p) →
          b ∈ d.ancestors (d.meeting a m) := fun hb hbp =>
        wf.mem_ancestors_trans (inner.inner _ hb ((holds hb).1 hbp)) hc
      refine ⟨fun hk => hout (cells hk hx), fun hk => hout ?_⟩
      have host : d.hostsCaret (d.holder p) = true := by
        rw [isCaretOffset, Bool.and_eq_true] at caret
        exact caret.2
      obtain ⟨b, hb, hbp⟩ := wf.exists_cell_of_table hk host hx
      exact wf.mem_ancestors_trans (wf.table_mem_ancestors hk hb)
        (cells (wf.kind_tableCells hk hb) hbp)
    exact .inr ⟨⟨plain innerA ha, plain innerM hm⟩, innerA, rfl⟩

end WellFormed

/-- The cells of a selection are those that hold its ends: two cells of one table, or the innermost
cell of both ends. Any other selection has none. -/
theorem selection_containment (wf : d.WellFormed) (caret : ∃ p, d.isCaret p = true)
    (anchor moving : Position) :
    let b := d.boundaries anchor moving
    d.LowestAbove (d.holder b.anchor.position) (d.holder b.moving.position) b.commonAncestor ∧
    (∀ x y, x ≠ y → (d.boundaryCells? anchor moving = some (x, y) ↔
      ∃ t, d.Separated t x y b.anchor.position.offset b.moving.position.offset)) ∧
    ∀ c, d.boundaryCells? anchor moving = some (c, c) ↔
      d.InnermostCell b.anchor.position.offset c ∧ d.InnermostCell b.moving.position.offset c := by
  obtain ⟨o, caret⟩ := caret
  obtain ⟨ha, hm⟩ := wf.caret_normalizedEnds caret anchor moving
  intro b
  rw [wf.commonAncestor_boundaries, (position_boundaries anchor moving).1,
    (position_boundaries anchor moving).2]
  exact ⟨wf.lowestAbove_meeting _ _, fun x y hne => wf.boundaryCells?_eq_distinct rfl hne,
    fun c => wf.boundaryCells?_eq_same rfl ha hm⟩

/-- From the inner table to the second cell of the outer one, and inside a cell of the inner table. -/
theorem selection_containment_nestedTables :
    nestedTables.WellFormed ∧ nestedTables.isCaret ⟨15, .forward⟩ = true ∧
      nestedTables.boundaryCells? ⟨15, .forward⟩ ⟨33, .backward⟩ = some (4, 7) ∧
      (∃ t, nestedTables.Separated t 4 7 15 33) ∧
      nestedTables.boundaryCells? ⟨14, .forward⟩ ⟨18, .backward⟩ = some (13, 13) ∧
      nestedTables.InnermostCell 15 13 ∧ nestedTables.InnermostCell 16 13 := by
  have wf : nestedTables.WellFormed := Call.wellFormed_runAll _
  have caret : nestedTables.isCaret ⟨15, .forward⟩ = true := by decide +kernel
  have two : nestedTables.boundaryCells? ⟨15, .forward⟩ ⟨33, .backward⟩ = some (4, 7) := by
    decide +kernel
  have one : nestedTables.boundaryCells? ⟨14, .forward⟩ ⟨18, .backward⟩ = some (13, 13) := by
    decide +kernel
  have ends : (nestedTables.boundaries ⟨15, .forward⟩ ⟨33, .backward⟩).anchor.position.offset = 15 ∧
      (nestedTables.boundaries ⟨15, .forward⟩ ⟨33, .backward⟩).moving.position.offset = 33 ∧
      (nestedTables.boundaries ⟨14, .forward⟩ ⟨18, .backward⟩).anchor.position.offset = 15 ∧
      (nestedTables.boundaries ⟨14, .forward⟩ ⟨18, .backward⟩).moving.position.offset = 16 := by
    decide +kernel
  have cells := ((selection_containment wf ⟨_, caret⟩ _ _).2.1 4 7 (by decide)).1 two
  have inner := ((selection_containment wf ⟨_, caret⟩ _ _).2.2 13).1 one
  rw [ends.1, ends.2.1] at cells
  rw [ends.2.2.1, ends.2.2.2] at inner
  exact ⟨wf, caret, two, cells, one, inner⟩

end RichTable.Document
