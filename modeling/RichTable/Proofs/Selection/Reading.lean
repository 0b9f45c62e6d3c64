import Mathlib
import RichTable.Proofs.Selection.Ends

/-!
# Reading order

From a cell one can go to the next and to the previous cell of its row group, over the ends of rows and
over rows without cells. Each of the two undoes the other, and going on from the first cell of a group
visits the cells of the group one after the other, in the order of the document (`reading_order`). Both
follow from the list of all cells of the group, in which the next cell is the next entry.
-/

namespace RichTable.Document

variable {L : Type} {d : Document L} {g : NodeId}

/-- The first cell of a row group, in the first row that has a cell. -/
def firstCell? (d : Document L) (g : NodeId) : Option NodeId :=
  (d.children g).findSome? fun row => (d.children row).head?

/-- The cell that is reached after `n` steps to the next cell, from the first cell of a row group. -/
def visited (d : Document L) (g : NodeId) : Nat → Option NodeId
  | 0 => d.firstCell? g
  | n + 1 => (d.visited g n).bind d.nextCell?

/-- `x` is before `y` in the tree: of two siblings, the elder is above `x` and the younger above `y`, or
they are `x` and `y` themselves. -/
def ComesBefore (d : Document L) (x y : NodeId) : Prop :=
  ∃ p a b, [a, b].Sublist (d.children p) ∧ a ∈ d.ancestors x ∧ b ∈ d.ancestors y

namespace WellFormed

/-! ## Order in the tree -/

/-- In an attached tree, the order of the tree is that of offsets. -/
theorem endsBefore_of_comesBefore (wf : d.WellFormed) {x y : NodeId} (h : d.ComesBefore x y)
    (attached : root ∈ d.ancestors x) : d.EndsBefore x y := by
  obtain ⟨p, a, b, siblings, ha, hb⟩ := h
  have parent : d.parent? a = some p := wf.mem_children.1 (siblings.subset (by simp))
  have up := wf.attached_of_mem_ancestors attached (wf.parent_mem_ancestors ha parent)
  have apart := List.pairwise_iff_forall_sublist.1 (wf.pairwise_children up) siblings
  exact wf.endsBefore_below apart ha hb

/-- The cells of a row group are listed in the order of the tree. -/
theorem comesBefore_rowsOf (wf : d.WellFormed) (g : NodeId) :
    (d.rowsOf g).flatten.Pairwise d.ComesBefore := by
  have self : ∀ {p c : NodeId}, c ∈ d.children p → c ∈ d.ancestors c := fun hc =>
    wf.self_mem_ancestors (wf.lt_size_child hc)
  refine List.pairwise_flatMap.2 ⟨fun row _ => ?_, ?_⟩
  · refine List.pairwise_iff_forall_sublist.2 fun {a b} siblings => ⟨row, a, b, siblings, ?_, ?_⟩
    · exact self (siblings.subset (by simp))
    · exact self (siblings.subset (by simp))
  · refine List.pairwise_iff_forall_sublist.2 fun {a b} siblings x hx y hy => ?_
    exact ⟨g, a, b, siblings, wf.mem_ancestors_of_mem_children hx, wf.mem_ancestors_of_mem_children hy⟩

/-! ## The next and the previous cell -/

theorem mem_flatten_rowsOf (wf : d.WellFormed) {c : NodeId} :
    c ∈ (d.rowsOf g).flatten ↔ (d.parent? c).bind d.parent? = some g := by
  simp only [flatten_rowsOf, List.mem_flatMap, wf.mem_children, Option.bind_eq_some_iff, and_comm]

/-- Going to the next cell does not leave the row group. -/
theorem group_nextCell? (wf : d.WellFormed) {p c : NodeId} (h : d.nextCell? p = some c) :
    (d.parent? c).bind d.parent? = (d.parent? p).bind d.parent? := by
  simp only [nextCell?, Option.bind_eq_bind, Option.bind_eq_some_iff] at h
  obtain ⟨row, hrow, i, -, h⟩ := h
  have up : d.parent? p = some row := (Option.filter_eq_some_iff.1 hrow).1
  split at h
  · next next hnext =>
    obtain rfl := Option.some.inj h
    rw [up, wf.mem_children.1 (List.mem_of_getElem? hnext)]
  · obtain ⟨group, hgroup, h⟩ := Option.bind_eq_some_iff.1 h
    obtain ⟨r, -, h⟩ := Option.bind_eq_some_iff.1 h
    obtain ⟨below, hbelow, hc⟩ := List.exists_of_findSome?_eq_some h
    rw [up, wf.mem_children.1 (List.mem_of_head? hc), Option.bind_some, Option.bind_some,
      wf.mem_children.1 (List.mem_of_mem_drop hbelow), (Option.filter_eq_some_iff.1 hgroup).1]

/-- Going to the previous cell does not leave the row group. -/
theorem group_previousCell? (wf : d.WellFormed) {p c : NodeId} (h : d.previousCell? c = some p) :
    (d.parent? p).bind d.parent? = (d.parent? c).bind d.parent? := by
  simp only [previousCell?, Option.bind_eq_bind, Option.bind_eq_some_iff] at h
  obtain ⟨row, hrow, i, -, h⟩ := h
  have up : d.parent? c = some row := (Option.filter_eq_some_iff.1 hrow).1
  split at h
  · rw [up, wf.mem_children.1 (List.mem_of_getElem? h)]
  · obtain ⟨group, hgroup, h⟩ := Option.bind_eq_some_iff.1 h
    obtain ⟨r, -, h⟩ := Option.bind_eq_some_iff.1 h
    obtain ⟨above, habove, hp⟩ := List.exists_of_findSome?_eq_some h
    rw [up, wf.mem_children.1 (List.mem_of_getLast? hp), Option.bind_some, Option.bind_some,
      wf.mem_children.1 (List.mem_of_mem_take (List.mem_reverse.1 habove)),
      (Option.filter_eq_some_iff.1 hgroup).1]

/-- Wherever a cell stands in the list of its group, its neighbours there are the previous and the next
cell. -/
theorem around (wf : d.WellFormed) (hg : d.kind? g = some .rowGroup) {c : NodeId}
    {pre post : List NodeId} (list : (d.rowsOf g).flatten = pre ++ c :: post) :
    d.previousCell? c = pre.getLast? ∧ d.nextCell? c = post.head? := by
  obtain ⟨row, hr, hc⟩ := List.mem_flatMap.1 (show c ∈ (d.children g).flatMap d.children by
    rw [← flatten_rowsOf, list]
    simp)
  obtain ⟨pre', post', list', previous, next⟩ := wf.exists_around hg hr hc
  have nodup := wf.nodup_rowsOf g
  rw [list', List.nodup_middle, List.nodup_cons, List.mem_append, not_or] at nodup
  obtain ⟨rfl, -, rfl⟩ := (List.append_cons_inj_of_notMem nodup.1.1 nodup.1.2).1 (list'.symm.trans list)
  exact ⟨previous, next⟩

theorem previousCell?_iff (wf : d.WellFormed) (hg : d.kind? g = some .rowGroup) {c p : NodeId}
    (mem : c ∈ (d.rowsOf g).flatten ∨ p ∈ (d.rowsOf g).flatten) :
    d.previousCell? c = some p ↔ d.nextCell? p = some c := by
  constructor
  · intro h
    have hc : c ∈ (d.rowsOf g).flatten := mem.elim id fun hp => by
      rwa [wf.mem_flatten_rowsOf, wf.group_previousCell? h, ← wf.mem_flatten_rowsOf] at hp
    obtain ⟨pre, post, list⟩ := List.append_of_mem hc
    obtain ⟨rest, rfl⟩ := List.getLast?_eq_some_iff.1 ((wf.around hg list).1.symm.trans h)
    rw [List.append_assoc] at list
    exact (wf.around hg list).2
  · intro h
    have hp : p ∈ (d.rowsOf g).flatten := mem.elim (fun hc => by
      rwa [wf.mem_flatten_rowsOf, wf.group_nextCell? h, ← wf.mem_flatten_rowsOf] at hc) id
    obtain ⟨pre, post, list⟩ := List.append_of_mem hp
    obtain ⟨rest, rfl⟩ := List.head?_eq_some_iff.1 ((wf.around hg list).2.symm.trans h)
    rw [List.append_cons] at list
    rw [(wf.around hg list).1, List.getLast?_concat]

/-- After `n` steps one is at entry `n` of the list of all cells, or behind its end. -/
theorem visited_eq (wf : d.WellFormed) (hg : d.kind? g = some .rowGroup) (n : Nat) :
    d.visited g n = (d.rowsOf g).flatten[n]? := by
  induction n with
  | zero => rw [visited, firstCell?, ← List.head?_eq_getElem?, flatten_rowsOf, List.head?_flatMap]
  | succ n ih =>
    rw [visited, ih]
    rcases Nat.lt_or_ge n (d.rowsOf g).flatten.length with hn | hn
    · have list := (List.take_append_drop n (d.rowsOf g).flatten).symm
      rw [List.drop_eq_getElem_cons hn] at list
      rw [List.getElem?_eq_getElem hn, Option.bind_some, (wf.around hg list).2, List.head?_drop]
    · rw [List.getElem?_eq_none hn, List.getElem?_eq_none (Nat.le_succ_of_le hn), Option.bind_none]

end WellFormed

/-- The previous and the next cell undo each other. Going on from the first cell of a row group visits
every cell of the group once, in the order of the document, and then ends. -/
theorem reading_order (wf : d.WellFormed) (hg : d.kind? g = some .rowGroup) :
    (∀ row ∈ d.children g, ∀ c ∈ d.children row, ∀ b,
      (d.previousCell? c = some b ↔ d.nextCell? b = some c) ∧
      (d.nextCell? c = some b ↔ d.previousCell? b = some c)) ∧
    (∀ c, (∃ row ∈ d.children g, c ∈ d.children row) ↔ ∃! n, d.visited g n = some c) ∧
    (∀ m n b c, d.visited g m = some b → d.visited g n = some c → m < n →
      d.ComesBefore b c ∧ (d.isAttached g = true → d.Precedes b c)) ∧
    ∀ n, d.visited g n = none ↔ ((d.children g).map fun row => (d.children row).length).sum ≤ n := by
  have nodup := wf.nodup_rowsOf g
  refine ⟨fun row hr c hc b => ?_, fun c => ?_, fun m n b c hb hc hlt => ?_, fun n => ?_⟩
  · have mem : c ∈ (d.rowsOf g).flatten := List.mem_flatMap.2 ⟨row, hr, hc⟩
    exact ⟨wf.previousCell?_iff hg (.inl mem), (wf.previousCell?_iff hg (.inr mem)).symm⟩
  · rw [← List.mem_flatMap, ← flatten_rowsOf]
    simp only [wf.visited_eq hg]
    constructor
    · intro hc
      obtain ⟨n, hn⟩ := List.getElem?_of_mem hc
      refine ⟨n, hn, fun m hm => ?_⟩
      exact (List.getElem?_inj (List.getElem?_eq_some_iff.1 hm).1 nodup).1 (hm.trans hn.symm)
    · rintro ⟨n, hn, -⟩
      exact List.mem_of_getElem? hn
  · rw [wf.visited_eq hg] at hb hc
    obtain ⟨hm, rfl⟩ := List.getElem?_eq_some_iff.1 hb
    obtain ⟨hn, rfl⟩ := List.getElem?_eq_some_iff.1 hc
    have before := List.pairwise_iff_getElem.1 (wf.comesBefore_rowsOf g) m n hm hn hlt
    refine ⟨before, fun attached => (wf.endsBefore_of_comesBefore before ?_).precedes⟩
    exact wf.mem_ancestors_trans (wf.isAttached_iff.1 attached)
      (wf.group_mem_ancestors (List.mem_of_getElem? hb))
  · rw [wf.visited_eq hg, List.getElem?_eq_none_iff, List.length_flatten, rowsOf, List.map_map]
    rfl

/-- A row group with rows that have no cells. -/
def sparseRows : Document Int :=
  Call.runAll [.buildTable .standard root
    { groups := [[[], [{ text := "a" }, { text := "b" }], [], [], [{ text := "c" }], []]] }] .empty

/-- From the second cell to the third over two empty rows, and back. -/
theorem reading_order_sparseRows :
    sparseRows.WellFormed ∧ sparseRows.kind? 2 = some .rowGroup ∧ sparseRows.isAttached 2 = true ∧
      sparseRows.visited 2 1 = some 8 ∧ sparseRows.visited 2 2 = some 14 ∧
      sparseRows.nextCell? 8 = some 14 ∧ sparseRows.previousCell? 14 = some 8 ∧
      sparseRows.Precedes 8 14 ∧ sparseRows.visited 2 3 = none := by
  have wf : sparseRows.WellFormed := Call.wellFormed_runAll _
  have facts : sparseRows.kind? 2 = some .rowGroup ∧ sparseRows.isAttached 2 = true ∧
      sparseRows.visited 2 1 = some 8 ∧ sparseRows.visited 2 2 = some 14 ∧
      4 ∈ sparseRows.children 2 ∧ 8 ∈ sparseRows.children 4 ∧ sparseRows.nextCell? 8 = some 14 ∧
      ((sparseRows.children 2).map fun row => (sparseRows.children row).length).sum ≤ 3 := by
    decide +kernel
  obtain ⟨kind, attached, second, third, row, cell, next, count⟩ := facts
  obtain ⟨inverse, -, order, ending⟩ := reading_order wf kind
  exact ⟨wf, kind, attached, second, third, next, (inverse 4 row 8 cell 14).2.1 next,
    (order 1 2 8 14 second third (by decide)).2 attached, (ending 3).2 count⟩

end RichTable.Document
