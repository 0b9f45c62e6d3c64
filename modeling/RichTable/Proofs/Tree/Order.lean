import Mathlib
import RichTable.Proofs.Tree.Caret

/-!
# The order of a document

An attached node takes up an interval of offsets, and the nodes below it take up parts of it. Two
nodes are apart if one ends before the other starts (`EndsBefore`). Siblings are apart, and so are
their children, and the children of these (`WellFormed.pairwise_flatMap_children`). Rows and cells of
a table are listed this way, so a list of them is in the order of the document.
-/

namespace RichTable

section Pairwise

variable {α : Type} {R : α → α → Prop} {l : List α} {x y : α}

theorem eq_or_of_head? (h : l.Pairwise R) (head : l.head? = some x) (hy : y ∈ l) :
    x = y ∨ R x y := by
  obtain ⟨rest, rfl⟩ := List.head?_eq_some_iff.1 head
  rcases List.mem_cons.1 hy with rfl | hy
  · exact .inl rfl
  · exact .inr ((List.pairwise_cons.1 h).1 y hy)

theorem eq_or_of_getLast? (h : l.Pairwise R) (last : l.getLast? = some y) (hx : x ∈ l) :
    x = y ∨ R x y := by
  obtain ⟨rest, rfl⟩ := List.getLast?_eq_some_iff.1 last
  rcases List.mem_append.1 hx with hx | hx
  · exact .inr ((List.pairwise_append.1 h).2.2 x hx y (List.mem_singleton_self y))
  · exact .inl (List.mem_singleton.1 hx)

/-- Of two entries of a list that is in order, one comes before the other. -/
theorem or_of_pairwise (h : l.Pairwise R) (hx : x ∈ l) (hy : y ∈ l) (hne : x ≠ y) :
    R x y ∨ R y x := by
  have sym : Std.Symm fun x y => R x y ∨ R y x := ⟨fun _ _ => Or.symm⟩
  have either : l.Pairwise fun x y => R x y ∨ R y x := h.imp Or.inl
  exact either.forall hx hy hne

end Pairwise

namespace Document

variable {L : Type} {d : Document L}

/-- `x` starts before `y`. -/
def Precedes (d : Document L) (x y : NodeId) : Prop :=
  ∃ i j, d.elementStart? x = some i ∧ d.elementStart? y = some j ∧ i < j

/-- `x` ends before `y` starts. -/
def EndsBefore (d : Document L) (x y : NodeId) : Prop :=
  ∃ i j, d.elementEnd? x = some i ∧ d.elementStart? y = some j ∧ i ≤ j

theorem elementEnd?_eq {n : NodeId} {o : Nat} (h : d.elementStart? n = some o) :
    d.elementEnd? n = some (o + d.symbolLength n) := by
  rw [elementEnd?, h, Option.map_some]

theorem symbolLength_pos (n : NodeId) : 0 < d.symbolLength n := Nat.succ_pos _

theorem EndsBefore.precedes {x y : NodeId} (h : d.EndsBefore x y) : d.Precedes x y := by
  obtain ⟨i, j, hi, hj, hle⟩ := h
  obtain ⟨o, ho, rfl⟩ := Option.map_eq_some_iff.1 hi
  exact ⟨o, j, ho, hj, by have := symbolLength_pos (d := d) x; omega⟩

theorem Precedes.asymm {x y : NodeId} (h : d.Precedes x y) : ¬ d.Precedes y x := by
  rintro ⟨j, i, hj, hi, hlt⟩
  obtain ⟨i', j', hi', hj', hlt'⟩ := h
  rw [hi, Option.some.injEq] at hi'
  rw [hj, Option.some.injEq] at hj'
  omega

theorem Precedes.ne {x y : NodeId} (h : d.Precedes x y) : x ≠ y := by
  rintro rfl
  exact h.asymm h

theorem EndsBefore.irrefl {x : NodeId} (h : d.EndsBefore x x) : False := h.precedes.ne rfl

theorem EndsBefore.asymm {x y : NodeId} (h : d.EndsBefore x y) : ¬ d.EndsBefore y x := fun h' =>
  h.precedes.asymm h'.precedes

namespace WellFormed

theorem eq_root_of_mem_ancestors (wf : d.WellFormed) {a : NodeId} (h : a ∈ d.ancestors root) :
    a = root := by
  rwa [wf.ancestors_of_no_parent wf.root_lt_size wf.root_parent, List.mem_singleton] at h

/-- What is above an attached node is attached. -/
theorem attached_of_mem_ancestors (wf : d.WellFormed) {a n : NodeId}
    (attached : root ∈ d.ancestors n) (h : a ∈ d.ancestors n) : root ∈ d.ancestors a := by
  rcases wf.mem_ancestors_or attached h with up | up
  · exact up
  · rw [wf.eq_root_of_mem_ancestors up]
    exact wf.self_mem_ancestors wf.root_lt_size

/-! ## The interval of a node -/

theorem contentStart?_eq_map (wf : d.WellFormed) {n : NodeId} {o : Nat}
    (h : d.elementStart? n = some o) : d.contentStart? n = some (o + 1) := by
  have hn : n ≠ root := by
    rintro rfl
    rw [wf.elementStart?_of_no_parent wf.root_parent] at h
    cases h
  rw [contentStart?, if_neg hn, h, Option.map_some]

/-- The offsets in a node are those between its start and its end. -/
theorem holds_iff_between (wf : d.WellFormed) {n : NodeId} {o p : Nat}
    (h : d.elementStart? n = some o) : d.Holds n p ↔ o < p ∧ p < o + d.symbolLength n := by
  rw [Holds, wf.contentStart?_eq_map h, symbolLength]
  constructor
  · rintro ⟨o', ho', h₁, h₂⟩
    rw [Option.some.injEq] at ho'
    omega
  · rintro ⟨h₁, h₂⟩
    exact ⟨o + 1, rfl, by omega, by omega⟩

theorem attached_of_elementStart? (wf : d.WellFormed) {n : NodeId} {o : Nat}
    (h : d.elementStart? n = some o) : root ∈ d.ancestors n := by
  have holds := (wf.holds_iff_between h (p := o + 1)).2 ⟨by omega, by rw [symbolLength]; omega⟩
  exact wf.root_mem_ancestors_of_holds holds

/-- All attached nodes but the root have a start. -/
theorem exists_elementStart? (wf : d.WellFormed) {n : NodeId} (attached : root ∈ d.ancestors n)
    (hn : n ≠ root) : ∃ o, d.elementStart? n = some o := by
  have start := (wf.contentStart?_isSome (lt_size_of_ancestor attached)).2 attached
  rw [contentStart?, if_neg hn, Option.isSome_map] at start
  exact Option.isSome_iff_exists.1 start

/-- A node lies between the start and the end of each of its ancestors. -/
theorem interval_of_mem_ancestors (wf : d.WellFormed) {a n : NodeId} {i j : Nat}
    (ha : a ∈ d.ancestors n) (hi : d.elementStart? a = some i) (hj : d.elementStart? n = some j) :
    i ≤ j ∧ j + d.symbolLength n ≤ i + d.symbolLength a := by
  have inside : ∀ {p}, j < p → p < j + d.symbolLength n → i < p ∧ p < i + d.symbolLength a :=
    fun h₁ h₂ => (wf.holds_iff_between hi).1
      (wf.holds_ancestor ((wf.holds_iff_between hj).2 ⟨h₁, h₂⟩) ha)
  rw [symbolLength] at inside ⊢
  have first := inside (p := j + 1) (by omega) (by omega)
  have last := inside (p := j + d.contentLength n + 1) (by omega) (by omega)
  omega

/-! ## Nodes that are apart -/

theorem lt_of_endsBefore (wf : d.WellFormed) {x y : NodeId} {p q : Nat} (h : d.EndsBefore x y)
    (hp : d.Holds x p) (hq : d.Holds y q) : p < q := by
  obtain ⟨i, j, hi, hj, hle⟩ := h
  obtain ⟨o, ho, rfl⟩ := Option.map_eq_some_iff.1 hi
  have := (wf.holds_iff_between ho).1 hp
  have := (wf.holds_iff_between hj).1 hq
  omega

/-- What is below nodes that are apart is apart. -/
theorem endsBefore_below (wf : d.WellFormed) {x y x' y' : NodeId} (h : d.EndsBefore x y)
    (hx : x ∈ d.ancestors x') (hy : y ∈ d.ancestors y') : d.EndsBefore x' y' := by
  obtain ⟨i, j, hi, hj, hle⟩ := h
  obtain ⟨o, ho, rfl⟩ := Option.map_eq_some_iff.1 hi
  have start : ∀ {a n u}, a ∈ d.ancestors n → d.elementStart? a = some u →
      ∃ v, d.elementStart? n = some v := fun {a n u} ha hu => by
    refine wf.exists_elementStart? (wf.mem_ancestors_trans (wf.attached_of_elementStart? hu) ha) ?_
    rintro rfl
    rw [wf.eq_root_of_mem_ancestors ha, wf.elementStart?_of_no_parent wf.root_parent] at hu
    cases hu
  obtain ⟨o', ho'⟩ := start hx ho
  obtain ⟨j', hj'⟩ := start hy hj
  have := wf.interval_of_mem_ancestors hx ho ho'
  have := wf.interval_of_mem_ancestors hy hj hj'
  exact ⟨_, _, elementEnd?_eq ho', hj', by omega⟩

theorem pairwise_children (wf : d.WellFormed) {p : NodeId} (attached : root ∈ d.ancestors p) :
    (d.children p).Pairwise d.EndsBefore := by
  obtain ⟨o, ho⟩ := Option.isSome_iff_exists.1
    ((wf.contentStart?_isSome (lt_size_of_ancestor attached)).2 attached)
  suffices h : ∀ l pre, d.children p = pre ++ l → l.Pairwise d.EndsBefore from h _ [] rfl
  intro l
  induction l with
  | nil => exact fun _ _ => .nil
  | cons x l ih =>
    intro pre split
    refine List.pairwise_cons.2 ⟨fun y hy => ?_, ih (pre ++ [x]) (by simpa using split)⟩
    obtain ⟨mid, post, rfl⟩ := List.append_of_mem hy
    have split' : d.children p = (pre ++ x :: mid) ++ y :: post := by simpa using split
    refine ⟨_, _, elementEnd?_eq (wf.elementStart?_child split ho),
      wf.elementStart?_child split' ho, ?_⟩
    rw [symbols_append, symbols_cons]
    omega

theorem mem_ancestors_of_mem_children (wf : d.WellFormed) {c p : NodeId} (hc : c ∈ d.children p) :
    p ∈ d.ancestors c :=
  (wf.mem_ancestors_of_parent (wf.mem_children.1 hc)).2
    (.inr (wf.self_mem_ancestors (lt_size_of_mem_children hc)))

/-- The children of nodes in the order of the document are in that order too. -/
theorem pairwise_flatMap_children (wf : d.WellFormed) {l : List NodeId}
    (attached : ∀ n ∈ l, root ∈ d.ancestors n) (h : l.Pairwise d.EndsBefore) :
    (l.flatMap d.children).Pairwise d.EndsBefore := by
  refine List.pairwise_flatMap.2 ⟨fun p hp => wf.pairwise_children (attached p hp), ?_⟩
  exact h.imp fun apart x hx y hy => wf.endsBefore_below apart
    (wf.mem_ancestors_of_mem_children hx) (wf.mem_ancestors_of_mem_children hy)

end WellFormed

end Document

end RichTable
