import Mathlib
import RichTable.Tree.Caret
import RichTable.Proofs.Tree.Forest

/-!
# Offsets in a well-formed document

The content of an attached node is an interval of offsets. The intervals of siblings are disjoint and
lie in that of their parent, so the nodes whose content holds an offset are the nodes on one way up:
they are the ancestors of `elementAt` (`WellFormed.mem_ancestors_elementAt`).
-/

namespace RichTable.Document

variable {L : Type} {d : Document L}

/-- The number of symbols of some siblings. -/
def symbols (d : Document L) (siblings : List NodeId) : Nat := (siblings.map d.symbolLength).sum

@[simp]
theorem symbols_nil : d.symbols [] = 0 := rfl

@[simp]
theorem symbols_cons (s : NodeId) (siblings : List NodeId) :
    d.symbols (s :: siblings) = d.symbolLength s + d.symbols siblings := by
  simp [symbols]

@[simp]
theorem symbols_append (l m : List NodeId) : d.symbols (l ++ m) = d.symbols l + d.symbols m := by
  simp [symbols]

/-! ## Where nodes start -/

theorem startAmong_eq {id : NodeId} {pre post : List NodeId} (h : id ∉ pre) (offset : Nat) :
    d.startAmong id (pre ++ id :: post) offset = some (offset + d.symbols pre) := by
  induction pre generalizing offset with
  | nil => simp [startAmong]
  | cons s pre ih =>
    rw [List.mem_cons, not_or] at h
    rw [List.cons_append, startAmong, if_neg (Ne.symm h.1), ih h.2, symbols_cons, Nat.add_assoc]

/-- A document attached below the root. -/
theorem WellFormed.isAttached_iff (wf : d.WellFormed) {id : NodeId} :
    d.isAttached id = true ↔ root ∈ d.ancestors id := by
  rw [isAttached, beq_iff_eq]
  constructor
  · exact List.mem_of_getLast?
  · intro h
    obtain ⟨below, hb, -⟩ := wf.ancestors_suffix h
    rw [hb, wf.ancestors_of_no_parent wf.root_lt_size wf.root_parent, List.getLast?_append]
    rfl

namespace WellFormed

theorem startWithin_succ (wf : d.WellFormed) {fuel : Nat} {id : NodeId} (h : d.depth id ≤ fuel) :
    d.startWithin (fuel + 1) id = d.startWithin fuel id := by
  induction fuel generalizing id with
  | zero =>
    have hs : d.size ≤ id := by
      by_contra hlt
      have := wf.depth_pos (Nat.lt_of_not_le hlt)
      omega
    simp [startWithin, parent?, node?_eq_none.2 hs]
  | succ fuel ih =>
    rw [startWithin, startWithin]
    cases hp : d.parent? id with
    | none => rfl
    | some p =>
      have := wf.depth_of_parent hp
      simp only [ih (show d.depth p ≤ fuel by omega)]

/-- The recursion behind `elementStart?`. -/
theorem elementStart?_eq (wf : d.WellFormed) {c p : NodeId} (h : d.parent? c = some p) :
    d.elementStart? c = (d.contentStart? p).bind (d.startAmong c (d.children p)) := by
  rw [elementStart?, ← wf.startWithin_succ (wf.depth_le c), startWithin, h]
  rfl

theorem elementStart?_of_no_parent (wf : d.WellFormed) {c : NodeId} (h : d.parent? c = none) :
    d.elementStart? c = none := by
  rw [elementStart?, ← wf.startWithin_succ (wf.depth_le c), startWithin, h]

theorem ne_root_of_parent (wf : d.WellFormed) {c p : NodeId} (h : d.parent? c = some p) :
    c ≠ root := by
  rintro rfl
  rw [wf.root_parent] at h
  cases h

theorem contentStart?_eq (wf : d.WellFormed) {c p : NodeId} (h : d.parent? c = some p) :
    d.contentStart? c =
      ((d.contentStart? p).bind (d.startAmong c (d.children p))).map (· + 1) := by
  rw [contentStart?, if_neg (wf.ne_root_of_parent h), wf.elementStart?_eq h]

/-- A child starts behind its elder siblings. -/
theorem elementStart?_child (wf : d.WellFormed) {c p : NodeId} {pre post : List NodeId}
    (h : d.children p = pre ++ c :: post) {o : Nat} (ho : d.contentStart? p = some o) :
    d.elementStart? c = some (o + d.symbols pre) := by
  have nodup := wf.nodup p
  rw [h] at nodup
  have hc : c ∉ pre := fun hc => (List.nodup_append.1 nodup).2.2 c hc c (by simp) rfl
  have hcp : c ∈ d.children p := by simp [h]
  rw [wf.elementStart?_eq (wf.mem_children.1 hcp), ho, Option.bind_some, h, startAmong_eq hc]

theorem contentStart?_child (wf : d.WellFormed) {c p : NodeId} {pre post : List NodeId}
    (h : d.children p = pre ++ c :: post) {o : Nat} (ho : d.contentStart? p = some o) :
    d.contentStart? c = some (o + d.symbols pre + 1) := by
  have hcp : c ∈ d.children p := by simp [h]
  rw [contentStart?, if_neg (wf.ne_root_of_parent (wf.mem_children.1 hcp)),
    wf.elementStart?_child h ho]
  rfl

/-- The content of a node with children is theirs. -/
theorem symbols_children_le (wf : d.WellFormed) (p : NodeId) :
    d.symbols (d.children p) ≤ d.contentLength p := by
  rw [wf.length p]
  exact Nat.le_add_left _ _

/-- Only attached nodes have offsets. -/
theorem contentStart?_isSome (wf : d.WellFormed) {id : NodeId} (hid : id < d.size) :
    (d.contentStart? id).isSome ↔ root ∈ d.ancestors id := by
  induction id using wf.induct_up with
  | top id hp =>
    rw [wf.ancestors_of_no_parent hid hp, contentStart?, List.mem_singleton]
    split
    · next h => simp [h]
    · next h => simp [wf.elementStart?_of_no_parent hp, Ne.symm h]
  | step c p hp ih =>
    have hroot := wf.ne_root_of_parent hp
    obtain ⟨pre, post, hsplit⟩ := List.append_of_mem (wf.mem_children.2 hp)
    rw [wf.mem_ancestors_of_parent hp, ← ih (wf.lt_size_parent hp)]
    simp only [Ne.symm hroot, false_or]
    cases ho : d.contentStart? p with
    | none => simp [wf.contentStart?_eq hp, ho]
    | some o => simp [wf.contentStart?_child hsplit ho]

end WellFormed

/-! ## Nodes that hold an offset -/

/-- The offset `p` lies in the content of the attached node `n`. -/
def Holds (d : Document L) (n : NodeId) (p : Nat) : Prop :=
  ∃ o, d.contentStart? n = some o ∧ o ≤ p ∧ p ≤ o + d.contentLength n

theorem holds_root {p : Nat} : d.Holds root p ↔ p ≤ d.lastOffset := by
  simp [Holds, contentStart?, lastOffset]

namespace WellFormed

theorem lt_size_of_holds (wf : d.WellFormed) {n : NodeId} {p : Nat} (h : d.Holds n p) :
    n < d.size := by
  obtain ⟨o, ho, -⟩ := h
  by_cases hn : n = root
  · exact hn ▸ wf.root_lt_size
  · rw [contentStart?, if_neg hn] at ho
    cases hp : d.parent? n with
    | none => simp [wf.elementStart?_of_no_parent hp] at ho
    | some q => exact lt_size_of_parent? hp

/-- The content of a child lies in that of its parent. -/
theorem holds_parent (wf : d.WellFormed) {n q : NodeId} {p : Nat} (h : d.Holds n p)
    (hq : d.parent? n = some q) : d.Holds q p := by
  obtain ⟨pre, post, hsplit⟩ := List.append_of_mem (wf.mem_children.2 hq)
  obtain ⟨o, ho, hle, hlt⟩ := h
  cases hoq : d.contentStart? q with
  | none => simp [wf.contentStart?_eq hq, hoq] at ho
  | some oq =>
    rw [wf.contentStart?_child hsplit hoq, Option.some.injEq] at ho
    have hlen := wf.symbols_children_le q
    rw [hsplit, symbols_append, symbols_cons, symbolLength] at hlen
    exact ⟨oq, hoq, by omega, by omega⟩

theorem holds_ancestor (wf : d.WellFormed) {n a : NodeId} {p : Nat} (h : d.Holds n p)
    (ha : a ∈ d.ancestors n) : d.Holds a p := by
  induction n using wf.induct_up with
  | top n hp =>
    rw [wf.ancestors_of_no_parent (wf.lt_size_of_holds h) hp, List.mem_singleton] at ha
    exact ha ▸ h
  | step c q hq ih =>
    rcases (wf.mem_ancestors_of_parent hq).1 ha with rfl | ha
    · exact h
    · exact ih (wf.holds_parent h hq) ha

/-- The contents of siblings are disjoint. -/
theorem holds_sibling (wf : d.WellFormed) {n m q : NodeId} {p : Nat} (hn : d.Holds n p)
    (hm : d.Holds m p) (hnq : d.parent? n = some q) (hmq : d.parent? m = some q) : n = m := by
  obtain ⟨oq, hoq, -⟩ := wf.holds_parent hn hnq
  -- the elder of two siblings ends before the younger starts
  have apart : ∀ {n m : NodeId} {pre mid post : List NodeId},
      d.children q = pre ++ n :: (mid ++ m :: post) → d.Holds n p → d.Holds m p → False := by
    intro n m pre mid post hsplit hn hm
    obtain ⟨o, ho, -, hlt⟩ := hn
    obtain ⟨o', ho', hle, -⟩ := hm
    rw [wf.contentStart?_child hsplit hoq, Option.some.injEq] at ho
    rw [← List.cons_append, ← List.append_assoc] at hsplit
    rw [wf.contentStart?_child hsplit hoq, Option.some.injEq, symbols_append, symbols_cons,
      symbolLength] at ho'
    omega
  by_contra hne
  obtain ⟨pre, post, hsplit⟩ := List.append_of_mem (wf.mem_children.2 hnq)
  have hmem := wf.mem_children.2 hmq
  rw [hsplit] at hmem
  rcases List.mem_append.1 hmem with hmem | hmem
  · obtain ⟨pre', mid, rfl⟩ := List.append_of_mem hmem
    exact apart (by simpa using hsplit) hm hn
  · obtain ⟨mid, post', rfl⟩ := List.append_of_mem ((List.mem_cons.1 hmem).resolve_left (Ne.symm hne))
    exact apart hsplit hn hm

/-- What holds an offset and has no parent is the root. -/
theorem eq_root_of_holds (wf : d.WellFormed) {n : NodeId} {p : Nat} (h : d.Holds n p)
    (hp : d.parent? n = none) : n = root := by
  obtain ⟨o, ho, -⟩ := h
  by_contra hne
  rw [contentStart?, if_neg hne, wf.elementStart?_of_no_parent hp] at ho
  cases ho

theorem depth_of_no_parent (wf : d.WellFormed) {n : NodeId} (hn : n < d.size)
    (hp : d.parent? n = none) : d.depth n = 1 := by
  rw [depth, wf.ancestors_of_no_parent hn hp, List.length_singleton]

/-- At every depth at most one node holds an offset. -/
theorem holds_unique (wf : d.WellFormed) {n m : NodeId} {p : Nat} (hn : d.Holds n p)
    (hm : d.Holds m p) (h : d.depth n = d.depth m) : n = m := by
  induction n using wf.induct_up generalizing m with
  | top n hp =>
    cases hpm : d.parent? m with
    | none => rw [wf.eq_root_of_holds hn hp, wf.eq_root_of_holds hm hpm]
    | some q =>
      have hq := wf.depth_pos (wf.lt_size_parent hpm)
      rw [wf.depth_of_no_parent (wf.lt_size_of_holds hn) hp, wf.depth_of_parent hpm] at h
      omega
  | step c q hq ih =>
    have hdq := wf.depth_pos (wf.lt_size_parent hq)
    rw [wf.depth_of_parent hq] at h
    cases hpm : d.parent? m with
    | none =>
      rw [wf.depth_of_no_parent (wf.lt_size_of_holds hm) hpm] at h
      omega
    | some q' =>
      rw [wf.depth_of_parent hpm, Nat.add_right_cancel_iff] at h
      obtain rfl := ih (wf.holds_parent hn hq) (wf.holds_parent hm hpm) h
      exact wf.holds_sibling hn hm hq hpm

/-- Nodes that hold the same offset are on one way up. -/
theorem mem_ancestors_of_holds (wf : d.WellFormed) {n m : NodeId} {p : Nat} (hn : d.Holds n p)
    (hm : d.Holds m p) (h : d.depth n ≤ d.depth m) : n ∈ d.ancestors m := by
  induction m using wf.induct_up with
  | top m hp =>
    have hd := wf.depth_of_no_parent (wf.lt_size_of_holds hm) hp
    have := wf.depth_pos (wf.lt_size_of_holds hn)
    rw [wf.holds_unique hn hm (by omega)]
    exact wf.self_mem_ancestors (wf.lt_size_of_holds hm)
  | step c q hq ih =>
    rcases Nat.lt_or_eq_of_le h with hlt | heq
    · rw [wf.depth_of_parent hq] at hlt
      exact (wf.mem_ancestors_of_parent hq).2 (.inr (ih (wf.holds_parent hm hq) (by omega)))
    · rw [wf.holds_unique hn hm heq]
      exact wf.self_mem_ancestors (wf.lt_size_of_holds hm)

end WellFormed

end RichTable.Document
