import Mathlib
import RichTable.Proofs.Tree.Offset

/-!
# Carets in a well-formed document

`elementAt` walks down from the root. It ends at the innermost node that holds an offset, so the nodes
that hold an offset are the ancestors of this one. Where a caret may stand, this node is a leaf; a
cell that is filled with paragraphs has such places, and `firstCaret?` finds the first of them.
-/

namespace RichTable.Document

variable {L : Type} {d : Document L}

/-! ## Walking down -/

theorem childAt_eq_some {p o b : Nat} {s : NodeId} {siblings : List NodeId}
    (h : d.childAt p siblings o = some (s, b)) : ∃ pre post, siblings = pre ++ s :: post ∧
      b = o + d.symbols pre + 1 ∧ b ≤ p ∧ p ≤ b + d.contentLength s := by
  induction siblings generalizing o with
  | nil => cases h
  | cons x siblings ih =>
    rw [childAt] at h
    split_ifs at h with hx
    · simp only [Option.some.injEq, Prod.mk.injEq] at h
      obtain ⟨rfl, rfl⟩ := h
      rw [symbolLength] at hx
      exact ⟨[], siblings, rfl, rfl, by omega, by omega⟩
    · obtain ⟨pre, post, rfl, rfl, h⟩ := ih h
      exact ⟨x :: pre, post, rfl, by rw [symbols_cons]; omega, h⟩

theorem childAt_eq_none {p o : Nat} {siblings : List NodeId} (h : d.childAt p siblings o = none)
    {pre post : List NodeId} {s : NodeId} (hs : siblings = pre ++ s :: post) :
    ¬ (o + d.symbols pre + 1 ≤ p ∧ p ≤ o + d.symbols pre + 1 + d.contentLength s) := by
  induction pre generalizing siblings o with
  | nil =>
    subst hs
    rw [List.nil_append, childAt] at h
    split_ifs at h with hx
    rw [symbolLength] at hx
    rw [symbols_nil]
    omega
  | cons x pre ih =>
    subst hs
    rw [List.cons_append, childAt] at h
    split_ifs at h
    have := ih h rfl
    rw [symbols_cons]
    omega

namespace WellFormed

theorem holds_descend (wf : d.WellFormed) {p fuel base : Nat} {id : NodeId}
    (hb : d.contentStart? id = some base) (hle : base ≤ p) (hlt : p ≤ base + d.contentLength id)
    (hf : d.size < fuel + d.depth id) : d.Holds (d.descend p fuel id base) p ∧
      ∀ c ∈ d.children (d.descend p fuel id base), ¬ d.Holds c p := by
  induction fuel generalizing id base with
  | zero =>
    have := wf.depth_le id
    omega
  | succ fuel ih =>
    rw [descend]
    split_ifs with hinline
    · refine ⟨⟨base, hb, hle, hlt⟩, fun c hc => ?_⟩
      rw [wf.children_inline (isKind_iff.1 hinline)] at hc
      cases hc
    · cases hchild : d.childAt p (d.children id) base with
      | none =>
        refine ⟨⟨base, hb, hle, hlt⟩, fun c hc => ?_⟩
        rintro ⟨o, ho, h⟩
        obtain ⟨pre, post, hsplit⟩ := List.append_of_mem hc
        rw [wf.contentStart?_child hsplit hb, Option.some.injEq] at ho
        subst ho
        exact childAt_eq_none hchild hsplit h
      | some found =>
        obtain ⟨c, start⟩ := found
        obtain ⟨pre, post, hsplit, rfl, h₁, h₂⟩ := childAt_eq_some hchild
        have hd := wf.depth_of_parent (wf.mem_children.1 (by simp [hsplit] : c ∈ d.children id))
        exact ih (wf.contentStart?_child hsplit hb) h₁ h₂ (by omega)

/-- `elementAt` is the innermost node that holds an offset. -/
theorem holds_elementAt (wf : d.WellFormed) {p : Nat} (h : p ≤ d.lastOffset) :
    d.Holds (d.elementAt p) p ∧ ∀ c ∈ d.children (d.elementAt p), ¬ d.Holds c p := by
  have start : d.contentStart? root = some 0 := by simp [contentStart?]
  refine wf.holds_descend start (Nat.zero_le _) ?_ ?_
  · rwa [Nat.zero_add]
  · rw [wf.depth_of_no_parent wf.root_lt_size wf.root_parent]
    exact Nat.lt_succ_self _

theorem mem_ancestors_elementAt (wf : d.WellFormed) {p : Nat} (h : p ≤ d.lastOffset) {n : NodeId} :
    n ∈ d.ancestors (d.elementAt p) ↔ d.Holds n p := by
  obtain ⟨holds, last⟩ := wf.holds_elementAt h
  refine ⟨wf.holds_ancestor holds, fun hn => ?_⟩
  rcases Nat.lt_or_ge (d.depth (d.elementAt p)) (d.depth n) with hlt | hge
  · have hmem := wf.mem_ancestors_of_holds holds hn hlt.le
    obtain ⟨c, hc, hcn⟩ := wf.exists_child_mem_ancestors hmem fun e => hlt.ne (by rw [e])
    exact absurd (wf.holds_ancestor hn hcn) (last c hc)
  · exact wf.mem_ancestors_of_holds hn holds hge

theorem root_mem_ancestors_of_holds (wf : d.WellFormed) {n : NodeId} {p : Nat} (h : d.Holds n p) :
    root ∈ d.ancestors n := by
  have hn := wf.lt_size_of_holds h
  obtain ⟨o, ho, -⟩ := h
  exact (wf.contentStart?_isSome hn).1 (by simp [ho])

theorem le_lastOffset_of_holds (wf : d.WellFormed) {n : NodeId} {p : Nat} (h : d.Holds n p) :
    p ≤ d.lastOffset :=
  holds_root.1 (wf.holds_ancestor h (wf.root_mem_ancestors_of_holds h))

/-- A node without children that holds an offset is the innermost one. -/
theorem elementAt_of_leaf (wf : d.WellFormed) {n : NodeId} {p : Nat} (h : d.Holds n p)
    (leaf : d.children n = []) : d.elementAt p = n := by
  have hmem := (wf.mem_ancestors_elementAt (wf.le_lastOffset_of_holds h)).2 h
  by_contra hne
  obtain ⟨c, hc, -⟩ := wf.exists_child_mem_ancestors hmem (Ne.symm hne)
  rw [leaf] at hc
  cases hc

/-! ## Places for the caret -/

theorem children_of_hostsCaret (wf : d.WellFormed) {n : NodeId} (h : d.hostsCaret n = true) :
    d.children n = [] := by
  unfold hostsCaret at h
  split at h
  · next hk => exact wf.children_inline hk
  · exact List.isEmpty_iff.1 h
  · cases h

/-- The start of a leaf that hosts the caret is a place for it. -/
theorem isCaretOffset_of_host (wf : d.WellFormed) {n : NodeId} (h : d.hostsCaret n = true) {p : Nat}
    (hp : d.Holds n p) : d.isCaretOffset p = true := by
  simp only [isCaretOffset, wf.elementAt_of_leaf hp (wf.children_of_hostsCaret h), h,
    wf.le_lastOffset_of_holds hp, decide_true, Bool.and_true]

theorem exists_caretHost_block (wf : d.WellFormed) {visit : List NodeId → List NodeId}
    (mem : ∀ l x, x ∈ visit l ↔ x ∈ l) {b : NodeId} (hb : d.kind? b = some .block) (fuel : Nat) :
    ∃ h, d.caretHost visit (fuel + 2) b = some h ∧ d.hostsCaret h = true ∧ b ∈ d.ancestors h := by
  have hblt := lt_size_of_kind? hb
  rw [caretHost]
  split_ifs with hhost
  · exact ⟨b, rfl, hhost, wf.self_mem_ancestors hblt⟩
  · have hne : d.children b ≠ [] := by simpa [hostsCaret, hb] using hhost
    have inline : ∀ r ∈ visit (d.children b), d.caretHost visit (fuel + 1) r = some r := fun r hr => by
      have hk := wf.kind_inline hb ((mem _ _).1 hr)
      rw [caretHost, if_pos (by simp [hostsCaret, hk])]
    obtain ⟨x, hx⟩ := List.exists_mem_of_ne_nil _ hne
    obtain ⟨r, rest, hvisit⟩ := List.exists_cons_of_ne_nil (List.ne_nil_of_mem ((mem _ _).2 hx))
    have hr : r ∈ visit (d.children b) := by simp [hvisit]
    have hrb := (mem _ _).1 hr
    refine ⟨r, ?_, by simp [hostsCaret, wf.kind_inline hb hrb], ?_⟩
    · rw [hvisit, List.findSome?_cons, inline r hr]
    · exact (wf.mem_ancestors_of_parent (wf.mem_children.1 hrb)).2 (.inr (wf.self_mem_ancestors hblt))

/-- A cell that is filled with paragraphs has a place for the caret. -/
theorem exists_caretHost_cell (wf : d.WellFormed) {visit : List NodeId → List NodeId}
    (mem : ∀ l x, x ∈ visit l ↔ x ∈ l) {c : NodeId} (hc : d.kind? c = some .cell)
    (hne : d.children c ≠ []) (blocks : ∀ b ∈ d.children c, d.kind? b = some .block) (fuel : Nat) :
    ∃ h, d.caretHost visit (fuel + 3) c = some h ∧ d.hostsCaret h = true ∧ c ∈ d.ancestors h := by
  rw [caretHost, if_neg (by simp [hostsCaret, hc])]
  obtain ⟨x, hx⟩ := List.exists_mem_of_ne_nil _ hne
  obtain ⟨b, rest, hvisit⟩ := List.exists_cons_of_ne_nil (List.ne_nil_of_mem ((mem _ _).2 hx))
  have hb : b ∈ d.children c := (mem _ _).1 (by simp [hvisit])
  obtain ⟨h, hfound, hhost, hbh⟩ := wf.exists_caretHost_block mem (blocks b hb) fuel
  refine ⟨h, ?_, hhost, ?_⟩
  · rw [hvisit, List.findSome?_cons, hfound]
  · exact wf.parent_mem_ancestors hbh (wf.mem_children.1 hb)

/-- The first place for the caret in a cell. -/
theorem exists_firstCaret? (wf : d.WellFormed) {c : NodeId} (hc : d.kind? c = some .cell)
    (hne : d.children c ≠ []) (blocks : ∀ b ∈ d.children c, d.kind? b = some .block)
    (attached : root ∈ d.ancestors c) : ∃ o, d.firstCaret? c = some ⟨o, .forward⟩ ∧
      d.isCaretOffset o = true ∧ d.Holds c o := by
  have hsize : ∃ fuel, d.size = fuel + 3 := by
    obtain ⟨b, hb⟩ := List.exists_mem_of_ne_nil _ hne
    have h₁ := wf.depth_of_parent (wf.mem_children.1 hb)
    have h₂ := wf.depth_le b
    have h₃ : 1 < d.depth c := by
      have hroot : root ≠ c := by
        rintro rfl
        rw [wf.root_kind] at hc
        cases hc
      obtain ⟨x, hx, hxc⟩ := wf.exists_child_mem_ancestors attached hroot
      have := wf.depth_of_parent (wf.mem_children.1 hx)
      have := wf.depth_le_of_mem_ancestors hxc
      have := wf.depth_pos wf.root_lt_size
      omega
    exact ⟨d.size - 3, by omega⟩
  obtain ⟨fuel, hfuel⟩ := hsize
  obtain ⟨h, hfound, hhost, hch⟩ :=
    wf.exists_caretHost_cell (fun cs _ => @Iff.rfl (_ ∈ cs)) hc hne blocks fuel
  obtain ⟨o, ho⟩ := Option.isSome_iff_exists.1
    ((wf.contentStart?_isSome (lt_size_of_ancestor hch)).2 (wf.mem_ancestors_trans attached hch))
  have holds : d.Holds h o := ⟨o, ho, le_rfl, Nat.le_add_right _ _⟩
  refine ⟨o, ?_, wf.isCaretOffset_of_host hhost holds, wf.holds_ancestor holds hch⟩
  rw [firstCaret?, hfuel, hfound, Option.bind_some, ho]
  rfl

end WellFormed

end RichTable.Document
