import Mathlib
import RichTable.Proofs.Tree.Order

/-!
# The nearest place for the caret

`firstCaret?` and `lastCaret?` walk down the tree. Both look at the ends of one list, the nodes below
that host the caret in the order of the document (`caretHosts`), so they find the least and the
greatest offset in a node at which a caret may stand.

`nearestCaret` looks at one offset after the other. It leaves a position at a place for the caret
where it is and moves any other to the closest one in its direction, or to the closest one in the
other direction if there is none (`Moved`).
-/

namespace RichTable

theorem find?_reverse_range_eq_some {p : Nat → Bool} {n m : Nat}
    (h : (List.range n).reverse.find? p = some m) :
    p m = true ∧ m < n ∧ ∀ o, m < o → o < n → p o = false := by
  induction n with
  | zero => cases h
  | succ n ih =>
    rw [List.range_succ, List.reverse_append, List.reverse_singleton, List.singleton_append,
      List.find?_cons] at h
    cases hn : p n with
    | true =>
      rw [hn, Option.some.injEq] at h
      subst h
      exact ⟨hn, by omega, fun o h₁ h₂ => by omega⟩
    | false =>
      rw [hn] at h
      obtain ⟨hm, hlt, gap⟩ := ih h
      refine ⟨hm, by omega, fun o h₁ h₂ => ?_⟩
      rcases Nat.lt_or_eq_of_le (Nat.le_of_lt_succ h₂) with h₃ | rfl
      · exact gap o h₁ h₃
      · exact hn

namespace Document

variable {L : Type} {d : Document L}

/-! ## Nodes that host the caret -/

/-- The nodes at or below `id` that host the caret, in the order of the document. -/
def caretHosts (d : Document L) : (fuel : Nat) → NodeId → List NodeId
  | 0, _ => []
  | fuel + 1, id => if d.hostsCaret id then [id] else (d.children id).flatMap (d.caretHosts fuel)

theorem caretHost_eq_head? (fuel : Nat) (id : NodeId) :
    d.caretHost (fun cs => cs) fuel id = (d.caretHosts fuel id).head? := by
  induction fuel generalizing id with
  | zero => rfl
  | succ fuel ih =>
    rw [caretHost, caretHosts]
    split_ifs
    · rfl
    · rw [List.head?_flatMap, funext ih]

theorem caretHost_reverse_eq_getLast? (fuel : Nat) (id : NodeId) :
    d.caretHost List.reverse fuel id = (d.caretHosts fuel id).getLast? := by
  induction fuel generalizing id with
  | zero => rfl
  | succ fuel ih =>
    rw [caretHost, caretHosts]
    split_ifs
    · rfl
    · rw [List.getLast?_flatMap, funext ih]

namespace WellFormed

theorem mem_caretHosts_fuel (wf : d.WellFormed) {fuel : Nat} {id h : NodeId} (hid : id < d.size)
    (hf : d.size < fuel + d.depth id) :
    h ∈ d.caretHosts fuel id ↔ d.hostsCaret h = true ∧ id ∈ d.ancestors h := by
  induction fuel generalizing id with
  | zero =>
    have := wf.depth_le id
    omega
  | succ fuel ih =>
    rw [caretHosts]
    split_ifs with host
    · -- a host has no children, so it is the only node at or below itself
      rw [List.mem_singleton]
      constructor
      · rintro rfl
        exact ⟨host, wf.self_mem_ancestors hid⟩
      · rintro ⟨-, hmem⟩
        by_contra hne
        obtain ⟨c, hc, -⟩ := wf.exists_child_mem_ancestors hmem (Ne.symm hne)
        rw [wf.children_of_hostsCaret host] at hc
        cases hc
    · rw [List.mem_flatMap]
      have child : ∀ c ∈ d.children id,
          (h ∈ d.caretHosts fuel c ↔ d.hostsCaret h = true ∧ c ∈ d.ancestors h) := fun c hc => by
        have := wf.depth_of_parent (wf.mem_children.1 hc)
        exact ih (wf.lt_size_child hc) (by omega)
      constructor
      · rintro ⟨c, hc, hmem⟩
        obtain ⟨hh, hch⟩ := (child c hc).1 hmem
        exact ⟨hh, wf.parent_mem_ancestors hch (wf.mem_children.1 hc)⟩
      · rintro ⟨hh, hmem⟩
        obtain ⟨c, hc, hch⟩ := wf.exists_child_mem_ancestors hmem (by rintro rfl; exact host hh)
        exact ⟨c, hc, (child c hc).2 ⟨hh, hch⟩⟩

theorem pairwise_caretHosts (wf : d.WellFormed) {fuel : Nat} {id : NodeId}
    (attached : root ∈ d.ancestors id) (hf : d.size < fuel + d.depth id) :
    (d.caretHosts fuel id).Pairwise d.EndsBefore := by
  induction fuel generalizing id with
  | zero => exact .nil
  | succ fuel ih =>
    rw [caretHosts]
    split_ifs
    · exact List.pairwise_singleton _ _
    · have below : ∀ c ∈ d.children id, root ∈ d.ancestors c ∧ d.size < fuel + d.depth c :=
        fun c hc => by
          have up := wf.mem_children.1 hc
          have := wf.depth_of_parent up
          exact ⟨(wf.mem_ancestors_of_parent up).2 (.inr attached), by omega⟩
      refine List.pairwise_flatMap.2 ⟨fun c hc => ih (below c hc).1 (below c hc).2, ?_⟩
      refine (wf.pairwise_children attached).imp_of_mem fun {b c} hb hc apart x hx y hy => ?_
      have hx := ((wf.mem_caretHosts_fuel (wf.lt_size_child hb) (below b hb).2).1 hx).2
      have hy := ((wf.mem_caretHosts_fuel (wf.lt_size_child hc) (below c hc).2).1 hy).2
      exact wf.endsBefore_below apart hx hy

theorem mem_caretHosts (wf : d.WellFormed) {id h : NodeId} (hid : id < d.size) :
    h ∈ d.caretHosts d.size id ↔ d.hostsCaret h = true ∧ id ∈ d.ancestors h := by
  have := wf.depth_pos hid
  exact wf.mem_caretHosts_fuel hid (by omega)

/-! ## The first and the last caret in a node -/

/-- Where a caret may stand, it stands in a node that hosts it. -/
theorem exists_host_of_caret (wf : d.WellFormed) {id : NodeId} {p : Nat}
    (caret : d.isCaretOffset p = true) (holds : d.Holds id p) :
    ∃ h ∈ d.caretHosts d.size id, d.Holds h p := by
  rw [isCaretOffset, Bool.and_eq_true, decide_eq_true_eq] at caret
  refine ⟨d.elementAt p, ?_, (wf.holds_elementAt caret.1).1⟩
  rw [wf.mem_caretHosts (wf.lt_size_of_holds holds)]
  exact ⟨caret.2, (wf.mem_ancestors_elementAt caret.1).2 holds⟩

end WellFormed

/-- `o` is the first offset in a node at which a caret may stand. -/
structure FirstCaret (d : Document L) (id : NodeId) (o : Nat) : Prop where
  caret : d.isCaretOffset o = true
  holds : d.Holds id o
  first : ∀ q, d.isCaretOffset q = true → d.Holds id q → o ≤ q

/-- `o` is the last offset in a node at which a caret may stand. -/
structure LastCaret (d : Document L) (id : NodeId) (o : Nat) : Prop where
  caret : d.isCaretOffset o = true
  holds : d.Holds id o
  last : ∀ q, d.isCaretOffset q = true → d.Holds id q → q ≤ o

namespace WellFormed

variable {id : NodeId}

theorem firstCaret_of_head? (wf : d.WellFormed) (attached : root ∈ d.ancestors id) {h : NodeId}
    {o : Nat} (head : (d.caretHosts d.size id).head? = some h) (start : d.contentStart? h = some o) :
    d.FirstCaret id o := by
  have hid := lt_size_of_ancestor attached
  have hpos := wf.depth_pos hid
  have hh := (wf.mem_caretHosts hid).1 (List.mem_of_head? head)
  have holds : d.Holds h o := ⟨o, start, le_rfl, Nat.le_add_right _ _⟩
  refine ⟨wf.isCaretOffset_of_host hh.1 holds, wf.holds_ancestor holds hh.2, fun q caret hq => ?_⟩
  obtain ⟨h', hmem, hq⟩ := wf.exists_host_of_caret caret hq
  have sorted := wf.pairwise_caretHosts attached (show d.size < d.size + d.depth id by omega)
  rcases eq_or_of_head? sorted head hmem with rfl | apart
  · obtain ⟨o', ho', hle, -⟩ := hq
    rw [start, Option.some.injEq] at ho'
    omega
  · exact (wf.lt_of_endsBefore apart holds hq).le

theorem lastCaret_of_getLast? (wf : d.WellFormed) (attached : root ∈ d.ancestors id) {h : NodeId}
    {o : Nat} (last : (d.caretHosts d.size id).getLast? = some h) (stop : d.contentEnd? h = some o) :
    d.LastCaret id o := by
  have hid := lt_size_of_ancestor attached
  have hpos := wf.depth_pos hid
  have hh := (wf.mem_caretHosts hid).1 (List.mem_of_getLast? last)
  obtain ⟨s, start, rfl⟩ := Option.map_eq_some_iff.1 stop
  have holds : d.Holds h (s + d.contentLength h) := ⟨s, start, Nat.le_add_right _ _, le_rfl⟩
  refine ⟨wf.isCaretOffset_of_host hh.1 holds, wf.holds_ancestor holds hh.2, fun q caret hq => ?_⟩
  obtain ⟨h', hmem, hq⟩ := wf.exists_host_of_caret caret hq
  have sorted := wf.pairwise_caretHosts attached (show d.size < d.size + d.depth id by omega)
  rcases eq_or_of_getLast? sorted last hmem with rfl | apart
  · obtain ⟨s', hs', -, hle⟩ := hq
    rw [start, Option.some.injEq] at hs'
    omega
  · exact (wf.lt_of_endsBefore apart hq holds).le

/-- What `firstCaret?` gives is the first caret of an attached node. -/
theorem firstCaret_of_eq_some (wf : d.WellFormed) (attached : root ∈ d.ancestors id) {p : Position}
    (h : d.firstCaret? id = some p) : d.FirstCaret id p.offset := by
  rw [firstCaret?, caretHost_eq_head?] at h
  obtain ⟨o, ho, rfl⟩ := Option.map_eq_some_iff.1 h
  obtain ⟨host, head, start⟩ := Option.bind_eq_some_iff.1 ho
  exact wf.firstCaret_of_head? attached head start

/-- What `lastCaret?` gives is the last caret of an attached node. -/
theorem lastCaret_of_eq_some (wf : d.WellFormed) (attached : root ∈ d.ancestors id) {p : Position}
    (h : d.lastCaret? id = some p) : d.LastCaret id p.offset := by
  rw [lastCaret?, caretHost_reverse_eq_getLast?] at h
  obtain ⟨o, ho, rfl⟩ := Option.map_eq_some_iff.1 h
  obtain ⟨host, last, stop⟩ := Option.bind_eq_some_iff.1 ho
  exact wf.lastCaret_of_getLast? attached last stop

/-- There is a first caret in every node that holds one. -/
theorem exists_first_caret (wf : d.WellFormed) {q : Nat} (caret : d.isCaretOffset q = true)
    (holds : d.Holds id q) : ∃ o, d.firstCaret? id = some ⟨o, .forward⟩ ∧ d.FirstCaret id o := by
  have attached := wf.root_mem_ancestors_of_holds holds
  obtain ⟨h', hmem, -⟩ := wf.exists_host_of_caret caret holds
  obtain ⟨h, rest, list⟩ := List.exists_cons_of_ne_nil (List.ne_nil_of_mem hmem)
  have up := ((wf.mem_caretHosts (lt_size_of_ancestor attached) (h := h)).1 (by simp [list])).2
  obtain ⟨o, start⟩ := Option.isSome_iff_exists.1
    ((wf.contentStart?_isSome (lt_size_of_ancestor up)).2 (wf.mem_ancestors_trans attached up))
  refine ⟨o, ?_, wf.firstCaret_of_head? attached (by rw [list, List.head?_cons]) start⟩
  rw [firstCaret?, caretHost_eq_head?, list, List.head?_cons, Option.bind_some, start]
  rfl

end WellFormed

/-! ## The closest caret -/

/-- `q` is the closest offset behind `p` at which a caret may stand. -/
structure CaretBehind (d : Document L) (p q : Nat) : Prop where
  lt : p < q
  caret : d.isCaretOffset q = true
  gap : ∀ o, p < o → o < q → d.isCaretOffset o = false

/-- `q` is the closest offset before `p` at which a caret may stand. -/
structure CaretBefore (d : Document L) (p q : Nat) : Prop where
  lt : q < p
  caret : d.isCaretOffset q = true
  gap : ∀ o, q < o → o < p → d.isCaretOffset o = false

theorem le_lastOffset_of_caret {p : Nat} (h : d.isCaretOffset p = true) : p ≤ d.lastOffset := by
  rw [isCaretOffset, Bool.and_eq_true, decide_eq_true_eq] at h
  exact h.1

theorem CaretBehind.le {p q o : Nat} (h : d.CaretBehind p q) (ho : d.isCaretOffset o = true)
    (hlt : p < o) : q ≤ o := by
  by_contra hgt
  rw [h.gap o hlt (by omega)] at ho
  cases ho

theorem CaretBefore.le {p q o : Nat} (h : d.CaretBefore p q) (ho : d.isCaretOffset o = true)
    (hlt : o < p) : o ≤ q := by
  by_contra hgt
  rw [h.gap o (by omega) hlt] at ho
  cases ho

theorem nextCaret?_forward {p r : Position} (h : d.nextCaret? p .forward = some r) :
    d.CaretBehind p.offset r.offset := by
  obtain ⟨o, ho, rfl⟩ := Option.map_eq_some_iff.1 h
  obtain ⟨caret, hmem, gap⟩ := List.find?_range'_eq_some.1 ho
  rw [List.mem_range'_1] at hmem
  exact ⟨hmem.1, caret, fun q h₁ h₂ => by simpa using gap q h₁ h₂⟩

theorem nextCaret?_backward {p r : Position} (h : d.nextCaret? p .backward = some r) :
    d.CaretBefore p.offset r.offset := by
  obtain ⟨o, ho, rfl⟩ := Option.map_eq_some_iff.1 h
  obtain ⟨caret, hlt, gap⟩ := find?_reverse_range_eq_some ho
  refine ⟨(Nat.lt_min.1 hlt).1, caret, fun q h₁ h₂ => ?_⟩
  by_contra hq
  rw [Bool.not_eq_false] at hq
  have := le_lastOffset_of_caret hq
  rw [gap q h₁ (by omega)] at hq
  cases hq

theorem nextCaret?_forward_eq_none {p : Position} (h : d.nextCaret? p .forward = none) {o : Nat}
    (ho : p.offset < o) : d.isCaretOffset o = false := by
  by_contra hq
  rw [Bool.not_eq_false] at hq
  have := le_lastOffset_of_caret hq
  have none := List.find?_range'_eq_none.1 (Option.map_eq_none_iff.1 h) o ho (by omega)
  rw [hq] at none
  cases none

theorem nextCaret?_backward_eq_none {p : Position} (h : d.nextCaret? p .backward = none) {o : Nat}
    (ho : o < p.offset) : d.isCaretOffset o = false := by
  by_contra hq
  rw [Bool.not_eq_false] at hq
  have := le_lastOffset_of_caret hq
  have mem : o ∈ (List.range (min p.offset (d.lastOffset + 1))).reverse := by
    rw [List.mem_reverse, List.mem_range]
    omega
  exact List.find?_eq_none.1 (Option.map_eq_none_iff.1 h) o mem hq

/-- Where offset `p` is moved to: nowhere if a caret may stand there or nowhere else, otherwise to the
closest place behind or before it. `ahead` and `back` say what makes it go there. -/
inductive Moved (d : Document L) (p : Nat) (ahead back : Nat → Prop) : Nat → Prop where
  | stays (caret : d.isCaretOffset p = true) : Moved d p ahead back p
  | ahead {q : Nat} (blank : d.isCaretOffset p = false) (next : d.CaretBehind p q)
    (reason : ahead q) : Moved d p ahead back q
  | back {q : Nat} (blank : d.isCaretOffset p = false) (previous : d.CaretBefore p q)
    (reason : back q) : Moved d p ahead back q
  | nowhere (none : ∀ o, d.isCaretOffset o = false) : Moved d p ahead back p

namespace Moved

variable {p q o : Nat} {ahead back : Nat → Prop}

theorem imp {ahead' back' : Nat → Prop} (h : d.Moved p ahead back q) (h₁ : ∀ o, ahead o → ahead' o)
    (h₂ : ∀ o, back o → back' o) : d.Moved p ahead' back' q := by
  cases h with
  | stays caret => exact .stays caret
  | ahead blank next reason => exact .ahead blank next (h₁ _ reason)
  | back blank previous reason => exact .back blank previous (h₂ _ reason)
  | nowhere none => exact .nowhere none

/-- Where there is a place for the caret, every offset is moved to one. -/
theorem caret (h : d.Moved p ahead back q) (ho : d.isCaretOffset o = true) :
    d.isCaretOffset q = true := by
  cases h with
  | stays caret => exact caret
  | ahead _ next _ => exact next.caret
  | back _ previous _ => exact previous.caret
  | nowhere none =>
    rw [none o] at ho
    cases ho

theorem caret_of_ne (h : d.Moved p ahead back q) (hne : q ≠ p) : d.isCaretOffset q = true := by
  cases h with
  | stays => exact absurd rfl hne
  | ahead _ next _ => exact next.caret
  | back _ previous _ => exact previous.caret
  | nowhere => exact absurd rfl hne

/-- No caret is skipped on the way ahead. -/
theorem of_lt (h : d.Moved p ahead back q) (hlt : p < q) :
    ahead q ∧ ∀ o, d.isCaretOffset o = true → p ≤ o → q ≤ o := by
  cases h with
  | stays => omega
  | ahead blank next reason =>
    refine ⟨reason, fun o caret hle => next.le caret (lt_of_le_of_ne hle ?_)⟩
    rintro rfl
    rw [blank] at caret
    cases caret
  | back _ previous _ => have := previous.lt; omega
  | nowhere => omega

/-- No caret is skipped on the way back. -/
theorem of_gt (h : d.Moved p ahead back q) (hlt : q < p) :
    back q ∧ ∀ o, d.isCaretOffset o = true → o ≤ p → o ≤ q := by
  cases h with
  | stays => omega
  | ahead _ next _ => have := next.lt; omega
  | back blank previous reason =>
    refine ⟨reason, fun o caret hle => previous.le caret (lt_of_le_of_ne hle ?_)⟩
    rintro rfl
    rw [blank] at caret
    cases caret
  | nowhere => omega

end Moved

/-- A position leaves its direction only if there is no place for the caret there. -/
theorem moved_nearestCaret (p : Position) : d.Moved p.offset
    (fun _ => p.direction = .forward ∨ ∀ o < p.offset, d.isCaretOffset o = false)
    (fun _ => p.direction = .backward ∨ ∀ o, p.offset < o → d.isCaretOffset o = false)
    (d.nearestCaret p p.direction).offset := by
  rw [nearestCaret, isCaret]
  cases blank : d.isCaretOffset p.offset with
  | true => exact .stays blank
  | false =>
    rw [if_neg (by simp)]
    have nowhere : d.nextCaret? p .forward = none → d.nextCaret? p .backward = none →
        ∀ o, d.isCaretOffset o = false := by
      intro ahead back o
      rcases Nat.lt_trichotomy o p.offset with h | rfl | h
      · exact nextCaret?_backward_eq_none back h
      · exact blank
      · exact nextCaret?_forward_eq_none ahead h
    cases direction : p.direction with
    | forward =>
      rw [show Direction.forward.reverse = .backward from rfl]
      cases ahead : d.nextCaret? p .forward with
      | some q => exact .ahead blank (nextCaret?_forward ahead) (.inl rfl)
      | none =>
        cases back : d.nextCaret? p .backward with
        | some r =>
          exact .back blank (nextCaret?_backward back) (.inr fun o => nextCaret?_forward_eq_none ahead)
        | none => exact .nowhere (nowhere ahead back)
    | backward =>
      rw [show Direction.backward.reverse = .forward from rfl]
      cases back : d.nextCaret? p .backward with
      | some r => exact .back blank (nextCaret?_backward back) (.inl rfl)
      | none =>
        cases ahead : d.nextCaret? p .forward with
        | some q =>
          exact .ahead blank (nextCaret?_forward ahead) (.inr fun o => nextCaret?_backward_eq_none back)
        | none => exact .nowhere (nowhere ahead back)

end Document

end RichTable
