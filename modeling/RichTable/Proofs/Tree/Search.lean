import Mathlib
import RichTable.Proofs.Tree.Calls
import RichTable.Proofs.Tree.Nearest

/-!
# Walking down and counting up

`holder` walks down from the root and finds the node at an offset by the lengths that nodes carry.
`contentStart?` and `elementStart?` walk up to the root and count what stands before a node. The two
ways agree: `holder` finds the only node that has the offset in its content while none of its children
has, and the nodes that have it are those on the way up from there (`holder_agrees`).

For the caret, `firstCaret?` and `lastCaret?` walk down and `isCaret` looks at one place. The walks find
the ends of the set of places in a node that pass the test (`caret_walks_agree`).
-/

namespace RichTable.Document

variable {L : Type} {d : Document L} {n : NodeId} {o : Nat}

/-- The offset lies between the ends of the content of a node. -/
def InContent (d : Document L) (o : Nat) (n : NodeId) : Prop :=
  ∃ i j, d.contentStart? n = some i ∧ d.contentEnd? n = some j ∧ i ≤ o ∧ o ≤ j

/-- An attached node that has an offset in its content while none of its children has. -/
structure Innermost (d : Document L) (o : Nat) (n : NodeId) : Prop where
  attached : d.isAttached n = true
  inside : d.InContent o n
  outside : ∀ c ∈ d.children n, ¬ d.InContent o c

/-- The offsets in the content of a node at which a caret may stand. -/
def caretOffsets (d : Document L) (n : NodeId) : Set Nat :=
  {o | d.InContent o n ∧ d.isCaretOffset o = true}

theorem inContent_iff_holds : d.InContent o n ↔ d.Holds n o := by
  constructor
  · rintro ⟨i, j, hi, hj, hle⟩
    rw [contentEnd?, hi, Option.map_some, Option.some.injEq] at hj
    exact ⟨i, hi, hle.1, hj ▸ hle.2⟩
  · rintro ⟨i, hi, hle⟩
    exact ⟨i, i + d.contentLength n, hi, by rw [contentEnd?, hi, Option.map_some], hle⟩

/-! ## The node at an offset -/

namespace WellFormed

/-- A node ends where its next sibling starts. -/
theorem elementEnd?_eq_next (wf : d.WellFormed) {q a b : NodeId} {pre post : List NodeId}
    (h : d.children q = pre ++ a :: b :: post) : d.elementEnd? a = d.elementStart? b := by
  have ha : d.parent? a = some q := wf.mem_children.1 (by simp [h])
  have hb : d.parent? b = some q := wf.mem_children.1 (by simp [h])
  cases ho : d.contentStart? q with
  | none => rw [elementEnd?, wf.elementStart?_eq ha, wf.elementStart?_eq hb, ho]; rfl
  | some o =>
    have hnext : d.children q = (pre ++ [a]) ++ b :: post := by simp [h]
    rw [elementEnd?_eq (wf.elementStart?_child h ho), wf.elementStart?_child hnext ho,
      symbols_append, symbols_cons, symbols_nil]
    simp [Nat.add_assoc]

theorem inContent_iff_mem_ancestors (wf : d.WellFormed) (h : o ≤ d.lastOffset) :
    d.InContent o n ↔ n ∈ d.ancestors (d.elementAt o) :=
  inContent_iff_holds.trans (wf.mem_ancestors_elementAt h).symm

theorem innermost_iff (wf : d.WellFormed) (h : o ≤ d.lastOffset) :
    d.Innermost o n ↔ n = d.elementAt o := by
  obtain ⟨holds, none⟩ := wf.holds_elementAt h
  constructor
  · intro inner
    by_contra hne
    -- the way down from `n` to the node at the offset starts with a child of `n`
    have up := (wf.inContent_iff_mem_ancestors h).1 inner.inside
    obtain ⟨c, hc, hup⟩ := wf.exists_child_mem_ancestors up hne
    exact inner.outside c hc ((wf.inContent_iff_mem_ancestors h).2 hup)
  · rintro rfl
    refine ⟨wf.isAttached_iff.2 (wf.root_mem_ancestors_of_holds holds), inContent_iff_holds.2 holds, ?_⟩
    intro c hc inside
    exact none c hc (inContent_iff_holds.1 inside)

end WellFormed

/-- Walking down and counting up agree: `holder` finds the only innermost node at an offset, the nodes
that have the offset in their content are this one and its ancestors, and siblings follow each other
without a gap. -/
theorem holder_agrees (wf : d.WellFormed) :
    (∀ p : Position, p.offset ≤ d.lastOffset →
      (∀ n, d.Innermost p.offset n ↔ n = d.holder p) ∧
      ∀ m, d.InContent p.offset m ↔ m ∈ d.ancestors (d.holder p)) ∧
    ∀ q pre a b post, d.children q = pre ++ a :: b :: post →
      d.elementEnd? a = d.elementStart? b ∧ (d.isAttached q = true → (d.elementStart? b).isSome) := by
  refine ⟨fun p h => ⟨fun n => wf.innermost_iff h, fun m => wf.inContent_iff_mem_ancestors h⟩, ?_⟩
  intro q pre a b post h
  refine ⟨wf.elementEnd?_eq_next h, fun attached => ?_⟩
  have hb : d.parent? b = some q := wf.mem_children.1 (by simp [h])
  have up := (wf.mem_ancestors_of_parent hb).2 (.inr (wf.isAttached_iff.1 attached))
  exact Option.isSome_iff_exists.2 (wf.exists_elementStart? up (wf.ne_root_of_parent hb))

/-- A paragraph with an empty run behind another one, and a table with a cell that holds nothing. -/
def hollowCell : Document Int :=
  Call.runAll [.appendParagraph root "ab", .create (.inline ""), .appendChild 1 3,
    .buildTable .standard root { groups := [[[{ text := "c" }, {}]]] }, .detach 11] .empty

/-- The empty run is the node at offset 6, and the empty cell that at offset 19. -/
theorem holder_agrees_hollowCell :
    hollowCell.WellFormed ∧ 6 ≤ hollowCell.lastOffset ∧ 19 ≤ hollowCell.lastOffset ∧
      hollowCell.Innermost 6 3 ∧ hollowCell.Innermost 19 10 ∧ hollowCell.InContent 19 4 ∧
      ¬ hollowCell.InContent 19 7 ∧ hollowCell.children 6 = [] ++ 7 :: 10 :: [] ∧
      hollowCell.elementEnd? 7 = hollowCell.elementStart? 10 := by
  have wf : hollowCell.WellFormed := Call.wellFormed_runAll _
  have facts : 6 ≤ hollowCell.lastOffset ∧ 19 ≤ hollowCell.lastOffset ∧
      3 = hollowCell.holder ⟨6, .forward⟩ ∧ 10 = hollowCell.holder ⟨19, .forward⟩ ∧
      4 ∈ hollowCell.ancestors (hollowCell.holder ⟨19, .forward⟩) ∧
      7 ∉ hollowCell.ancestors (hollowCell.holder ⟨19, .forward⟩) ∧
      hollowCell.children 6 = [] ++ 7 :: 10 :: [] := by
    decide +kernel
  obtain ⟨h₆, h₁₉, run, cell, above, beside, siblings⟩ := facts
  obtain ⟨down, next⟩ := holder_agrees wf
  exact ⟨wf, h₆, h₁₉, ((down _ h₆).1 3).2 run, ((down _ h₁₉).1 10).2 cell, ((down _ h₁₉).2 4).2 above,
    fun h => beside (((down _ h₁₉).2 7).1 h), siblings, (next _ _ _ _ _ siblings).1⟩

/-! ## The ends of the places for the caret -/

theorem mem_caretOffsets : o ∈ d.caretOffsets n ↔ d.isCaretOffset o = true ∧ d.Holds n o := by
  rw [caretOffsets, Set.mem_ofPred_eq, inContent_iff_holds, and_comm]

theorem FirstCaret.isLeast (h : d.FirstCaret n o) : IsLeast (d.caretOffsets n) o := by
  refine ⟨mem_caretOffsets.2 ⟨h.caret, h.holds⟩, fun q hq => ?_⟩
  obtain ⟨caret, holds⟩ := mem_caretOffsets.1 hq
  exact h.first q caret holds

theorem LastCaret.isGreatest (h : d.LastCaret n o) : IsGreatest (d.caretOffsets n) o := by
  refine ⟨mem_caretOffsets.2 ⟨h.caret, h.holds⟩, fun q hq => ?_⟩
  obtain ⟨caret, holds⟩ := mem_caretOffsets.1 hq
  exact h.last q caret holds

/-- A walk that finds places for the caret in a node only, and one if there is any, fails exactly if
there is none. -/
theorem eq_none_iff_of_walk {walk : Option Position}
    (sound : ∀ p, walk = some p → p.offset ∈ d.caretOffsets n)
    (complete : ∀ q, d.isCaretOffset q = true → d.Holds n q → ∃ p, walk = some p) :
    walk = none ↔ d.caretOffsets n = ∅ := by
  rw [Set.eq_empty_iff_forall_notMem]
  constructor
  · rintro rfl q hq
    obtain ⟨caret, holds⟩ := mem_caretOffsets.1 hq
    obtain ⟨p, found⟩ := complete q caret holds
    cases found
  · intro empty
    cases walk with
    | none => rfl
    | some p => exact absurd (sound p rfl) (empty p.offset)

namespace WellFormed

/-- There is a last caret in every node that holds one. -/
theorem exists_last_caret (wf : d.WellFormed) {q : Nat} (caret : d.isCaretOffset q = true)
    (holds : d.Holds n q) : ∃ o, d.lastCaret? n = some ⟨o, .backward⟩ ∧ d.LastCaret n o := by
  have attached := wf.root_mem_ancestors_of_holds holds
  obtain ⟨h', hmem, -⟩ := wf.exists_host_of_caret caret holds
  obtain ⟨h, last⟩ := Option.isSome_iff_exists.1 (List.getLast?_isSome.2 (List.ne_nil_of_mem hmem))
  have up := ((wf.mem_caretHosts (lt_size_of_ancestor attached)).1 (List.mem_of_getLast? last)).2
  obtain ⟨s, start⟩ := Option.isSome_iff_exists.1
    ((wf.contentStart?_isSome (lt_size_of_ancestor up)).2 (wf.mem_ancestors_trans attached up))
  have stop : d.contentEnd? h = some (s + d.contentLength h) := by rw [contentEnd?, start]; rfl
  refine ⟨_, ?_, wf.lastCaret_of_getLast? attached last stop⟩
  rw [lastCaret?, caretHost_reverse_eq_getLast?, last, Option.bind_some, stop]
  rfl

theorem firstCaret?_eq_some_iff (wf : d.WellFormed) (attached : d.isAttached n = true) :
    d.firstCaret? n = some ⟨o, .forward⟩ ↔ IsLeast (d.caretOffsets n) o := by
  constructor
  · intro h
    exact (wf.firstCaret_of_eq_some (wf.isAttached_iff.1 attached) h).isLeast
  · intro least
    obtain ⟨caret, holds⟩ := mem_caretOffsets.1 least.1
    obtain ⟨o', found, first⟩ := wf.exists_first_caret caret holds
    rw [found, first.isLeast.unique least]

theorem lastCaret?_eq_some_iff (wf : d.WellFormed) (attached : d.isAttached n = true) :
    d.lastCaret? n = some ⟨o, .backward⟩ ↔ IsGreatest (d.caretOffsets n) o := by
  constructor
  · intro h
    exact (wf.lastCaret_of_eq_some (wf.isAttached_iff.1 attached) h).isGreatest
  · intro greatest
    obtain ⟨caret, holds⟩ := mem_caretOffsets.1 greatest.1
    obtain ⟨o', found, last⟩ := wf.exists_last_caret caret holds
    rw [found, last.isGreatest.unique greatest]

theorem firstCaret?_eq_none_iff (wf : d.WellFormed) (attached : d.isAttached n = true) :
    d.firstCaret? n = none ↔ d.caretOffsets n = ∅ := by
  refine eq_none_iff_of_walk (fun p h => ?_) fun q caret holds => ?_
  · exact (wf.firstCaret_of_eq_some (wf.isAttached_iff.1 attached) h).isLeast.1
  · obtain ⟨o, found, -⟩ := wf.exists_first_caret caret holds
    exact ⟨_, found⟩

theorem lastCaret?_eq_none_iff (wf : d.WellFormed) (attached : d.isAttached n = true) :
    d.lastCaret? n = none ↔ d.caretOffsets n = ∅ := by
  refine eq_none_iff_of_walk (fun p h => ?_) fun q caret holds => ?_
  · exact (wf.lastCaret_of_eq_some (wf.isAttached_iff.1 attached) h).isGreatest.1
  · obtain ⟨o, found, -⟩ := wf.exists_last_caret caret holds
    exact ⟨_, found⟩

end WellFormed

/-- What is found in either direction is a place for the caret. -/
theorem isCaret_of_nextCaret? {p q : Position} {direction : Direction}
    (h : d.nextCaret? p direction = some q) : d.isCaret q = true := by
  cases direction with
  | forward => exact (nextCaret?_forward h).caret
  | backward => exact (nextCaret?_backward h).caret

/-- If nothing is found in either direction, there is no other place for the caret. -/
theorem eq_offset_of_nextCaret? {p : Position} {direction : Direction}
    (h : d.nextCaret? p direction = none) (h' : d.nextCaret? p direction.reverse = none)
    (ho : d.isCaretOffset o = true) : o = p.offset := by
  have both : d.nextCaret? p .forward = none ∧ d.nextCaret? p .backward = none := by
    cases direction with
    | forward => exact ⟨h, h'⟩
    | backward => exact ⟨h', h⟩
  rcases Nat.lt_trichotomy o p.offset with hlt | heq | hlt
  · simp [nextCaret?_backward_eq_none both.2 hlt] at ho
  · exact heq
  · simp [nextCaret?_forward_eq_none both.1 hlt] at ho

/-- Every position is moved to a place for the caret if there is one in the document. -/
theorem isCaret_nearestCaret (ho : d.isCaretOffset o = true) (p : Position) (direction : Direction) :
    d.isCaret (d.nearestCaret p direction) = true := by
  rw [nearestCaret]
  split_ifs with caret
  · exact caret
  · cases h : d.nextCaret? p direction with
    | some q => exact isCaret_of_nextCaret? h
    | none =>
      cases h' : d.nextCaret? p direction.reverse with
      | some q => exact isCaret_of_nextCaret? h'
      | none =>
        rw [eq_offset_of_nextCaret? h h' ho] at ho
        exact absurd ho caret

/-- The walks for the caret find the first and the last offset in a node at which one may stand, and
nothing if there is none. Every position is moved to a place for the caret if there is one in the
document. -/
theorem caret_walks_agree (wf : d.WellFormed) :
    (∀ n, d.isAttached n = true →
      (∀ o, d.firstCaret? n = some ⟨o, .forward⟩ ↔ IsLeast (d.caretOffsets n) o) ∧
      (∀ o, d.lastCaret? n = some ⟨o, .backward⟩ ↔ IsGreatest (d.caretOffsets n) o) ∧
      (d.firstCaret? n = none ↔ d.caretOffsets n = ∅) ∧
      (d.lastCaret? n = none ↔ d.caretOffsets n = ∅)) ∧
    ((∃ q, d.isCaret q = true) →
      ∀ p direction, d.isCaret (d.nearestCaret p direction) = true) := by
  refine ⟨fun n attached => ⟨fun o => ?_, fun o => ?_, ?_, ?_⟩, ?_⟩
  · exact wf.firstCaret?_eq_some_iff attached
  · exact wf.lastCaret?_eq_some_iff attached
  · exact wf.firstCaret?_eq_none_iff attached
  · exact wf.lastCaret?_eq_none_iff attached
  · rintro ⟨q, hq⟩ p direction
    exact isCaret_nearestCaret hq p direction

/-- The caret in the two runs of the paragraph, in the empty cell, and next to it. -/
theorem caret_walks_agree_hollowCell :
    hollowCell.WellFormed ∧ hollowCell.isAttached 1 = true ∧ hollowCell.isAttached 10 = true ∧
      IsLeast (hollowCell.caretOffsets 1) 2 ∧ IsGreatest (hollowCell.caretOffsets 1) 6 ∧
      hollowCell.caretOffsets 10 = ∅ ∧ hollowCell.isCaret ⟨6, .forward⟩ = true ∧
      hollowCell.isCaret (hollowCell.nearestCaret ⟨19, .backward⟩ .forward) = true := by
  have wf : hollowCell.WellFormed := Call.wellFormed_runAll _
  have facts : hollowCell.isAttached 1 = true ∧ hollowCell.isAttached 10 = true ∧
      hollowCell.firstCaret? 1 = some ⟨2, .forward⟩ ∧
      hollowCell.lastCaret? 1 = some ⟨6, .backward⟩ ∧ hollowCell.firstCaret? 10 = none ∧
      hollowCell.isCaret ⟨6, .forward⟩ = true := by
    decide +kernel
  obtain ⟨block, cell, first, last, none, caret⟩ := facts
  obtain ⟨walks, nearest⟩ := caret_walks_agree wf
  obtain ⟨least, greatest, -⟩ := walks 1 block
  exact ⟨wf, block, cell, (least 2).1 first, (greatest 6).1 last, (walks 10 cell).2.2.1.1 none, caret,
    nearest ⟨_, caret⟩ _ _⟩

end RichTable.Document
