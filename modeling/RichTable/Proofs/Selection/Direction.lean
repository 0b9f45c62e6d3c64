import Mathlib
import RichTable.Proofs.Selection.Containment

/-!
# The direction of a selection

The cells of a selection come in the order of its ends, and the ends are moved one by one. If a caret
may stand between them, or if the start goes back or the end goes ahead, they keep their order. But
folding only looks at one end: where no caret can stand between them, the start may be moved ahead
into the cell behind both ends, and the end back into the cell before both (`Crossed`). This is the
only way in which a selection is turned around.
-/

namespace RichTable.Document

variable {L : Type} {d : Document L} {t u x y x' y' : NodeId} {p q : Nat}

namespace Separated

theorem symm (h : d.Separated t x y p q) : d.Separated t y x q p :=
  ⟨h.table, h.mem_right, h.mem_left, h.ne.symm, h.right, h.left⟩

/-- The cells of a table that separates two offsets are in the order of the offsets. -/
theorem precedes (wf : d.WellFormed) (h : d.Separated t x y p q) (hpq : p ≤ q) : d.Precedes x y := by
  have attached := wf.attached_of_mem_ancestors (wf.root_mem_ancestors_of_holds h.left)
    (wf.table_mem_ancestors h.table h.mem_left)
  rcases or_of_pairwise (wf.pairwise_tableCells attached) h.mem_left h.mem_right h.ne with hxy | hyx
  · exact hxy.precedes
  · have := wf.lt_of_endsBefore hyx h.right h.left
    omega

theorem ne_offset (wf : d.WellFormed) (h : d.Separated t x y p q) : p ≠ q := by
  rintro rfl
  exact h.ne (wf.eq_of_holds h.mem_left h.mem_right h.left h.right)

/-- A cell of one table that separates two offsets is not strictly above a cell of another. -/
theorem depth_le (wf : d.WellFormed) (h : d.Separated t x y p q) (h' : d.Separated u x' y' p q) :
    d.depth x' ≤ d.depth x := by
  by_contra hlt
  have hne : x ≠ x' := by
    rintro rfl
    exact hlt le_rfl
  have above := wf.mem_ancestors_table h'.table h'.mem_left
    (wf.mem_ancestors_of_holds h.left h'.left (by omega)) (wf.kind_tableCells h.table h.mem_left) hne
    (.inl rfl)
  have holds := wf.holds_ancestor h'.right
    (wf.mem_ancestors_trans above (wf.table_mem_ancestors h'.table h'.mem_right))
  exact h.ne (wf.eq_of_holds h.mem_left h.mem_right holds h.right)

/-- Only one table separates two offsets. -/
theorem eq_left (wf : d.WellFormed) (h : d.Separated t x y p q) (h' : d.Separated u x' y' p q) :
    x = x' :=
  wf.holds_unique h.left h'.left (le_antisymm (h'.depth_le wf h) (h.depth_le wf h'))

end Separated

/-- No caret can stand between the ends of a selection. The start is moved ahead of both and the end
back before both: each leans that way, or is folded out of the cell that the other end comes to. -/
structure Crossed (d : Document L) (s e : Position) (x y : NodeId) : Prop where
  ne : x ≠ y
  caret : ∃ o, d.isCaretOffset o = true
  gap : ∀ o, s.offset ≤ o → o ≤ e.offset → d.isCaretOffset o = false
  ahead : s.direction = .forward ∨ ∃ i, d.elementEnd? y = some i ∧ i ≤ s.offset
  back : e.direction = .backward ∨ ∃ j, d.elementStart? x = some j ∧ e.offset ≤ j

section Ends

variable {s e : Position} {a m : Nat}

theorem Crossed.lt (wf : d.WellFormed) (hlt : s.offset < e.offset) (h : d.Crossed s e x y)
    (separated : d.Separated t x y a m) (start : d.MovedStart s a) (stop : d.MovedStop e m) :
    m < a := by
  obtain ⟨o, caret⟩ := h.caret
  have outside : ∀ {o}, d.isCaretOffset o = true → o < s.offset ∨ e.offset < o := fun {o} caret => by
    by_contra inside
    rw [h.gap o (by omega) (by omega)] at caret
    cases caret
  have ha := start.caret caret
  have hm := stop.caret caret
  have hne := separated.ne_offset wf
  rcases outside ha with hs | hs <;> rcases outside hm with he | he
  · -- both have been moved back, so to the same caret
    have := (start.of_gt hs).2 m hm (by omega)
    have := (stop.of_gt (by omega)).2 a ha (by omega)
    omega
  · -- the start leans backward and has not been folded, since `y` does not end before it
    obtain ⟨direction | none, -⟩ := start.of_gt hs
    · rcases h.ahead with forward | ⟨i, hi, his⟩
      · rw [direction] at forward
        cases forward
      · obtain ⟨j, hj, rfl⟩ := Option.map_eq_some_iff.1 hi
        have := (wf.holds_iff_between hj).1 separated.right
        omega
    · rw [none m (by omega)] at hm
      cases hm
  · omega
  · have := (start.of_lt (by omega)).2 m hm (by omega)
    have := (stop.of_lt he).2 a ha (by omega)
    omega

/-- Ends that have changed places have crossed. -/
theorem crossed_of_lt (wf : d.WellFormed) (hlt : s.offset < e.offset)
    (separated : d.Separated t x y a m) (start : d.MovedStart s a) (stop : d.MovedStop e m)
    (turned : m < a) : d.Crossed s e x y := by
  obtain ⟨o, caret⟩ : ∃ o, d.isCaretOffset o = true := by
    rcases eq_or_ne a s.offset with rfl | hne
    · exact ⟨m, stop.caret_of_ne (by omega)⟩
    · exact ⟨a, start.caret_of_ne hne⟩
  have ha := start.caret caret
  have hm := stop.caret caret
  have hsa : s.offset < a := by
    by_contra hle
    have := (stop.of_gt (by omega)).2 a ha (by omega)
    omega
  have hme : m < e.offset := by
    by_contra hle
    have := (start.of_lt hsa).2 m hm (by omega)
    omega
  obtain ⟨startReason, startFirst⟩ := start.of_lt hsa
  obtain ⟨stopReason, stopLast⟩ := stop.of_gt hme
  have hms : m < s.offset := by
    by_contra hle
    have := startFirst m hm (by omega)
    omega
  have hea : e.offset < a := by
    by_contra hle
    have := stopLast a ha (by omega)
    omega
  refine ⟨separated.ne, ⟨o, caret⟩, fun o hso hoe => ?_, ?_, ?_⟩
  · by_contra inside
    have := startFirst o (by simpa using inside) hso
    omega
  · rcases startReason with (forward | none) | ⟨u, x', y', r, exits⟩
    · exact .inl forward
    · rw [none m hms] at hm
      cases hm
    · -- the caret before the start is the one that the end has come to
      have h₁ := exits.caret.le hm hms
      have h₂ := stopLast r exits.caret.caret (by have := exits.caret.lt; omega)
      obtain rfl : r = m := by omega
      rw [separated.symm.eq_left wf exits.separated]
      exact .inr exits.ends
  · rcases stopReason with (backward | none) | ⟨u, x', y', r, enters⟩
    · exact .inl backward
    · rw [none a hea] at ha
      cases ha
    · have h₁ := enters.caret.le ha hea
      have h₂ := startFirst r enters.caret.caret (by have := enters.caret.lt; omega)
      obtain rfl : r = a := by omega
      rw [separated.eq_left wf enters.separated]
      exact .inr enters.starts

end Ends

/-- A selection is turned around exactly if its ends cross. Looking for a caret ahead of an end starts
at the offset behind it, so that this offset has to be a machine word as well. -/
theorem selection_direction (wf : d.WellFormed) {s e : Position} (hlt : s.offset < e.offset)
    (within : e.offset + 1 < UInt64.size) (h : d.boundaryCells? s e = some (x, y)) :
    (∀ p ∈ [s, e], (UInt64.ofNat p.offset + 1).toNat = p.offset + 1) ∧
    (d.Crossed s e x y → d.Precedes y x) ∧ (¬ d.Crossed s e x y → x = y ∨ d.Precedes x y) := by
  refine ⟨fun p hp => ?_, ?_⟩
  · have : p.offset ≤ e.offset := by
      rcases List.mem_pair.1 hp with rfl | rfl
      · exact hlt.le
      · exact le_rfl
    rw [show (1 : UInt64) = UInt64.ofNat 1 from rfl, ← UInt64.ofNat_add]
    exact UInt64.toNat_ofNat_of_lt' (by omega)
  rcases eq_or_ne x y with rfl | hne
  · exact ⟨fun crossed => absurd rfl crossed.ne, fun _ => .inl rfl⟩
  have ends : d.normalizedEnds s e = (d.foldForward s (d.nearestCaret s s.direction),
      d.foldBackward e (d.nearestCaret e e.direction)) := if_pos hlt
  obtain ⟨t, separated⟩ := (wf.boundaryCells?_eq_distinct ends hne).1 h
  have start := wf.moved_foldForward s
  have stop := wf.moved_foldBackward e
  refine ⟨fun crossed => separated.symm.precedes wf (crossed.lt wf hlt separated start stop).le, ?_⟩
  intro h
  refine .inr (separated.precedes wf (not_lt.1 fun turned => h ?_))
  exact crossed_of_lt wf hlt separated start stop turned

/-- A table of one column and two rows. -/
def stackedCells : Document Int :=
  Call.runAll [.buildTable .standard root { groups := [[[{ text := "a" }], [{ text := "b" }]]] }]
    .empty

/-- Both ends are in the first cell, behind its text. The start goes on into the second cell, and the end
back to the text. -/
theorem selection_turned :
    stackedCells.WellFormed ∧ stackedCells.Holds 4 8 ∧ stackedCells.Holds 4 9 ∧
      stackedCells.boundaryCells? ⟨8, .forward⟩ ⟨9, .backward⟩ = some (8, 4) ∧
      ¬ (8 = 4 ∨ stackedCells.Precedes 8 4) := by
  have start : stackedCells.elementStart? 4 = some 3 ∧ stackedCells.elementStart? 8 = some 12 := by
    decide +kernel
  have wf : stackedCells.WellFormed := Call.wellFormed_runAll _
  have length : stackedCells.symbolLength 4 = 7 := by decide +kernel
  refine ⟨wf, (wf.holds_iff_between start.1).2 ?_, (wf.holds_iff_between start.1).2 ?_,
    by decide +kernel, ?_⟩
  · omega
  · omega
  · rintro (h | h)
    · cases h
    · exact h.asymm ⟨3, 12, start.1, start.2, by decide⟩

/-- Behind the text of the first cell a start that leans forward and an end that leans backward cross,
and with the directions exchanged they do not. -/
theorem selection_direction_stackedCells :
    stackedCells.WellFormed ∧
      stackedCells.boundaryCells? ⟨8, .forward⟩ ⟨14, .backward⟩ = some (8, 4) ∧
      stackedCells.Crossed ⟨8, .forward⟩ ⟨14, .backward⟩ 8 4 ∧
      stackedCells.boundaryCells? ⟨8, .backward⟩ ⟨14, .forward⟩ = some (4, 8) ∧
      ¬ stackedCells.Crossed ⟨8, .backward⟩ ⟨14, .forward⟩ 4 8 ∧
      stackedCells.Precedes 4 8 ∧ (4 = 8 ∨ stackedCells.Precedes 4 8) := by
  have wf : stackedCells.WellFormed := Call.wellFormed_runAll _
  have crossing : stackedCells.boundaryCells? ⟨8, .forward⟩ ⟨14, .backward⟩ = some (8, 4) := by
    decide +kernel
  have apart : stackedCells.boundaryCells? ⟨8, .backward⟩ ⟨14, .forward⟩ = some (4, 8) := by
    decide +kernel
  have stop : stackedCells.elementEnd? 8 = some 19 := by decide +kernel
  have crossed : stackedCells.Crossed ⟨8, .forward⟩ ⟨14, .backward⟩ 8 4 := by
    refine ⟨by decide, ⟨7, by decide +kernel⟩, fun o h₁ h₂ => ?_, .inl rfl, .inl rfl⟩
    have blank : ∀ o < 15, 8 ≤ o → stackedCells.isCaretOffset o = false := by decide +kernel
    exact blank o (Nat.lt_succ_of_le h₂) h₁
  have straight : ¬ stackedCells.Crossed ⟨8, .backward⟩ ⟨14, .forward⟩ 4 8 := by
    rintro ⟨-, -, -, ahead, -⟩
    simp [stop] at ahead
  exact ⟨wf, crossing, crossed, apart, straight,
    (selection_direction wf (by decide) (by decide) crossing).2.1 crossed,
    (selection_direction wf (by decide) (by decide) apart).2.2 straight⟩

end RichTable.Document
