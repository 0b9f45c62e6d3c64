import Mathlib
import RichTable.Proofs.Column.Layout
import RichTable.Proofs.Tree.Calls

/-!
# The column border near a point

`borderAt?` looks at the right borders of two columns: the last one that does not start behind the
point, and the one to its left. Of all columns up to there, the nearest border is one of these two
(`Ordered.exists_borderAt?`). A column behind the point is not looked at. If the point is in the gap
before a narrow column, the right border of that column may be the nearest of all (`Overlooked`); this
is the only way to miss the nearest border (`borderAt?_nearest`).
-/

namespace RichTable.ColumnLayout

variable {l : ColumnLayout ℚ} {x tolerance : ℚ} {c c' near : Nat} {r r' : ColumnRect ℚ}

/-! ## The column at a point -/

/-- In a sorted list, the entries up to a bound come first. -/
theorem lt_length_takeWhile_iff {ps : List ℚ} (sorted : ps.Pairwise (· ≤ ·)) {i : Nat} {p : ℚ}
    (h : ps[i]? = some p) : i < (ps.takeWhile fun p => ¬ x < p).length ↔ p ≤ x := by
  induction ps generalizing i with
  | nil => cases h
  | cons q ps ih =>
    obtain ⟨first, rest⟩ := List.pairwise_cons.1 sorted
    by_cases hq : x < q
    · have hp : q ≤ p := by
        rcases List.mem_cons.1 (List.mem_of_getElem? h) with rfl | hp
        · exact le_rfl
        · exact first p hp
      rw [List.takeWhile_cons_of_neg (by simpa using hq)]
      simp [hq.trans_le hp]
    · rw [List.takeWhile_cons_of_pos (by simpa using hq), List.length_cons]
      cases i with
      | zero =>
        rw [List.getElem?_cons_zero, Option.some.injEq] at h
        simpa [← h] using hq
      | succ i => rw [Nat.add_lt_add_iff_right, ih rest h]

/-- The column is not behind the point, or it is the first one. -/
def Reached (x : ℚ) (c : Nat) (r : ColumnRect ℚ) : Prop := c = 0 ∨ r.x ≤ x

/-- `columnAt?` finds the last column that the point has reached. -/
theorem Ordered.exists_columnAt? (h : l.Ordered) (x : ℚ) : ∃ near r, l.columnAt? x = some near ∧
    l.rect? near = some r ∧ ∀ c r, l.rect? c = some r → (c ≤ near ↔ Reached x c r) := by
  have pos : 0 < l.positions.length := List.length_pos_of_ne_nil h.nonempty
  have hle := (List.takeWhile_sublist (l := l.positions) fun p => ¬ x < p).length_le
  obtain ⟨r, hr⟩ := h.exists_rect
    (show (l.positions.takeWhile fun p => ¬ x < p).length - 1 < l.positions.length by omega)
  refine ⟨_, r, ?_, hr, fun c r hc => ?_⟩
  · rw [columnAt?, if_neg (by simpa using h.nonempty)]
  · rw [Reached, ← lt_length_takeWhile_iff h.sorted (rect?_eq_some.1 hc).1]
    omega

/-! ## The two borders that are looked at -/

theorem borderDistance?_eq (hr : l.rect? c = some r) : l.borderDistance? x tolerance c =
    if |r.right - x| ≤ tolerance then some |r.right - x| else none := by
  rw [borderDistance?, hr, Option.bind_some]
  simp only [Length.abs_eq]
  rfl

/-- The border of a column is at most as far from the point as those of the columns up to `near`. -/
def NearestUpTo (l : ColumnLayout ℚ) (x : ℚ) (near : Nat) (r : ColumnRect ℚ) : Prop :=
  ∀ c' r', l.rect? c' = some r' → c' ≤ near → |r.right - x| ≤ |r'.right - x|

/-- Left of the column at a point, the last border is the nearest. -/
theorem Ordered.nearestUpTo_left (h : l.Ordered) (hr : l.rect? c = some r)
    (hr' : l.rect? (c + 1) = some r') (hx : r'.x ≤ x) : l.NearestUpTo x c r := by
  intro b s hs hle
  have h₁ := h.right_le hs hr hle
  have h₂ := h.apart hr hr' (Nat.lt_succ_self c)
  rw [abs_of_nonpos (by linarith), abs_of_nonpos (by linarith)]
  linarith

theorem NearestUpTo.succ (h : l.NearestUpTo x c r) (hr' : l.rect? (c + 1) = some r')
    (hle : |r.right - x| ≤ |r'.right - x|) : l.NearestUpTo x (c + 1) r := by
  intro b s hs hb
  rcases Nat.lt_or_eq_of_le hb with hlt | rfl
  · exact h b s hs (by omega)
  · rwa [← Option.some.inj (hr'.symm.trans hs)]

theorem NearestUpTo.last (h : l.NearestUpTo x c r) (hr' : l.rect? (c + 1) = some r')
    (hle : |r'.right - x| ≤ |r.right - x|) : l.NearestUpTo x (c + 1) r' := by
  intro b s hs hb
  rcases Nat.lt_or_eq_of_le hb with hlt | rfl
  · exact hle.trans (h b s hs (by omega))
  · rw [Option.some.inj (hr'.symm.trans hs)]

/-- What `borderAt?` does: it takes the nearest border up to the column at the point, provided it is
within the tolerance. -/
theorem Ordered.exists_borderAt? (h : l.Ordered) (hnear : l.columnAt? x = some near)
    (reached : ∀ c r, l.rect? c = some r → (c ≤ near ↔ Reached x c r)) (hr : l.rect? near = some r)
    (tolerance : ℚ) : ∃ c s, l.rect? c = some s ∧ c ≤ near ∧ l.NearestUpTo x near s ∧
      l.borderAt? x tolerance = if |s.right - x| ≤ tolerance then some c else none := by
  rw [borderAt?, hnear, Option.bind_some]
  cases near with
  | zero =>
    refine ⟨0, r, hr, le_rfl, fun c' r' hr' hle => ?_, ?_⟩
    · rw [Nat.le_zero.1 hle, hr, Option.some.injEq] at hr'
      rw [hr']
    · simp only [if_pos, borderDistance?_eq hr]
      split_ifs <;> rfl
  | succ m =>
    obtain ⟨s, hs⟩ := h.exists_rect (c := m) <| by
      have := (List.getElem?_eq_some_iff.1 (rect?_eq_some.1 hr).1).1
      omega
    have hx : r.x ≤ x := ((reached _ _ hr).1 le_rfl).resolve_left (Nat.succ_ne_zero m)
    have left := h.nearestUpTo_left hs hr hx
    simp only [Nat.succ_ne_zero, if_false, Nat.add_sub_cancel, borderDistance?_eq hs,
      borderDistance?_eq hr]
    by_cases hlt : |r.right - x| < |s.right - x|
    · refine ⟨m + 1, r, hr, le_rfl, left.last hr hlt.le, ?_⟩
      by_cases hin : |r.right - x| ≤ tolerance
      · by_cases hout : |s.right - x| ≤ tolerance <;> simp [hin, hout, hlt]
      · have hout : ¬ |s.right - x| ≤ tolerance := fun hle => hin (hlt.le.trans hle)
        simp [hin, hout]
    · refine ⟨m, s, hs, by omega, left.succ hr (not_lt.1 hlt), ?_⟩
      by_cases hin : |s.right - x| ≤ tolerance
      · by_cases hout : |r.right - x| ≤ tolerance <;> simp [hin, hout, hlt]
      · have hout : ¬ |r.right - x| ≤ tolerance := fun hle => hin ((not_lt.1 hlt).trans hle)
        simp [hin, hout]

section Found

variable {b : Nat} {s : ColumnRect ℚ}
  (found : l.borderAt? x tolerance = if |s.right - x| ≤ tolerance then some b else none)

include found

theorem isSome_borderAt?_iff : (l.borderAt? x tolerance).isSome ↔ |s.right - x| ≤ tolerance := by
  rw [found]
  split_ifs with hin <;> simp [hin]

theorem eq_of_borderAt? (hc : l.borderAt? x tolerance = some c) :
    c = b ∧ |s.right - x| ≤ tolerance := by
  have hin := (isSome_borderAt?_iff found).1 (by rw [hc]; rfl)
  rw [found, if_pos hin, Option.some.injEq] at hc
  exact ⟨hc.symm, hin⟩

end Found

/-! ## The borders that are not looked at -/

/-- The point is before column `c + 1`, and yet nearer to the right border of that column than to that
of column `c`. -/
def Overlooked (l : ColumnLayout ℚ) (x : ℚ) (c : Nat) (r' : ColumnRect ℚ) : Prop :=
  ∃ r, l.rect? c = some r ∧ l.rect? (c + 1) = some r' ∧ x < r'.x ∧ |r'.right - x| < |r.right - x|

/-- A column is found if and only if the right border of some column is within the tolerance, and then
the border of the column that is found is a nearest one. -/
structure FindsNearest (l : ColumnLayout ℚ) (x tolerance : ℚ) : Prop where
  isSome_iff : (l.borderAt? x tolerance).isSome ↔
    ∃ c r, l.rect? c = some r ∧ |r.right - x| ≤ tolerance
  nearest : ∀ c, l.borderAt? x tolerance = some c → ∃ r, l.rect? c = some r ∧
    ∀ c' r', l.rect? c' = some r' → |r.right - x| ≤ |r'.right - x|

namespace Ordered

variable (h : l.Ordered) (reached : ∀ c r, l.rect? c = some r → (c ≤ near ↔ Reached x c r))

include h reached

/-- Behind the column at a point, borders get farther and farther away. -/
theorem right_sub_le_of_behind {b b' : Nat} {s s' : ColumnRect ℚ} (hs : l.rect? b = some s)
    (hs' : l.rect? b' = some s') (hb : near < b) (hle : b ≤ b') :
    x < s.x ∧ |s.right - x| ≤ |s'.right - x| := by
  have hx : x < s.x := not_le.1 fun hx => Nat.not_le.2 hb ((reached b s hs).2 (.inr hx))
  have h₁ := h.x_le_right hs
  have h₂ := h.right_le hs hs' hle
  refine ⟨hx, ?_⟩
  rw [abs_of_nonneg (by linarith), abs_of_nonneg (by linarith)]
  linarith

variable (hr : l.rect? near = some r)

include hr

/-- Only the column behind the one at a point can be overlooked, and then the point is behind the
border of the latter. -/
theorem eq_of_overlooked {b : Nat} {s : ColumnRect ℚ} (missed : l.Overlooked x b s) :
    b = near ∧ r.right < x := by
  obtain ⟨s', hs', hs, hx, hlt⟩ := missed
  have hnear : near < b + 1 := Nat.lt_of_not_le fun hle =>
    ((reached _ _ hs).1 hle).elim (Nat.succ_ne_zero b) (not_le.2 hx)
  obtain rfl : b = near := by
    by_contra hne
    have := (h.right_sub_le_of_behind reached hs' hs (by omega) (Nat.le_succ b)).2
    linarith
  obtain rfl := Option.some.inj (hr.symm.trans hs')
  refine ⟨rfl, not_le.1 fun hle => ?_⟩
  have := h.right_le hr hs (Nat.le_succ b)
  rw [abs_of_nonneg (by linarith), abs_of_nonneg (by linarith)] at hlt
  linarith

/-- If no column is overlooked, no border within the tolerance is nearer than all borders up to the
column at the point. -/
theorem nearest_of_not_overlooked {s : ColumnRect ℚ} (hs : l.NearestUpTo x near s)
    (seen : ∀ c r, l.Overlooked x c r → tolerance < |r.right - x|) {b : Nat} {s' : ColumnRect ℚ}
    (hs' : l.rect? b = some s') : |s.right - x| ≤ |s'.right - x| ∨ tolerance < |s'.right - x| := by
  rcases Nat.lt_or_ge near b with hlt | hle
  · obtain ⟨u, hu⟩ := h.exists_rect (c := near + 1) <| by
      have := (List.getElem?_eq_some_iff.1 (rect?_eq_some.1 hs').1).1
      omega
    obtain ⟨hx, far⟩ := h.right_sub_le_of_behind reached hu hs' (Nat.lt_succ_self near) hlt
    by_cases closer : |u.right - x| < |r.right - x|
    · exact .inr ((seen near u ⟨r, hr, hu, hx, closer⟩).trans_le far)
    · exact .inl ((hs _ _ hr le_rfl).trans ((not_lt.1 closer).trans far))
  · exact .inl (hs _ _ hs' hle)

variable {b : Nat} {s : ColumnRect ℚ} (hs : l.rect? b = some s)
  (found : l.borderAt? x tolerance = if |s.right - x| ≤ tolerance then some b else none)

include hs found

/-- The border that is found is no nearer than that of the column at the point, so it is not a nearest
one if the border behind it is overlooked. -/
theorem lt_of_findsNearest (hb : b ≤ near) (finds : l.FindsNearest x tolerance) {u : ColumnRect ℚ}
    (missed : l.Overlooked x c u) : tolerance < |u.right - x| := by
  by_contra hin
  obtain ⟨rfl, hx⟩ := h.eq_of_overlooked reached hr missed
  obtain ⟨r', hr', hu, -, hlt⟩ := missed
  obtain rfl := Option.some.inj (hr.symm.trans hr')
  obtain ⟨c', hc⟩ := Option.isSome_iff_exists.1 (finds.isSome_iff.2 ⟨_, u, hu, not_lt.1 hin⟩)
  obtain ⟨v, hv, all⟩ := finds.nearest c' hc
  obtain ⟨rfl, -⟩ := eq_of_borderAt? found hc
  have h₁ := all _ u hu
  have h₂ := h.right_le hv hr hb
  rw [abs_of_neg (show v.right - x < 0 by linarith)] at h₁
  rw [abs_of_neg (show r.right - x < 0 by linarith)] at hlt
  linarith

theorem findsNearest (nearest : l.NearestUpTo x near s)
    (seen : ∀ c r, l.Overlooked x c r → tolerance < |r.right - x|) : l.FindsNearest x tolerance := by
  have all : ∀ {c' r'}, l.rect? c' = some r' →
      |s.right - x| ≤ |r'.right - x| ∨ tolerance < |r'.right - x| := fun hr' =>
    h.nearest_of_not_overlooked reached hr nearest seen hr'
  refine ⟨?_, fun c hc => ?_⟩
  · rw [isSome_borderAt?_iff found]
    constructor
    · exact fun hin => ⟨b, s, hs, hin⟩
    · rintro ⟨c, r', hr', hin⟩
      exact ((all hr').resolve_right (not_lt.2 hin)).trans hin
  · obtain ⟨rfl, hin⟩ := eq_of_borderAt? found hc
    refine ⟨s, hs, fun c' r' hr' => ?_⟩
    rcases all hr' with hle | hlt
    · exact hle
    · exact (hin.trans_lt hlt).le

end Ordered

/-- Of the columns that a point has reached, `borderAt?` finds one with a nearest right border, if this
is within the tolerance. This is a nearest border of all columns unless a column is overlooked whose
border is within the tolerance, and only then. -/
theorem borderAt?_nearest {d : Document ℚ} {t : NodeId} {autofitWidth : ℚ}
    (layout : compute? d t autofitWidth = some l) (x tolerance : ℚ) :
    ((l.borderAt? x tolerance).isSome ↔
      ∃ c r, l.rect? c = some r ∧ Reached x c r ∧ |r.right - x| ≤ tolerance) ∧
    (∀ c, l.borderAt? x tolerance = some c → ∃ r, l.rect? c = some r ∧ Reached x c r ∧
      ∀ c' r', l.rect? c' = some r' → Reached x c' r' → |r.right - x| ≤ |r'.right - x|) ∧
    (l.FindsNearest x tolerance ↔
      ∀ c r, l.Overlooked x c r → tolerance < |r.right - x|) := by
  have h := Ordered.of_compute? layout
  obtain ⟨near, r, hnear, hr, reached⟩ := h.exists_columnAt? x
  obtain ⟨b, s, hs, hb, nearest, found⟩ := h.exists_borderAt? hnear reached hr tolerance
  refine ⟨?_, fun c hc => ?_, fun finds c u missed => ?_, fun seen => ?_⟩
  · rw [isSome_borderAt?_iff found]
    constructor
    · exact fun hin => ⟨b, s, hs, (reached b s hs).1 hb, hin⟩
    · rintro ⟨c, r', hr', hc, hin⟩
      exact (nearest c r' hr' ((reached c r' hr').2 hc)).trans hin
  · obtain ⟨rfl, -⟩ := eq_of_borderAt? found hc
    refine ⟨s, hs, (reached c s hs).1 hb, fun c' r' hr' hc' => ?_⟩
    exact nearest c' r' hr' ((reached c' r' hr').2 hc')
  · exact h.lt_of_findsNearest reached hr hs found hb finds missed
  · exact h.findsNearest reached hr hs found nearest seen

/-- A table with wide gaps and a narrow second column. -/
def narrowColumn : Document ℚ :=
  Call.runAll [.buildTable .standard Document.root
    { cellSpacing := some 10
      columns := [.fixed 20, .fixed 1]
      groups := [[[{ text := "a" }, { text := "b" }]]] }, .place 1] .empty

/-- The layout of its columns. Their right borders are at 30 and at 41. -/
def narrowColumnLayout : ColumnLayout ℚ := ⟨[10, 40], [20, 1], 10, 100⟩

theorem compute?_narrowColumn : compute? narrowColumn 1 100 = some narrowColumnLayout := by
  decide +kernel

/-- At 34 the border of the first column is found. The point is before the second column, but not nearer
to its right border. -/
theorem borderAt?_nearest_narrowColumn :
    compute? narrowColumn 1 100 = some narrowColumnLayout ∧
      narrowColumnLayout.borderAt? 34 4 = some 0 ∧ narrowColumnLayout.FindsNearest 34 4 := by
  have found : narrowColumnLayout.borderAt? 34 4 = some 0 := by decide +kernel
  refine ⟨compute?_narrowColumn, found, ?_⟩
  refine (borderAt?_nearest compute?_narrowColumn 34 4).2.2.2 ?_
  rintro c r ⟨s, hs, hr, -, closer⟩
  obtain rfl : c = 0 := by
    have := (List.getElem?_eq_some_iff.1 (rect?_eq_some.1 hr).1).1
    simp only [narrowColumnLayout, List.length_cons, List.length_nil] at this
    omega
  obtain rfl : ⟨10, 20⟩ = s := Option.some.inj hs
  obtain rfl : ⟨40, 1⟩ = r := Option.some.inj hr
  norm_num [ColumnRect.right] at closer

/-- At 38 the border of the second column is within the tolerance, and no column is found. -/
theorem narrow_border_missed :
    compute? narrowColumn 1 100 = some narrowColumnLayout ∧ narrowColumnLayout.positions.Nodup ∧
      narrowColumnLayout.rect? 1 = some ⟨40, 1⟩ ∧ |(40 + 1 : ℚ) - 38| ≤ 4 ∧
      narrowColumnLayout.borderAt? 38 4 = none ∧ ¬ narrowColumnLayout.FindsNearest 38 4 := by
  have missed : narrowColumnLayout.borderAt? 38 4 = none := by decide +kernel
  have close : |(40 + 1 : ℚ) - 38| ≤ 4 := by norm_num
  refine ⟨compute?_narrowColumn, by decide +kernel, rfl, close, missed, fun finds => ?_⟩
  have found := finds.isSome_iff.2 ⟨1, ⟨40, 1⟩, rfl, close⟩
  rw [missed] at found
  cases found

end RichTable.ColumnLayout
