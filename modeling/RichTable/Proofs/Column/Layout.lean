import Mathlib
import RichTable.Column.Layout

/-!
# Columns in exact arithmetic

Over the rationals the arithmetic of a layout is exact. The gaps and the widths that `compute?` gives
are not negative, so columns stand from left to right without overlap (`Ordered.of_compute?`).
-/

namespace RichTable

/-- Lengths without rounding. -/
instance Length.instRat : Length ℚ where
  zero := 0
  natCast n := n
  decLT _ _ := inferInstance
  decLE _ _ := inferInstance

namespace Length

theorem max_eq (a b : ℚ) : Length.max a b = a ⊔ b := by
  have refl : ¬ ¬ b ≤ b := not_not.2 le_rfl
  rw [Length.max]
  split_ifs with h
  · exact (max_eq_left (h.resolve_right refl).le).symm
  · exact (max_eq_right (not_lt.1 fun hlt => h (.inl hlt))).symm

theorem abs_eq (a : ℚ) : Length.abs a = |a| := by
  rw [Length.abs]
  split_ifs with h
  · exact (abs_of_neg h).symm
  · exact (abs_of_nonneg (not_lt.1 h)).symm

end Length

/-- The right border of a column. -/
def ColumnRect.right (r : ColumnRect ℚ) : ℚ := r.x + r.width

namespace ColumnLayout

variable {l : ColumnLayout ℚ} {c c' : Nat} {r r' : ColumnRect ℚ}

/-! ## The edges of columns -/

theorem length_edges (spacing x : ℚ) (widths : List ℚ) :
    (edges spacing x widths).length = widths.length := by
  induction widths generalizing x with
  | nil => rfl
  | cons w ws ih => rw [edges, List.length_cons, List.length_cons, ih]

/-- No column starts left of the point where the columns start. -/
theorem le_edges {spacing x p : ℚ} {widths : List ℚ} (hs : 0 ≤ spacing) (hw : ∀ w ∈ widths, 0 ≤ w)
    (h : p ∈ edges spacing x widths) : x ≤ p := by
  induction widths generalizing x with
  | nil => cases h
  | cons w ws ih =>
    rcases List.mem_cons.1 h with rfl | h
    · exact le_rfl
    · have rest := ih (fun v hv => hw v (by simp [hv])) h
      have := hw w (by simp)
      linarith

/-- A column ends before the columns behind it start, and so does the gap behind it. -/
theorem edges_apart {spacing x p w p' : ℚ} {widths : List ℚ} (hs : 0 ≤ spacing)
    (hw : ∀ w ∈ widths, 0 ≤ w) (hp : (edges spacing x widths)[c]? = some p)
    (hwidth : widths[c]? = some w) (hp' : (edges spacing x widths)[c']? = some p') (h : c < c') :
    p + w + spacing ≤ p' := by
  induction widths generalizing x c c' with
  | nil => cases hp
  | cons v ws ih =>
    have hws : ∀ w ∈ ws, 0 ≤ w := fun w hw' => hw w (by simp [hw'])
    obtain ⟨k, rfl⟩ : ∃ k, c' = k + 1 := ⟨c' - 1, by omega⟩
    rw [edges, List.getElem?_cons_succ] at hp'
    cases c with
    | zero =>
      rw [edges, List.getElem?_cons_zero, Option.some.injEq] at hp
      rw [List.getElem?_cons_zero, Option.some.injEq] at hwidth
      have := le_edges hs hws (List.mem_of_getElem? hp')
      linarith
    | succ c =>
      rw [edges, List.getElem?_cons_succ] at hp
      rw [List.getElem?_cons_succ] at hwidth
      exact ih hws hp hwidth hp' (by omega)

/-! ## Layouts from left to right -/

theorem rect?_eq_some :
    l.rect? c = some r ↔ l.positions[c]? = some r.x ∧ l.widths[c]? = some r.width := by
  rw [rect?]
  split
  · next x w hx hw =>
    rw [hx, hw, Option.some.injEq, Option.some.injEq, Option.some.injEq]
    constructor
    · rintro rfl
      exact ⟨rfl, rfl⟩
    · rintro ⟨rfl, rfl⟩
      rfl
  · next none =>
    simp only [reduceCtorEq, false_iff, not_and]
    intro hx hw
    exact none _ _ hx hw

/-- There are columns, none of them has a negative width, and they stand from left to right without
overlap. -/
structure Ordered (l : ColumnLayout ℚ) : Prop where
  nonempty : l.positions ≠ []
  length : l.positions.length = l.widths.length
  width : ∀ {c r}, l.rect? c = some r → 0 ≤ r.width
  apart : ∀ {c c' r r'}, l.rect? c = some r → l.rect? c' = some r' → c < c' → r.right ≤ r'.x

theorem resolve_nonneg {share : ℚ} (h : 0 ≤ share) (width : ColumnWidth ℚ) :
    0 ≤ width.resolve share := by
  cases width with
  | auto => exact h
  | fixed w =>
    rw [ColumnWidth.resolve, Length.max_eq]
    exact le_max_right _ _

theorem autoShare_nonneg (columns : List (ColumnWidth ℚ)) (gaps autofitWidth : ℚ) :
    0 ≤ autoShare columns gaps autofitWidth := by
  simp only [autoShare]
  split_ifs
  · rw [Length.max_eq]
    exact div_nonneg (le_max_right _ _) (Nat.cast_nonneg _)
  · exact le_rfl

/-- What a layout is computed from. -/
theorem exists_of_compute? {d : Document ℚ} {t : NodeId} {autofitWidth : ℚ}
    (h : compute? d t autofitWidth = some l) : ∃ props, d.table? t = some props ∧
      props.columnCount ≠ 0 ∧ l.autofitWidth = autofitWidth ∧
      l.cellSpacing = Length.max props.cellSpacing 0 ∧
      l.positions = edges l.cellSpacing l.cellSpacing l.widths ∧
      l.widths = (props.effectiveColumns props.columnCount).map (ColumnWidth.resolve (autoShare
        (props.effectiveColumns props.columnCount) (l.cellSpacing * Nat.cast (props.columnCount + 1))
        autofitWidth)) := by
  rw [compute?] at h
  split at h
  · cases h
  · next props hprops =>
    simp only at h
    split_ifs at h with hcount
    obtain rfl := Option.some.inj h
    exact ⟨props, hprops, hcount, rfl, rfl, rfl, rfl⟩

/-- A layout that has been computed is ordered. -/
theorem Ordered.of_compute? {d : Document ℚ} {t : NodeId} {autofitWidth : ℚ}
    (h : compute? d t autofitWidth = some l) : l.Ordered := by
  obtain ⟨props, -, hcount, -, hspacing, hpositions, hwidths⟩ := exists_of_compute? h
  have spacing : 0 ≤ l.cellSpacing := by
    rw [hspacing, Length.max_eq]
    exact le_max_right _ _
  have nonneg : ∀ w ∈ l.widths, 0 ≤ w := fun w hw => by
    rw [hwidths] at hw
    obtain ⟨width, -, rfl⟩ := List.mem_map.1 hw
    exact resolve_nonneg (autoShare_nonneg _ _ _) width
  have length : l.positions.length = l.widths.length := by rw [hpositions, length_edges]
  refine ⟨fun empty => ?_, length, fun hr => ?_, fun hr hr' hlt => ?_⟩
  · have count : l.widths.length = props.columnCount := by
      rw [hwidths, List.length_map, TableProps.effectiveColumns, List.length_map, List.length_range]
    rw [empty, count] at length
    exact hcount length.symm
  · exact nonneg _ (List.mem_of_getElem? (rect?_eq_some.1 hr).2)
  · obtain ⟨hp, hw⟩ := rect?_eq_some.1 hr
    obtain ⟨hp', -⟩ := rect?_eq_some.1 hr'
    rw [hpositions] at hp hp'
    have := edges_apart spacing nonneg hp hw hp' hlt
    rw [ColumnRect.right]
    linarith

namespace Ordered

theorem x_le_right (h : l.Ordered) (hr : l.rect? c = some r) : r.x ≤ r.right := by
  have := h.width hr
  rw [ColumnRect.right]
  linarith

theorem right_le (h : l.Ordered) (hr : l.rect? c = some r) (hr' : l.rect? c' = some r')
    (hle : c ≤ c') : r.right ≤ r'.right := by
  rcases Nat.lt_or_eq_of_le hle with hlt | rfl
  · exact (h.apart hr hr' hlt).trans (h.x_le_right hr')
  · rw [Option.some.inj (hr.symm.trans hr')]

theorem exists_rect (h : l.Ordered) (hc : c < l.positions.length) : ∃ r, l.rect? c = some r :=
  ⟨⟨_, _⟩, rect?_eq_some.2 ⟨List.getElem?_eq_getElem hc, List.getElem?_eq_getElem (h.length ▸ hc)⟩⟩

theorem sorted (h : l.Ordered) : l.positions.Pairwise (· ≤ ·) := by
  refine List.pairwise_iff_getElem.2 fun i j hi hj hij => ?_
  obtain ⟨r, hr⟩ := h.exists_rect hi
  obtain ⟨r', hr'⟩ := h.exists_rect hj
  have hx := (rect?_eq_some.1 hr).1
  have hx' := (rect?_eq_some.1 hr').1
  rw [List.getElem?_eq_getElem hi, Option.some.injEq] at hx
  rw [List.getElem?_eq_getElem hj, Option.some.injEq] at hx'
  rw [hx, hx']
  exact (h.x_le_right hr).trans (h.apart hr hr' hij)

end Ordered

end ColumnLayout

end RichTable
