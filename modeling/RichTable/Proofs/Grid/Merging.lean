import Mathlib
import RichTable.Proofs.Grid.Tiling

/-!
# Tilings with cells merged

Merging is two changes of a tiling: the cells of a rectangle give way to one of them (`Merging`), and
rows that have lost all their cells are taken out (`RowRemoval`).
-/

namespace RichTable.Tiling

variable {n : Nat} {a b : Shape} {rows rows' : List (List NodeId)}

theorem stored_map_filter {keep : NodeId → Bool} {i : Nat} {x : NodeId} :
    Stored (rows.map (·.filter keep)) i x ↔ Stored rows i x ∧ keep x := by
  simp only [Stored, List.getElem?_map, Option.map_eq_some_iff]
  constructor
  · rintro ⟨_, ⟨row, hr, rfl⟩, hx⟩
    obtain ⟨hx, hk⟩ := List.mem_filter.1 hx
    exact ⟨⟨row, hr, hx⟩, hk⟩
  · rintro ⟨⟨row, hr, hx⟩, hk⟩
    exact ⟨_, ⟨row, hr, rfl⟩, List.mem_filter.2 ⟨hx, hk⟩⟩

/-! ## One cell for many -/

/-- The cells of rows `top` to `bottom` and columns `left` to `right`, none of which the rectangle
cuts, give way to the cell `v` in its corner. `keep` tells which cells stay. -/
structure Merging (a b : Shape) (top bottom left right : Nat) (v : NodeId) (keep : NodeId → Bool)
    (rows rows' : List (List NodeId)) : Prop where
  range : top ≤ bottom ∧ bottom < rows.length ∧ left ≤ right
  stored : Stored rows top v
  corner : a.start v = left
  keep_iff : ∀ {r c}, Stored rows r c → (keep c ↔ c = v ∨
    ∀ i j, top ≤ i → i ≤ bottom → left ≤ j → j ≤ right → a.Reaches rows i c → ¬ a.Spans j c)
  inside : ∀ {r c}, Stored rows r c → c = v ∨ keep c = false → ∀ i j, i < rows.length →
    a.Reaches rows i c → a.Spans j c → (top ≤ i ∧ i ≤ bottom) ∧ left ≤ j ∧ j ≤ right
  rows_eq : rows' = rows.map (·.filter keep)
  start : ∀ {r c}, Stored rows r c → b.start c = a.start c
  width : ∀ {r c}, Stored rows r c → b.width c = if c = v then right + 1 - left else a.width c
  height : ∀ {r c}, Stored rows r c → b.height c = if c = v then bottom + 1 - top else a.height c

namespace Merging

variable {top bottom left right : Nat} {v : NodeId} {keep : NodeId → Bool}

theorem stored_iff (w : Merging a b top bottom left right v keep rows rows') {i : Nat} {x : NodeId} :
    Stored rows' i x ↔ Stored rows i x ∧ keep x := by
  rw [w.rows_eq, stored_map_filter]

theorem length_eq (w : Merging a b top bottom left right v keep rows rows') :
    rows'.length = rows.length := by
  simp [w.rows_eq]

theorem keep_corner (w : Merging a b top bottom left right v keep rows rows') : keep v :=
  (w.keep_iff w.stored).2 (.inl rfl)

theorem nodup (w : Merging a b top bottom left right v keep rows rows') (h : rows.flatten.Nodup) :
    rows'.flatten.Nodup := by
  rw [w.rows_eq, ← List.filter_flatten]
  exact h.filter _

/-- The merged cell covers the rectangle. -/
theorem covers_corner (w : Merging a b top bottom left right v keep rows rows')
    (nodup : rows'.flatten.Nodup) {i j : Nat} : b.Reaches rows' i v ∧ b.Spans j v ↔
      (top ≤ i ∧ i ≤ bottom) ∧ left ≤ j ∧ j ≤ right := by
  have := w.range
  have hs' : Stored rows' top v := w.stored_iff.2 ⟨w.stored, w.keep_corner⟩
  rw [hs'.reaches_iff nodup, Shape.Spans, w.height w.stored, w.start w.stored, w.width w.stored,
    w.corner]
  simp only [if_true]
  omega

/-- Any other cell covers what it covered before. -/
theorem covers_other (w : Merging a b top bottom left right v keep rows rows')
    (nodup : rows.flatten.Nodup) (nodup' : rows'.flatten.Nodup) {r i j : Nat} {x : NodeId}
    (hs : Stored rows r x) (hx : keep x) (hne : x ≠ v) :
    b.Reaches rows' i x ∧ b.Spans j x ↔ a.Reaches rows i x ∧ a.Spans j x := by
  have hs' : Stored rows' r x := w.stored_iff.2 ⟨hs, hx⟩
  rw [hs'.reaches_iff nodup', hs.reaches_iff nodup, Shape.Spans, Shape.Spans, w.height hs,
    w.start hs, w.width hs, if_neg hne, if_neg hne]

/-- The places of the rectangle show the merged cell, all others what they showed before. -/
theorem covers_iff (w : Merging a b top bottom left right v keep rows rows')
    (nodup : rows.flatten.Nodup) {i j : Nat} {x : NodeId} (hi : i < rows.length) :
    b.Covers rows' i j x ↔
      if (top ≤ i ∧ i ≤ bottom) ∧ left ≤ j ∧ j ≤ right then x = v else a.Covers rows i j x := by
  have nodup' := w.nodup nodup
  have other := fun {r} => w.covers_other nodup nodup' (r := r) (i := i) (j := j) (x := x)
  split_ifs with rect
  · refine ⟨fun hx => ?_, ?_⟩
    · obtain ⟨r', hx', -⟩ := id hx.1
      obtain ⟨hs, hk⟩ := w.stored_iff.1 hx'
      by_contra hne
      obtain ⟨hr, hj⟩ := (other hs hk hne).1 hx
      exact ((w.keep_iff hs).1 hk).resolve_left hne i j rect.1.1 rect.1.2 rect.2.1 rect.2.2 hr hj
    · rintro rfl
      exact (w.covers_corner nodup').2 rect
  · constructor
    · intro hx
      obtain ⟨r', hx', -⟩ := id hx.1
      obtain ⟨hs, hk⟩ := w.stored_iff.1 hx'
      by_cases hv : x = v
      · subst hv
        exact absurd ((w.covers_corner nodup').1 hx) rect
      · exact (other hs hk hv).1 hx
    · intro hx
      obtain ⟨r, hs, -⟩ := id hx.1
      have hkeep : keep x ∧ x ≠ v := by
        by_contra h
        refine rect (w.inside hs ?_ i j hi hx.1 hx.2)
        by_cases hv : x = v
        · exact .inl hv
        · exact .inr (by simpa [hv] using h)
      exact (other hs hkeep.1 hkeep.2).2 hx

/-- A tiling stays one when the cells of a rectangle are merged. -/
theorem tiling (w : Merging a b top bottom left right v keep rows rows') (t : Tiling n a rows)
    (hn : right < n) : Tiling n b rows' := by
  have range := w.range
  refine .of_unique (w.nodup t.nodup) (fun {r x} hx => ?_) (fun {r x} hx => ?_) (fun row' hrow => ?_)
    fun i hi j hj => ?_
  · obtain ⟨hs, -⟩ := w.stored_iff.1 hx
    have := t.width_pos hs
    have := t.height_pos hs
    rw [w.width hs, w.height hs]
    split_ifs <;> omega
  · obtain ⟨hs, -⟩ := w.stored_iff.1 hx
    have := t.within hs
    rw [w.start hs, w.width hs]
    split_ifs with h
    · subst h
      rw [w.corner]
      omega
    · exact this
  · obtain ⟨r, hr'⟩ := List.getElem?_of_mem hrow
    rw [w.rows_eq, List.getElem?_map, Option.map_eq_some_iff] at hr'
    obtain ⟨row, hr, rfl⟩ := hr'
    refine ((t.ordered row (List.mem_of_getElem? hr)).sublist List.filter_sublist).imp_of_mem
      fun {x y} hx hy h => ?_
    obtain ⟨hx, -⟩ := List.mem_filter.1 hx
    obtain ⟨hy, hky⟩ := List.mem_filter.1 hy
    have hsx : Stored rows r x := ⟨row, hr, hx⟩
    have hsy : Stored rows r y := ⟨row, hr, hy⟩
    rw [w.start hsx, w.width hsx, w.start hsy]
    split_ifs with hxv
    · -- A cell behind `v` in its row does not start in the rectangle.
      subst hxv
      obtain rfl := hsx.row_unique t.nodup w.stored
      have hyv : y ≠ x := by
        rintro rfl
        have := t.width_pos hsx
        omega
      have free := ((w.keep_iff hsy).1 hky).resolve_left hyv r (a.start y) le_rfl range.1
      have corner := w.corner
      have pos := t.height_pos hsy
      by_contra hlt
      exact free (by omega) (by omega) ⟨r, hsy, le_rfl, by omega⟩
        ⟨le_rfl, Nat.lt_add_of_pos_right (t.width_pos hsy)⟩
    · exact h
  · have hi' : i < rows.length := w.length_eq ▸ hi
    obtain ⟨c, hc⟩ := t.unique hi' hj
    by_cases rect : (top ≤ i ∧ i ≤ bottom) ∧ left ≤ j ∧ j ≤ right
    · exact ⟨v, fun x => (w.covers_iff t.nodup hi').trans (by rw [if_pos rect])⟩
    · exact ⟨c, fun x => (w.covers_iff t.nodup hi').trans (by rw [if_neg rect]; exact hc x)⟩

end Merging

/-! ## An empty row less -/

/-- Row `k`, which stores no cell, is taken out. Cells that reach over it get shorter. -/
structure RowRemoval (a b : Shape) (k : Nat) (rows rows' : List (List NodeId)) : Prop where
  empty : rows[k]? = some []
  rows_eq : rows' = rows.eraseIdx k
  start : ∀ {r c}, Stored rows r c → b.start c = a.start c
  width : ∀ {r c}, Stored rows r c → b.width c = a.width c
  height : ∀ {r c}, Stored rows r c →
    b.height c = if r < k ∧ k < r + a.height c then a.height c - 1 else a.height c

namespace RowRemoval

variable {k : Nat}

theorem stored_iff (w : RowRemoval a b k rows rows') {i : Nat} {x : NodeId} :
    Stored rows' i x ↔ Stored rows (if i < k then i else i + 1) x := by
  unfold Stored
  rw [w.rows_eq, List.getElem?_eraseIdx]
  split_ifs <;> rfl

theorem ne_of_stored (w : RowRemoval a b k rows rows') {r : Nat} {x : NodeId}
    (hs : Stored rows r x) : r ≠ k := by
  rintro rfl
  obtain ⟨row, hr, hx⟩ := hs
  rw [w.empty, Option.some.injEq] at hr
  simp [← hr] at hx

theorem old (w : RowRemoval a b k rows rows') {r : Nat} {x : NodeId} (hs : Stored rows r x) :
    Stored rows' (if r < k then r else r - 1) x := by
  have := w.ne_of_stored hs
  rw [w.stored_iff]
  split_ifs with h₁ h₂
  · exact hs
  · omega
  · rwa [Nat.sub_add_cancel (by omega)]

theorem nodup (w : RowRemoval a b k rows rows') (h : rows.flatten.Nodup) :
    rows'.flatten.Nodup := by
  rw [w.rows_eq]
  exact h.sublist (List.eraseIdx_sublist _ _).flatten

/-- The other rows show what they showed before. -/
theorem covers_iff (w : RowRemoval a b k rows rows') (nodup : rows.flatten.Nodup) {i j : Nat}
    {x : NodeId} : b.Covers rows' i j x ↔ a.Covers rows (if i < k then i else i + 1) j x := by
  have eq : ∀ {r}, Stored rows r x → (b.Covers rows' i j x ↔
      a.Covers rows (if i < k then i else i + 1) j x) := fun hs => by
    have := w.ne_of_stored hs
    rw [Shape.Covers, Shape.Covers, (w.old hs).reaches_iff (w.nodup nodup), hs.reaches_iff nodup,
      Shape.Spans, Shape.Spans, w.start hs, w.width hs, w.height hs]
    refine and_congr_left' ?_
    split_ifs <;> omega
  constructor
  · intro h
    obtain ⟨r, hs, -⟩ := id h.1
    exact (eq (w.stored_iff.1 hs)).1 h
  · intro h
    obtain ⟨r, hs, -⟩ := id h.1
    exact (eq hs).2 h

/-- A tiling stays one when an empty row is taken out. -/
theorem tiling (w : RowRemoval a b k rows rows') (t : Tiling n a rows) : Tiling n b rows' := by
  have hk : k < rows.length := (List.getElem?_eq_some_iff.1 w.empty).1
  have length : rows'.length = rows.length - 1 := by
    rw [w.rows_eq, List.length_eraseIdx_of_lt hk]
  refine .of_unique (w.nodup t.nodup) (fun {r x} hx => ?_) (fun {r x} hx => ?_) (fun row hrow => ?_)
    fun i hi j hj => ?_
  · have hs := w.stored_iff.1 hx
    have := t.height_pos hs
    refine ⟨w.width hs ▸ t.width_pos hs, ?_⟩
    rw [w.height hs]
    split_ifs <;> omega
  · have hs := w.stored_iff.1 hx
    rw [w.start hs, w.width hs]
    exact t.within hs
  · rw [w.rows_eq] at hrow
    have hrow := List.mem_of_mem_eraseIdx hrow
    obtain ⟨r, hr⟩ := List.getElem?_of_mem hrow
    refine (t.ordered row hrow).imp_of_mem fun {x y} hx hy h => ?_
    rwa [w.start ⟨row, hr, hx⟩, w.width ⟨row, hr, hx⟩, w.start ⟨row, hr, hy⟩]
  · have hi' : (if i < k then i else i + 1) < rows.length := by split_ifs <;> omega
    obtain ⟨c, hc⟩ := t.unique hi' hj
    exact ⟨c, fun x => (w.covers_iff t.nodup).trans (hc x)⟩

end RowRemoval

end RichTable.Tiling
