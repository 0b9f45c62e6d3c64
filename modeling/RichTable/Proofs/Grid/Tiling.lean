import Mathlib
import RichTable.Grid.Placement

/-!
# Tilings

A row group is a list of rows of cells. A `Shape` gives every cell a first column, a width and a
height; a cell stored in row `r` covers the rows from `r` on for its height, and its columns. The
group is tiled (`Tiling`) if every place of every row is covered by exactly one cell.

Cells placed greedily find the only tiling there is: `Tiling.groupStarts_eq`.
-/

namespace RichTable

/-- Row `r` stores the cell `c`. -/
def Stored (rows : List (List NodeId)) (r : Nat) (c : NodeId) : Prop :=
  ∃ row, rows[r]? = some row ∧ c ∈ row

/-- First column, width and height of cells. -/
structure Shape where
  start : NodeId → Nat
  width : NodeId → Nat
  height : NodeId → Nat

namespace Shape

/-- The columns of the cell `c` include `j`. -/
def Spans (a : Shape) (j : Nat) (c : NodeId) : Prop := a.start c ≤ j ∧ j < a.start c + a.width c

/-- The cell `c` is stored in row `i` or above, and reaches down to it. -/
def Reaches (a : Shape) (rows : List (List NodeId)) (i : Nat) (c : NodeId) : Prop :=
  ∃ r, Stored rows r c ∧ r ≤ i ∧ i < r + a.height c

/-- The cell `c` covers the place in row `i` and column `j`. -/
def Covers (a : Shape) (rows : List (List NodeId)) (i j : Nat) (c : NodeId) : Prop :=
  a.Reaches rows i c ∧ a.Spans j c

/-- The extent of a cell. -/
def extent (a : Shape) (c : NodeId) : Extent := ⟨a.width c, a.height c⟩

end Shape

/-- Every place in `n` columns is covered by exactly one cell, and every row stores its cells from
left to right. -/
structure Tiling (n : Nat) (a : Shape) (rows : List (List NodeId)) : Prop where
  nodup : rows.flatten.Nodup
  width_pos : ∀ {r c}, Stored rows r c → 0 < a.width c
  height_pos : ∀ {r c}, Stored rows r c → 0 < a.height c
  within : ∀ {r c}, Stored rows r c → a.start c + a.width c ≤ n
  ordered : ∀ row ∈ rows, row.Pairwise fun b c => a.start b + a.width b ≤ a.start c
  covered : ∀ {i j}, i < rows.length → j < n → ∃ c, a.Reaches rows i c ∧ a.Spans j c
  disjoint : ∀ {i j b c}, i < rows.length → a.Reaches rows i b → a.Spans j b →
    a.Reaches rows i c → a.Spans j c → b = c

/-! ## Stored cells -/

section Stored

variable {rows : List (List NodeId)} {r r' : Nat} {c : NodeId}

theorem Stored.lt_length (h : Stored rows r c) : r < rows.length := by
  obtain ⟨row, hr, -⟩ := h
  exact (List.getElem?_eq_some_iff.1 hr).1

theorem Stored.mem_flatten (h : Stored rows r c) : c ∈ rows.flatten := by
  obtain ⟨row, hr, hc⟩ := h
  exact List.mem_flatten.2 ⟨row, List.mem_of_getElem? hr, hc⟩

theorem exists_stored (h : c ∈ rows.flatten) : ∃ r, Stored rows r c := by
  obtain ⟨row, hr, hc⟩ := List.mem_flatten.1 h
  obtain ⟨r, hr⟩ := List.getElem?_of_mem hr
  exact ⟨r, row, hr, hc⟩

/-- A cell is stored in one row only. -/
theorem Stored.row_unique (nodup : rows.flatten.Nodup) (h : Stored rows r c)
    (h' : Stored rows r' c) : r = r' := by
  obtain ⟨row, hr, hc⟩ := h
  obtain ⟨row', hr', hc'⟩ := h'
  obtain ⟨hlt, rfl⟩ := List.getElem?_eq_some_iff.1 hr
  obtain ⟨hlt', rfl⟩ := List.getElem?_eq_some_iff.1 hr'
  rcases Nat.lt_trichotomy r r' with h | h | h
  · exact absurd hc' (List.pairwise_iff_getElem.1 (List.nodup_flatten.1 nodup).2 r r' hlt hlt' h hc)
  · exact h
  · exact absurd hc (List.pairwise_iff_getElem.1 (List.nodup_flatten.1 nodup).2 r' r hlt' hlt h hc')

theorem Stored.reaches_iff {a : Shape} (nodup : rows.flatten.Nodup) (h : Stored rows r c) {i : Nat} :
    a.Reaches rows i c ↔ r ≤ i ∧ i < r + a.height c := by
  constructor
  · rintro ⟨r', h', hle, hlt⟩
    obtain rfl := h'.row_unique nodup h
    exact ⟨hle, hlt⟩
  · exact fun ⟨hle, hlt⟩ => ⟨r, h, hle, hlt⟩

end Stored

/-! ## Occupation from above

`above cover j` is the number of rows for which column `j` is still occupied. -/

namespace Placement

/-- For how many rows a column is still occupied from above. -/
def above (cover : List Nat) (j : Nat) : Nat := (cover[j]?).getD 0

theorem above_pred (cover : List Nat) (j : Nat) :
    above (cover.map (· - 1)) j = above cover j - 1 := by
  simp only [above, List.getElem?_map]
  cases cover[j]? <;> rfl

theorem above_occupy (cover : List Nat) (start : Nat) (e : Extent) (j : Nat) :
    above (occupy cover start e) j =
      if start ≤ j ∧ j < start + e.width then e.height - 1 else above cover j := by
  have padded : ∀ i, ((cover ++ List.replicate (start + e.width - cover.length) 0)[i]?).getD 0 =
      above cover i := fun i => by
    rw [List.getElem?_append]
    split
    · rfl
    · next h =>
      rw [above, List.getElem?_eq_none (Nat.le_of_not_lt h), List.getElem?_replicate]
      split <;> rfl
  have long : start + e.width ≤
      (cover ++ List.replicate (start + e.width - cover.length) 0).length := by
    rw [List.length_append, List.length_replicate]
    omega
  unfold above occupy
  dsimp only
  rw [List.getElem?_append, List.getElem?_append]
  simp only [List.length_append, List.length_take, List.length_replicate] at long ⊢
  rw [Nat.min_eq_left (by omega)]
  split_ifs with h₁ h₂ h₃ h₄ h₅
  · omega
  · rw [List.getElem?_take, if_pos h₂, padded]
    rfl
  · rw [List.getElem?_replicate, if_pos (by omega)]
    rfl
  · omega
  · omega
  · rw [List.getElem?_drop, show start + e.width + (j - (start + e.width)) = j by omega, padded]
    rfl

theorem length_takeWhile_eq {p : Nat → Bool} : ∀ (m : Nat) (l : List Nat),
    (∀ i < m, ∃ x, l[i]? = some x ∧ p x) → (∀ x, l[m]? = some x → ¬ p x) →
    (l.takeWhile p).length = m
  | 0, [], _, _ => rfl
  | 0, x :: l, _, stop => by
    rw [List.takeWhile_cons_of_neg (stop x rfl)]
    rfl
  | m + 1, [], go, _ => by simpa using go 0 (by omega)
  | m + 1, x :: l, go, stop => by
    have hx : p x := by simpa using go 0 (by omega)
    rw [List.takeWhile_cons_of_pos hx, List.length_cons,
      length_takeWhile_eq m l (fun i hi => by simpa using go (i + 1) (by omega))
        (fun y hy => stop y (by simpa using hy))]

/-- The first free column is the one that is free behind occupied ones. -/
theorem firstFree_eq {cover : List Nat} {column free : Nat} (le : column ≤ free)
    (occupied : ∀ j, column ≤ j → j < free → 0 < above cover j) (hfree : above cover free = 0) :
    firstFree cover column = free := by
  unfold firstFree
  rw [length_takeWhile_eq (free - column)]
  · omega
  · intro i hi
    have h := occupied (column + i) (by omega) (by omega)
    rw [List.getElem?_drop]
    unfold above at h
    cases hc : cover[column + i]? with
    | none => simp [hc] at h
    | some x => exact ⟨x, rfl, by simpa [hc] using h⟩
  · intro x hx
    rw [List.getElem?_drop, show column + (free - column) = free by omega] at hx
    simpa [above, hx] using hfree

theorem le_firstFree (cover : List Nat) (column : Nat) : column ≤ firstFree cover column :=
  Nat.le_add_right _ _

/-- Behind `m` nothing is occupied exactly if `m` is not before the end. -/
theorem coverEnd_le_iff (cover : List Nat) (m : Nat) :
    coverEnd cover ≤ m ↔ ∀ j, m ≤ j → above cover j = 0 := by
  induction cover using List.reverseRecOn generalizing m with
  | nil => simp [coverEnd, above]
  | append_singleton cover x ih =>
    have hx : ∀ j, above (cover ++ [x]) j = if j = cover.length then x else above cover j := by
      intro j
      unfold above
      rw [List.getElem?_append]
      rcases Nat.lt_trichotomy j cover.length with h | h | h
      · rw [if_pos h, if_neg h.ne]
      · simp [h]
      · rw [if_neg (by omega), if_neg (by omega), List.getElem?_eq_none (l := cover) (by omega),
          List.getElem?_eq_none (by simp; omega)]
    have hend : coverEnd (cover ++ [x]) = if x = 0 then coverEnd cover else cover.length + 1 := by
      unfold coverEnd
      rw [List.reverse_append, List.reverse_singleton, List.singleton_append]
      split
      · next h => rw [List.dropWhile_cons_of_pos (by simp [h])]
      · next h => rw [List.dropWhile_cons_of_neg (by simp [h])]; simp
    simp only [hx, hend]
    split
    · next h =>
      rw [ih]
      refine forall_congr' fun j => imp_congr_right fun _ => ?_
      split
      · next hj =>
        have : above cover j = 0 := by
          unfold above
          rw [List.getElem?_eq_none (by omega)]
          rfl
        simp [this, h]
      · rfl
    · next h =>
      constructor
      · intro hm j hj
        rw [if_neg (by omega), above, List.getElem?_eq_none (by omega)]
        rfl
      · intro hm
        by_contra hlt
        have := hm cover.length (by omega)
        rw [if_pos rfl] at this
        exact h this

/-! ## One row -/

section Row

variable {a : Shape} {cover : List Nat} {n : Nat}

/-- In a row whose cells fill exactly what is not occupied from above, every cell is placed at its
own first column, and the row does not end behind `n`. -/
theorem starts_eq (cover : List Nat) (row : List NodeId) (column : Nat)
    (ordered : row.Pairwise fun b c => a.start b + a.width b ≤ a.start c)
    (width_pos : ∀ c ∈ row, 0 < a.width c) (le : ∀ c ∈ row, column ≤ a.start c)
    (within : ∀ c ∈ row, a.start c + a.width c ≤ n)
    (fills : ∀ j, column ≤ j → j < n → (above cover j = 0 ↔ ∃ c ∈ row, a.Spans j c)) :
    starts cover column (row.map a.extent) = row.map a.start ∧
      (∀ c ∈ row, a.start c + a.width c ≤ rowEnd cover column (row.map a.extent)) ∧
      column ≤ rowEnd cover column (row.map a.extent) ∧
      (column ≤ n → rowEnd cover column (row.map a.extent) ≤ n) := by
  induction row generalizing column with
  | nil => simp [starts, rowEnd]
  | cons c row ih =>
    obtain ⟨behind, ordered⟩ := List.pairwise_cons.1 ordered
    have hle := le c (by simp)
    have hwithin := within c (by simp)
    have hpos := width_pos c (by simp)
    have free : firstFree cover column = a.start c := by
      refine firstFree_eq hle (fun j hj hlt => ?_) ?_
      · refine Nat.pos_of_ne_zero fun h => ?_
        obtain ⟨b, hb, hs⟩ := (fills j hj (by omega)).1 h
        rcases List.mem_cons.1 hb with rfl | hb
        · exact absurd hs.1 (by omega)
        · have := behind b hb
          exact absurd hs.1 (by omega)
      · exact (fills _ hle (by omega)).2 ⟨c, by simp, le_rfl, by omega⟩
    obtain ⟨hs, hend, hcol, hn⟩ := ih (a.start c + a.width c) ordered
      (fun b hb => width_pos b (by simp [hb])) behind (fun b hb => within b (by simp [hb]))
      fun j hj hlt => by
        rw [fills j (by omega) hlt]
        constructor
        · rintro ⟨b, hb, h⟩
          rcases List.mem_cons.1 hb with rfl | hb
          · exact absurd h.2 (by omega)
          · exact ⟨b, hb, h⟩
        · rintro ⟨b, hb, h⟩
          exact ⟨b, by simp [hb], h⟩
    simp only [List.map_cons, starts, rowEnd, free, Shape.extent] at hs hend hcol hn ⊢
    refine ⟨by rw [hs], fun b hb => ?_, by omega, fun _ => hn hwithin⟩
    rcases List.mem_cons.1 hb with rfl | hb
    · exact hcol
    · exact hend b hb

theorem coverBelow_eq (row : List NodeId) :
    coverBelow cover (row.map a.start) (row.map a.extent) =
      row.foldl (fun cover c => occupy cover (a.start c) (a.extent c)) (cover.map (· - 1)) := by
  rw [coverBelow, List.zip_map', List.foldl_map]

theorem above_foldl_occupy {row : List NodeId} {j : Nat} (h : ∀ c ∈ row, ¬ a.Spans j c)
    (cover : List Nat) :
    above (row.foldl (fun cover c => occupy cover (a.start c) (a.extent c)) cover) j =
      above cover j := by
  induction row generalizing cover with
  | nil => rfl
  | cons c row ih =>
    rw [List.foldl_cons, ih fun b hb => h b (by simp [hb]), above_occupy]
    exact if_neg (h c (by simp))

/-- Below a row, the columns of none of its cells are occupied for one row less. -/
theorem above_coverBelow_of_not_spans {row : List NodeId} {j : Nat}
    (h : ∀ c ∈ row, ¬ a.Spans j c) :
    above (coverBelow cover (row.map a.start) (row.map a.extent)) j = above cover j - 1 := by
  rw [coverBelow_eq, above_foldl_occupy h, above_pred]

/-- Below a row, the columns of its cells are occupied for what is left of their heights. -/
theorem above_coverBelow_of_spans {row : List NodeId} {j : Nat} {c : NodeId}
    (ordered : row.Pairwise fun b c => a.start b + a.width b ≤ a.start c) (hc : c ∈ row)
    (h : a.Spans j c) :
    above (coverBelow cover (row.map a.start) (row.map a.extent)) j = a.height c - 1 := by
  rw [coverBelow_eq]
  generalize cover.map (· - 1) = cover
  induction row generalizing cover with
  | nil => cases hc
  | cons b row ih =>
    obtain ⟨behind, ordered⟩ := List.pairwise_cons.1 ordered
    rcases List.mem_cons.1 hc with rfl | hc
    · -- The cells behind `c` do not span `j`, so what `c` has recorded stays.
      rw [List.foldl_cons, above_foldl_occupy, above_occupy]
      · exact if_pos h
      · intro b hb hs
        have := behind b hb
        have := h.2
        exact absurd hs.1 (by omega)
    · exact ih ordered hc _

end Row

end Placement

/-! ## Row groups -/

namespace Tiling

open Placement

variable {n : Nat} {a b : Shape} {rows : List (List NodeId)}

/-- It is enough to name the one cell of every place. -/
theorem of_unique (nodup : rows.flatten.Nodup)
    (pos : ∀ {r c}, Stored rows r c → 0 < a.width c ∧ 0 < a.height c)
    (within : ∀ {r c}, Stored rows r c → a.start c + a.width c ≤ n)
    (ordered : ∀ row ∈ rows, row.Pairwise fun b c => a.start b + a.width b ≤ a.start c)
    (unique : ∀ i < rows.length, ∀ j < n,
      ∃ c, ∀ x, a.Reaches rows i x ∧ a.Spans j x ↔ x = c) : Tiling n a rows := by
  refine ⟨nodup, fun h => (pos h).1, fun h => (pos h).2, within, ordered, fun hi hj => ?_,
    fun {i j b c} hi hb hbj hc hcj => ?_⟩
  · obtain ⟨c, hc⟩ := unique _ hi _ hj
    exact ⟨c, (hc c).2 rfl⟩
  · obtain ⟨r, hs, -⟩ := id hb
    obtain ⟨x, hx⟩ := unique i hi j (hbj.2.trans_le (within hs))
    exact ((hx b).1 ⟨hb, hbj⟩).trans ((hx c).1 ⟨hc, hcj⟩).symm

theorem unique (t : Tiling n a rows) {i j : Nat} (hi : i < rows.length) (hj : j < n) :
    ∃ c, ∀ x, a.Reaches rows i x ∧ a.Spans j x ↔ x = c := by
  obtain ⟨c, hc⟩ := t.covered hi hj
  refine ⟨c, fun x => ⟨fun hx => t.disjoint hi hx.1 hx.2 hc.1 hc.2, ?_⟩⟩
  rintro rfl
  exact hc

/-- The cells stored in one row do not overlap. -/
theorem stored_unique (t : Tiling n a rows) {r j : Nat} {x y : NodeId} (hx : Stored rows r x)
    (hxj : a.Spans j x) (hy : Stored rows r y) (hyj : a.Spans j y) : x = y :=
  t.disjoint hx.lt_length ⟨r, hx, le_rfl, Nat.lt_add_of_pos_right (t.height_pos hx)⟩ hxj
    ⟨r, hy, le_rfl, Nat.lt_add_of_pos_right (t.height_pos hy)⟩ hyj

/-- Only the part of a height counts that lies inside the group. -/
theorem covers_clip (start : ∀ {r c}, Stored rows r c → b.start c = a.start c)
    (width : ∀ {r c}, Stored rows r c → b.width c = a.width c)
    (height : ∀ {r c i}, Stored rows r c → r ≤ i → i < rows.length →
      (i < r + b.height c ↔ i < r + a.height c)) {i j : Nat} {c : NodeId} (hi : i < rows.length) :
    b.Covers rows i j c ↔ a.Covers rows i j c := by
  have spans : ∀ {r}, Stored rows r c → (b.Spans j c ↔ a.Spans j c) := fun hs => by
    rw [Shape.Spans, Shape.Spans, start hs, width hs]
  constructor
  · rintro ⟨⟨r, hs, hle, hlt⟩, hj⟩
    exact ⟨⟨r, hs, hle, (height hs hle hi).1 hlt⟩, (spans hs).1 hj⟩
  · rintro ⟨⟨r, hs, hle, hlt⟩, hj⟩
    exact ⟨⟨r, hs, hle, (height hs hle hi).2 hlt⟩, (spans hs).2 hj⟩

theorem clip (t : Tiling n a rows) (start : ∀ {r c}, Stored rows r c → b.start c = a.start c)
    (width : ∀ {r c}, Stored rows r c → b.width c = a.width c)
    (pos : ∀ {r c}, Stored rows r c → 0 < b.height c)
    (height : ∀ {r c i}, Stored rows r c → r ≤ i → i < rows.length →
      (i < r + b.height c ↔ i < r + a.height c)) : Tiling n b rows := by
  refine .of_unique t.nodup (fun hs => ⟨width hs ▸ t.width_pos hs, pos hs⟩)
    (fun hs => by rw [start hs, width hs]; exact t.within hs) (fun row hrow => ?_)
    fun i hi j hj => ?_
  · obtain ⟨r, hr⟩ := List.getElem?_of_mem hrow
    refine (t.ordered row hrow).imp_of_mem fun {x y} hx hy h => ?_
    rwa [start ⟨row, hr, hx⟩, start ⟨row, hr, hy⟩, width ⟨row, hr, hx⟩]
  · obtain ⟨c, hc⟩ := t.unique hi hj
    exact ⟨c, fun x => (covers_clip start width height hi).trans (hc x)⟩

/-- Only the shapes of stored cells count. -/
theorem congr (t : Tiling n a rows) (start : ∀ {r c}, Stored rows r c → b.start c = a.start c)
    (width : ∀ {r c}, Stored rows r c → b.width c = a.width c)
    (height : ∀ {r c}, Stored rows r c → b.height c = a.height c) : Tiling n b rows :=
  t.clip start width (fun hs => height hs ▸ t.height_pos hs) fun hs _ _ => by rw [height hs]

/-- Without rows the number of columns does not count. -/
theorem nil : Tiling n a [] := by
  have none : ∀ {r c}, ¬ Stored [] r c := fun ⟨_, hr, _⟩ => by simp at hr
  exact ⟨by simp, fun hs => absurd hs none, fun hs => absurd hs none, fun hs => absurd hs none,
    by simp, fun hi => absurd hi (by simp), fun hi => absurd hi (by simp)⟩

/-- In row `i`, `cover` says for how many rows the cells from above still reach down. -/
private structure Tracks (a : Shape) (rows : List (List NodeId)) (i : Nat) (cover : List Nat) :
    Prop where
  reached : ∀ {r c j}, Stored rows r c → r < i → i < r + a.height c → a.Spans j c →
    above cover j = r + a.height c - i
  free : ∀ {j}, (∀ r c, Stored rows r c → r < i → i < r + a.height c → ¬ a.Spans j c) →
    above cover j = 0

private theorem Tracks.above_eq_zero_iff (t : Tiling n a rows) {i : Nat} {cover : List Nat}
    (h : Tracks a rows i cover) {row : List NodeId} (hi : rows[i]? = some row) {j : Nat}
    (hj : j < n) : above cover j = 0 ↔ ∃ c ∈ row, a.Spans j c := by
  have hlt : i < rows.length := (List.getElem?_eq_some_iff.1 hi).1
  constructor
  · intro h0
    obtain ⟨c, ⟨r, hs, hr, hh⟩, hspan⟩ := t.covered hlt hj
    rcases Nat.lt_or_eq_of_le hr with hr | rfl
    · have := h.reached hs hr hh hspan
      omega
    · obtain ⟨row', hrow, hc⟩ := hs
      rw [hi, Option.some.injEq] at hrow
      exact ⟨c, hrow ▸ hc, hspan⟩
  · rintro ⟨c, hc, hspan⟩
    have hs : Stored rows i c := ⟨row, hi, hc⟩
    refine h.free fun r b hb hr hh hspan' => ?_
    have hpos := t.height_pos hs
    have e : b = c := t.disjoint hlt ⟨r, hb, hr.le, hh⟩ hspan' ⟨i, hs, le_rfl, by omega⟩ hspan
    subst e
    exact hr.ne (hb.row_unique t.nodup hs)

private theorem Tracks.coverBelow (t : Tiling n a rows) {i : Nat} {cover : List Nat}
    (h : Tracks a rows i cover) {row : List NodeId} (hi : rows[i]? = some row) :
    Tracks a rows (i + 1) (Placement.coverBelow cover (row.map a.start) (row.map a.extent)) := by
  have hlt : i < rows.length := (List.getElem?_eq_some_iff.1 hi).1
  have ordered := t.ordered row (List.mem_of_getElem? hi)
  have stored : ∀ {c}, c ∈ row → Stored rows i c := fun hc => ⟨row, hi, hc⟩
  constructor
  · intro r c j hs hr hh hspan
    rcases Nat.lt_or_eq_of_le (Nat.le_of_lt_succ hr) with hr | rfl
    · rw [above_coverBelow_of_not_spans, h.reached hs hr (by omega) hspan]
      · omega
      · intro b hb hspan'
        have hpos := t.height_pos (stored hb)
        have e : c = b := t.disjoint hlt ⟨r, hs, hr.le, by omega⟩ hspan
          ⟨i, stored hb, le_rfl, by omega⟩ hspan'
        subst e
        exact hr.ne (hs.row_unique t.nodup (stored hb))
    · obtain ⟨row', hrow, hc⟩ := hs
      rw [hi, Option.some.injEq] at hrow
      rw [above_coverBelow_of_spans ordered (hrow ▸ hc) hspan]
      omega
  · intro j none
    by_cases hrow : ∃ c ∈ row, a.Spans j c
    · obtain ⟨c, hc, hspan⟩ := hrow
      rw [above_coverBelow_of_spans ordered hc hspan]
      by_contra hne
      exact none i c (stored hc) (by omega) (by omega) hspan
    · simp only [not_exists, not_and] at hrow
      rw [above_coverBelow_of_not_spans hrow]
      by_cases habove : ∃ r c, Stored rows r c ∧ r < i ∧ i < r + a.height c ∧ a.Spans j c
      · obtain ⟨r, c, hs, hr, hh, hspan⟩ := habove
        rw [h.reached hs hr hh hspan]
        by_contra hne
        exact none r c hs (by omega) (by omega) hspan
      · simp only [not_exists, not_and] at habove
        rw [h.free habove]

/-- In a tiled group every cell is placed at its own first column, and the group needs `n` columns
unless it has no rows. -/
private theorem Tracks.groupStarts_eq (t : Tiling n a rows) :
    ∀ (rest : List (List NodeId)) (i : Nat) (cover : List Nat), rows.drop i = rest →
      Tracks a rows i cover →
      groupStarts cover (rest.map (·.map a.extent)) = rest.map (·.map a.start) ∧
        (rest ≠ [] → groupWidth cover (rest.map (·.map a.extent)) = n)
  | [], _, _, _, _ => ⟨rfl, fun h => absurd rfl h⟩
  | row :: rest, i, cover, hdrop, h => by
    have hi : rows[i]? = some row := by
      rw [← List.head?_drop, hdrop]
      rfl
    have hlt : i < rows.length := (List.getElem?_eq_some_iff.1 hi).1
    have stored : ∀ {c}, c ∈ row → Stored rows i c := fun hc => ⟨row, hi, hc⟩
    have fills := fun {j} => h.above_eq_zero_iff t hi (j := j)
    obtain ⟨hstarts, hend, -, hn⟩ := starts_eq cover row 0
      (t.ordered row (List.mem_of_getElem? hi)) (fun c hc => t.width_pos (stored hc))
      (fun _ _ => Nat.zero_le _) (fun c hc => t.within (stored hc)) fun j _ hj => fills hj
    have hrest : rows.drop (i + 1) = rest := by
      rw [← List.drop_drop, hdrop]
      rfl
    obtain ⟨hg, hw⟩ := Tracks.groupStarts_eq t rest (i + 1) _ hrest (h.coverBelow t hi)
    have hcover : coverEnd cover ≤ n := (coverEnd_le_iff cover n).2 fun j hj =>
      h.free fun r c hs _ _ hspan => by
        have := t.within hs
        have := hspan.2
        omega
    have full : max (rowEnd cover 0 (row.map a.extent)) (coverEnd cover) = n := by
      refine Nat.le_antisymm (Nat.max_le.2 ⟨hn (Nat.zero_le _), hcover⟩) ?_
      rcases Nat.eq_zero_or_pos n with rfl | hpos
      · exact Nat.zero_le _
      · -- The last column is occupied from above or by a cell of the row.
        by_cases h0 : above cover (n - 1) = 0
        · obtain ⟨c, hc, hspan⟩ := (fills (by omega)).1 h0
          have := hend c hc
          have := hspan.2
          omega
        · by_contra hlt
          exact h0 ((coverEnd_le_iff cover (n - 1)).1 (by omega) _ le_rfl)
    simp only [List.map_cons, groupStarts, groupWidth, hstarts, hg, full]
    refine ⟨trivial, fun _ => ?_⟩
    rcases rest with _ | ⟨row', rest⟩
    · simp [groupWidth]
    · rw [hw (by simp), Nat.max_self]

theorem groupStarts_eq (t : Tiling n a rows) :
    groupStarts [] (rows.map (·.map a.extent)) = rows.map (·.map a.start) :=
  (Tracks.groupStarts_eq t rows 0 [] rfl ⟨fun _ h => absurd h (Nat.not_lt_zero _),
    fun _ => rfl⟩).1

theorem groupWidth_eq (t : Tiling n a rows) (h : rows ≠ []) :
    groupWidth [] (rows.map (·.map a.extent)) = n :=
  (Tracks.groupStarts_eq t rows 0 [] rfl ⟨fun _ h => absurd h (Nat.not_lt_zero _),
    fun _ => rfl⟩).2 h

end Tiling

end RichTable
