import Mathlib
import RichTable.Proofs.Grid.Columns
import RichTable.Proofs.Grid.Regular

/-!
# The widest row of a group

Cells may overlap or leave holes when they are placed from left to right. But the columns up to the
end of a row are all occupied, and a cell that reaches down from above lies before the end of the row
that stores it. So there is a row in which every column of the group is occupied. A table of the same
cells that is tiled has at least as many columns.
-/

namespace RichTable

open List

namespace Placement

variable {a : Shape} {cover : List Nat}

theorem above_pos_of_lt_firstFree {column j : Nat} (le : column ≤ j)
    (lt : j < firstFree cover column) : 0 < above cover j := by
  obtain ⟨i, rfl⟩ := Nat.exists_eq_add_of_le le
  have lt : i < ((cover.drop column).takeWhile (0 < ·)).length := by
    unfold firstFree at lt
    omega
  have pos := mem_takeWhile_imp (getElem_mem lt)
  have same := congrArg (·[i]?) (takeWhile_append_dropWhile (p := (0 < ·)) (l := cover.drop column))
  simp only [getElem?_append_left lt, getElem?_eq_getElem lt, getElem?_drop] at same
  rw [above, ← same]
  simpa using pos

/-- Up to its end every column of a row is occupied, from above or by a cell of the row. -/
theorem occupied_of_lt_rowEnd (row : List NodeId) (column : Nat)
    (h : starts cover column (row.map a.extent) = row.map a.start) {j : Nat} (le : column ≤ j)
    (lt : j < rowEnd cover column (row.map a.extent)) :
    0 < above cover j ∨ ∃ c ∈ row, a.Spans j c := by
  induction row generalizing column with
  | nil => exact absurd lt (Nat.not_lt.2 le)
  | cons c row ih =>
    simp only [map_cons, starts, rowEnd, cons.injEq] at h lt
    obtain ⟨first, rest⟩ := h
    rw [first] at rest lt
    rcases Nat.lt_or_ge j (a.start c) with before | from_start
    · exact .inl (above_pos_of_lt_firstFree le (first ▸ before))
    rcases Nat.lt_or_ge j (a.start c + a.width c) with inside | behind
    · exact .inr ⟨c, mem_cons_self, from_start, inside⟩
    · refine (ih _ rest behind lt).imp_right ?_
      rintro ⟨b, hb, hj⟩
      exact ⟨b, mem_cons_of_mem c hb, hj⟩

theorem le_rowEnd (row : List Extent) (column : Nat) : column ≤ rowEnd cover column row := by
  induction row generalizing column with
  | nil => exact le_rfl
  | cons e row ih => exact ((le_firstFree cover column).trans (Nat.le_add_right _ _)).trans (ih _)

theorem cell_le_rowEnd (row : List NodeId) (column : Nat)
    (h : starts cover column (row.map a.extent) = row.map a.start) {c : NodeId} (hc : c ∈ row) :
    a.start c + a.width c ≤ rowEnd cover column (row.map a.extent) := by
  induction row generalizing column with
  | nil => cases hc
  | cons b row ih =>
    simp only [map_cons, starts, rowEnd, cons.injEq] at h ⊢
    obtain ⟨first, rest⟩ := h
    rw [first] at rest ⊢
    rcases mem_cons.1 hc with rfl | hc
    · exact le_rowEnd _ _
    · exact ih _ rest hc

theorem cell_le_groupWidth {rows : List (List NodeId)}
    (h : groupStarts cover (rows.map (·.map a.extent)) = rows.map (·.map a.start)) {row : List NodeId}
    (hr : row ∈ rows) {c : NodeId} (hc : c ∈ row) :
    a.start c + a.width c ≤ groupWidth cover (rows.map (·.map a.extent)) := by
  induction rows generalizing cover with
  | nil => cases hr
  | cons first rows ih =>
    simp only [map_cons, groupStarts, groupWidth, cons.injEq] at h ⊢
    obtain ⟨hrow, below⟩ := h
    rcases mem_cons.1 hr with rfl | hr
    · exact (cell_le_rowEnd row 0 hrow hc).trans ((le_max_left _ _).trans (le_max_left _ _))
    · exact (ih below hr).trans (le_max_right _ _)

/-- What is occupied from above when row `i` of a group is placed is occupied by cells of rows before
it that reach as far. -/
def Shadow (a : Shape) (rows : List (List NodeId)) (i : Nat) (cover : List Nat) : Prop :=
  ∀ j, 0 < above cover j →
    ∃ r c, Stored rows r c ∧ r < i ∧ above cover j + i ≤ r + a.height c ∧ a.Spans j c

theorem Shadow.coverBelow {rows : List (List NodeId)} {i : Nat} {row : List NodeId}
    (h : Shadow a rows i cover) (hi : rows[i]? = some row)
    (ordered : row.Pairwise fun b c => a.start b + a.width b ≤ a.start c) :
    Shadow a rows (i + 1) (coverBelow cover (row.map a.start) (row.map a.extent)) := by
  intro j pos
  by_cases own : ∃ c ∈ row, a.Spans j c
  · obtain ⟨c, hc, hj⟩ := own
    rw [above_coverBelow_of_spans ordered hc hj] at pos ⊢
    exact ⟨i, c, ⟨row, hi, hc⟩, by omega, by omega, hj⟩
  · rw [above_coverBelow_of_not_spans fun c hc hj => own ⟨c, hc, hj⟩] at pos ⊢
    obtain ⟨r, c, stored, lt, reach, hj⟩ := h j (by omega)
    exact ⟨r, c, stored, by omega, by omega, hj⟩

/-- In row `i` of a group all of the first `m` columns are occupied. -/
def Full (a : Shape) (rows : List (List NodeId)) (i m : Nat) : Prop :=
  i < rows.length ∧ ∀ j < m, ∃ c, a.Reaches rows i c ∧ a.Spans j c

/-- The rows from `i` on are placed below rows of which one is full up to column `m` and none holds a
cell behind it. -/
theorem exists_full_from {rows : List (List NodeId)} (pos : ∀ {r c}, Stored rows r c → 0 < a.height c) :
    ∀ (rest : List (List NodeId)) (i m : Nat) (cover : List Nat), rows.drop i = rest →
      Shadow a rows i cover → (∃ k, Full a rows k m) →
      (∀ r c, Stored rows r c → r < i → a.start c + a.width c ≤ m) →
      groupStarts cover (rest.map (·.map a.extent)) = rest.map (·.map a.start) →
      ∃ k n, Full a rows k n ∧ m ≤ n ∧ groupWidth cover (rest.map (·.map a.extent)) ≤ n
  | [], _, m, _, _, _, ⟨k, full⟩, _, _ => ⟨k, m, full, le_rfl, Nat.zero_le m⟩
  | row :: rest, i, m, cover, hdrop, shadow, full, within, h => by
    have hi : rows[i]? = some row := by
      rw [← head?_drop, hdrop]
      rfl
    have hrest : rows.drop (i + 1) = rest := by
      rw [← drop_drop, hdrop]
      rfl
    simp only [map_cons, groupStarts, groupWidth, cons.injEq] at h ⊢
    obtain ⟨hrow, below⟩ := h
    rw [hrow] at below ⊢
    have ordered := (pairwise_of_starts_eq row 0 hrow).2
    -- the row is full up to its end
    have own : Full a rows i (rowEnd cover 0 (row.map a.extent)) := by
      refine ⟨(List.getElem?_eq_some_iff.1 hi).1, fun j hj => ?_⟩
      rcases occupied_of_lt_rowEnd row 0 hrow (Nat.zero_le j) hj with above | ⟨c, hc, span⟩
      · obtain ⟨r, c, stored, lt, reach, span⟩ := shadow j above
        exact ⟨c, ⟨r, stored, by omega, by omega⟩, span⟩
      · have stored : Stored rows i c := ⟨row, hi, hc⟩
        have := pos stored
        exact ⟨c, ⟨i, stored, le_rfl, by omega⟩, span⟩
    have cover_le : coverEnd cover ≤ m := (coverEnd_le_iff cover m).2 fun j hj => by
      by_contra above
      obtain ⟨r, c, stored, lt, -, span⟩ := shadow j (Nat.pos_of_ne_zero above)
      have := within r c stored lt
      have := span.2
      omega
    have best : ∃ k, Full a rows k (max m (rowEnd cover 0 (row.map a.extent))) := by
      rcases Nat.le_total m (rowEnd cover 0 (row.map a.extent)) with le | le
      · exact ⟨i, by rwa [Nat.max_eq_right le]⟩
      · rwa [Nat.max_eq_left le]
    have inside : ∀ r c, Stored rows r c → r < i + 1 →
        a.start c + a.width c ≤ max m (rowEnd cover 0 (row.map a.extent)) := by
      intro r c stored lt
      rcases Nat.lt_succ_iff_lt_or_eq.1 lt with lt | rfl
      · exact (within r c stored lt).trans (Nat.le_max_left _ _)
      · obtain ⟨row', hr, hc⟩ := stored
        cases hi.symm.trans hr
        exact (cell_le_rowEnd row 0 hrow hc).trans (Nat.le_max_right _ _)
    obtain ⟨k, n, full, hm, hn⟩ := exists_full_from pos rest (i + 1) _ _ hrest
      (shadow.coverBelow hi ordered) best inside below
    exact ⟨k, n, full, by omega, by omega⟩

theorem exists_full_row {rows : List (List NodeId)} (pos : ∀ {r c}, Stored rows r c → 0 < a.height c)
    (h : groupStarts [] (rows.map (·.map a.extent)) = rows.map (·.map a.start)) (ne : rows ≠ []) :
    ∃ k, Full a rows k (groupWidth [] (rows.map (·.map a.extent))) := by
  obtain ⟨k, n, full, -, le⟩ := exists_full_from pos rows 0 0 [] rfl
    (fun j pos => by simp [above] at pos)
    ⟨0, length_pos_iff.2 ne, fun j hj => absurd hj (Nat.not_lt_zero j)⟩
    (fun r c _ lt => absurd lt (Nat.not_lt_zero r)) h
  exact ⟨k, full.1, fun j hj => full.2 j (hj.trans_le le)⟩

end Placement

open Placement

/-- If the cells of a full row can be placed side by side, they need as many columns. -/
theorem Tiling.le_of_full {a : Shape} {rows : List (List NodeId)} {s : NodeId → Nat} {i m n : Nat}
    (t : Tiling n ⟨s, a.width, a.height⟩ rows) (full : Full a rows i m) : m ≤ n := by
  classical
  -- the columns of each cell go to the columns that it has in the tiling
  choose! cell reaches spans using full.2
  have lands : ∀ j < m, Shape.Spans ⟨s, a.width, a.height⟩ (s (cell j) + (j - a.start (cell j))) (cell j) :=
    fun j hj => by
      have := spans j hj
      simp only [Shape.Spans] at this ⊢
      omega
  rw [← Finset.card_range m, ← Finset.card_range n]
  refine Finset.card_le_card_of_injOn (fun j => s (cell j) + (j - a.start (cell j))) ?_ ?_
  · intro j hj
    have hj : j < m := by simpa using hj
    obtain ⟨r, stored, -⟩ := reaches j hj
    exact Finset.mem_coe.2 (Finset.mem_range.2 ((lands j hj).2.trans_le (t.within stored)))
  · intro j hj j' hj' same
    have hj : j < m := by simpa using hj
    have hj' : j' < m := by simpa using hj'
    have eq : cell j = cell j' := t.disjoint full.1 (reaches j hj) (lands j hj) (reaches j' hj')
      (by simpa only [same] using lands j' hj')
    have h := (spans j hj).1
    have h' := (spans j' hj').1
    simp only [eq] at same h
    omega

/-- When a column is taken out, a full row stays full without it. -/
theorem Tiling.Narrowing.full {a b : Shape} {k i m : Nat} {rows rows' : List (List NodeId)}
    (w : Narrowing a b k rows rows') (pos : ∀ {r c}, Stored rows r c → 0 < a.width c)
    (full : Full a rows i m) : Full b rows' i (m - 1) := by
  refine ⟨by simpa [w.rows_eq] using full.1, fun j hj => ?_⟩
  obtain ⟨c, reaches, spans⟩ := full.2 (shows k j) (by unfold shows; split <;> omega)
  have stays : ¬ (a.start c = k ∧ a.width c = 1) := by
    unfold Shape.Spans shows at spans
    split at spans <;> omega
  have reaches' := w.reaches_iff.2 ⟨reaches, stays⟩
  obtain ⟨r, stored, -⟩ := reaches'
  exact ⟨c, w.reaches_iff.2 ⟨reaches, stays⟩, (w.spans_iff stored (pos (w.stored_iff.1 stored).1)).2 spans⟩

namespace Placement

theorem foldl_max_groupWidth (groups : List (List (List Extent))) (w : Nat) :
    groups.foldl (fun w group => max w (groupWidth [] group)) w = w ∨ ∃ group ∈ groups,
      groups.foldl (fun w group => max w (groupWidth [] group)) w = groupWidth [] group := by
  induction groups generalizing w with
  | nil => exact .inl rfl
  | cons group groups ih =>
    rw [foldl_cons]
    rcases ih (max w (groupWidth [] group)) with same | ⟨other, mem, eq⟩
    · rw [same]
      rcases Nat.le_total w (groupWidth [] group) with le | le
      · exact .inr ⟨group, mem_cons_self, Nat.max_eq_right le⟩
      · exact .inl (Nat.max_eq_left le)
    · exact .inr ⟨other, mem_cons_of_mem group mem, eq⟩

theorem groupWidth_le_tableWidth {groups : List (List (List Extent))} {group : List (List Extent)}
    (h : group ∈ groups) : groupWidth [] group ≤ tableWidth groups := by
  have le_fold : ∀ (groups : List (List (List Extent))) (w : Nat),
      w ≤ groups.foldl (fun w group => max w (groupWidth [] group)) w := by
    intro groups
    induction groups with
    | nil => exact fun _ => le_rfl
    | cons group groups ih => exact fun w => (le_max_left _ _).trans (ih _)
  obtain ⟨before, behind, rfl⟩ := append_of_mem h
  rw [tableWidth, foldl_append, foldl_cons]
  exact (le_max_right _ _).trans (le_fold behind _)

end Placement

/-- A placed table that has columns has a row in which all of them are occupied. -/
theorem Document.Steady.exists_full {L : Type} {d : Document L} {t : NodeId} (steady : d.Steady t)
    (pos : 0 < d.columnCount t) :
    ∃ g ∈ d.children t, ∃ i, Full d.shape (d.rowsOf g) i (d.columnCount t) := by
  obtain ⟨-, columns, count⟩ := (steady.wf.settled_iff steady.kind).1 steady.settled
  rw [count] at pos ⊢
  rcases foldl_max_groupWidth (d.extents t) 0 with zero | ⟨group, mem, eq⟩
  · rw [tableWidth, zero] at pos
    exact absurd pos (Nat.lt_irrefl 0)
  · obtain ⟨rows, hrows, rfl⟩ := mem_map.1 mem
    obtain ⟨g, hg, rfl⟩ := mem_map.1 hrows
    refine ⟨g, hg, ?_⟩
    rw [tableWidth, eq] at pos ⊢
    refine exists_full_row (steady.wf.height_pos (steady.wf.kind_group steady.kind hg)) (columns g hg) ?_
    intro none
    rw [show (d.children g).map d.children = [] from none] at pos
    exact absurd pos (Nat.lt_irrefl 0)

/-- No cell of a placed table reaches behind its last column. -/
theorem Document.Columns.end_le_tableWidth {L : Type} {d : Document L} {t c : NodeId}
    (h : d.Columns t d.shape.start) (hc : c ∈ d.tableCells t) :
    d.shape.start c + d.shape.width c ≤ Placement.tableWidth (d.extents t) := by
  obtain ⟨g, hg, r, row, hr, hcr⟩ := mem_tableCells.1 hc
  exact (Placement.cell_le_groupWidth (h g hg) (mem_of_getElem? hr) hcr).trans
    (Placement.groupWidth_le_tableWidth (mem_map_of_mem (mem_map_of_mem hg)))

end RichTable
