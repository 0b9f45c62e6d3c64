import Mathlib
import RichTable.Proofs.Grid.Tiling

/-!
# Tilings with rows more or less

What the edits of rows do to a tiling. A cell that reaches over the place where rows come in or go
away gets taller or shorter; what it covers elsewhere stays.
-/

namespace RichTable.Tiling

variable {n : Nat} {a b : Shape} {rows rows' : List (List NodeId)}

/-! ## More rows -/

/-- Rows of copies inserted before row `first`. Cells that reach over this gap get taller; the cells
`templates`, which occupy row `ρ` next to the gap and do not reach over it, have a copy in every new
row. -/
structure RowInsertion (a b : Shape) (first ρ count : Nat) (templates : List NodeId)
    (copy : Nat → NodeId → NodeId) (rows rows' : List (List NodeId)) : Prop where
  nodup : rows'.flatten.Nodup
  clamped : ∀ {r c}, Stored rows r c → r + a.height c ≤ rows.length
  next : ρ < rows.length ∧ (ρ + 1 = first ∨ ρ = first)
  rows_eq : rows' = rows.take first ++ (List.range count).map (fun k => templates.map (copy k)) ++
    rows.drop first
  templates_iff : ∀ {c}, c ∈ templates ↔ ∃ r, Stored rows r c ∧ r ≤ ρ ∧ ρ < r + a.height c ∧
    ¬ (r < first ∧ first < r + a.height c)
  ordered : templates.Pairwise fun c d => a.start c + a.width c ≤ a.start d
  start : ∀ {r c}, Stored rows r c → b.start c = a.start c
  width : ∀ {r c}, Stored rows r c → b.width c = a.width c
  height : ∀ {r c}, Stored rows r c →
    b.height c = if r < first ∧ first < r + a.height c then a.height c + count else a.height c
  new : ∀ {k c}, k < count → c ∈ templates →
    b.start (copy k c) = a.start c ∧ b.width (copy k c) = a.width c ∧ b.height (copy k c) = 1

namespace RowInsertion

variable {first ρ count : Nat} {templates : List NodeId} {copy : Nat → NodeId → NodeId}

theorem first_le (w : RowInsertion a b first ρ count templates copy rows rows') :
    first ≤ rows.length := by
  have := w.next
  omega

theorem length_eq (w : RowInsertion a b first ρ count templates copy rows rows') :
    rows'.length = rows.length + count := by
  have := w.first_le
  simp [w.rows_eq]
  omega

theorem getElem?_eq (w : RowInsertion a b first ρ count templates copy rows rows') (i : Nat) :
    rows'[i]? = if i < first then rows[i]?
      else if i < first + count then some (templates.map (copy (i - first)))
      else rows[i - count]? := by
  have := w.first_le
  rw [w.rows_eq, List.append_assoc, List.getElem?_append, List.getElem?_append]
  simp only [List.length_take, List.length_map, List.length_range, List.getElem?_map,
    List.getElem?_drop, Nat.min_eq_left this]
  split_ifs with h₁ h₂ h₃ h₄
  · rw [List.getElem?_take, if_pos h₁]
  · rw [List.getElem?_range (by omega)]
    rfl
  · omega
  · omega
  · rw [show first + (i - first - count) = i - count by omega]

theorem stored_iff (w : RowInsertion a b first ρ count templates copy rows rows') {i : Nat}
    {x : NodeId} : Stored rows' i x ↔ i < first ∧ Stored rows i x ∨
      (first ≤ i ∧ i < first + count ∧ ∃ c ∈ templates, x = copy (i - first) c) ∨
      first + count ≤ i ∧ Stored rows (i - count) x := by
  unfold Stored
  rw [w.getElem?_eq]
  split_ifs with h₁ h₂
  · simp [h₁, Nat.not_le.2 h₁, Nat.not_le.2 (h₁.trans_le (Nat.le_add_right _ count))]
  · simp [h₁, h₂, Nat.le_of_not_lt h₁, Nat.not_le.2 h₂, eq_comm]
  · simp [h₁, h₂, Nat.le_of_not_lt h₂]

/-- The row that row `i` of the new group shows; the inserted rows show `ρ`. -/
def shows (first ρ count i : Nat) : Nat :=
  if i < first then i else if i < first + count then ρ else i - count

theorem shows_lt (w : RowInsertion a b first ρ count templates copy rows rows') {i : Nat}
    (hi : i < rows'.length) : shows first ρ count i < rows.length := by
  have := w.next
  rw [w.length_eq] at hi
  unfold shows
  split_ifs <;> omega

theorem old (w : RowInsertion a b first ρ count templates copy rows rows') {r : Nat} {x : NodeId}
    (hs : Stored rows r x) : Stored rows' (if r < first then r else r + count) x := by
  rw [w.stored_iff]
  split_ifs with h
  · exact .inl ⟨h, hs⟩
  · exact .inr (.inr ⟨by omega, by rwa [Nat.add_sub_cancel]⟩)

/-- An old cell occupies a row of the new group if it occupied the row shown there; in an inserted
row it must also reach over the gap. -/
theorem reaches_old (w : RowInsertion a b first ρ count templates copy rows rows')
    (nodup : rows.flatten.Nodup) {r i : Nat} {x : NodeId} (hs : Stored rows r x) :
    b.Reaches rows' i x ↔ a.Reaches rows (shows first ρ count i) x ∧
      (first ≤ i → i < first + count → r < first ∧ first < r + a.height x) := by
  have hclamp := w.clamped hs
  have hnext := w.next
  rw [(w.old hs).reaches_iff w.nodup, hs.reaches_iff nodup, w.height hs]
  unfold shows
  split_ifs <;> omega

theorem spans_old (w : RowInsertion a b first ρ count templates copy rows rows') {r j : Nat}
    {x : NodeId} (hs : Stored rows r x) : b.Spans j x ↔ a.Spans j x := by
  rw [Shape.Spans, Shape.Spans, w.start hs, w.width hs]

/-- A copy covers the columns of its template, in the row that stores it. -/
theorem covers_copy (w : RowInsertion a b first ρ count templates copy rows rows') {i j : Nat}
    {c : NodeId} (h₁ : first ≤ i) (h₂ : i < first + count) (hc : c ∈ templates) :
    b.Covers rows' i j (copy (i - first) c) ↔ a.Spans j c := by
  obtain ⟨hst, hw, hh⟩ := w.new (k := i - first) (by omega) hc
  have hs : Stored rows' i (copy (i - first) c) := w.stored_iff.2 (.inr (.inl ⟨h₁, h₂, c, hc, rfl⟩))
  rw [Shape.Covers, hs.reaches_iff w.nodup, hh, Shape.Spans, hst, hw]
  exact and_iff_right ⟨le_rfl, Nat.lt_succ_self i⟩

/-- What covers a place of a row that is not new is an old cell. -/
theorem stored_of_reaches (w : RowInsertion a b first ρ count templates copy rows rows') {i : Nat}
    {x : NodeId} (hi : i < first ∨ first + count ≤ i) (h : b.Reaches rows' i x) :
    ∃ r, Stored rows r x := by
  obtain ⟨r, hs, hle, hlt⟩ := h
  rcases w.stored_iff.1 hs with ⟨-, hs⟩ | ⟨h₁, h₂, c, hc, rfl⟩ | ⟨-, hs⟩
  · exact ⟨_, hs⟩
  · rw [(w.new (k := r - first) (by omega) hc).2.2] at hlt
    omega
  · exact ⟨_, hs⟩

theorem unique (w : RowInsertion a b first ρ count templates copy rows rows') (t : Tiling n a rows)
    {i j : Nat} (hi : i < rows'.length) (hj : j < n) :
    ∃ c, ∀ x, b.Reaches rows' i x ∧ b.Spans j x ↔ x = c := by
  have hnext := w.next
  obtain ⟨c, hc⟩ := t.unique (w.shows_lt hi) hj
  obtain ⟨hcr, hcj⟩ := (hc c).2 rfl
  obtain ⟨r, hs, hle, hlt⟩ := id hcr
  -- A copy in row `i` shows the place of `c`, so it is a copy of `c`.
  have copied : ∀ {r' x}, Stored rows' r' x → r' ≤ i → i < r' + b.height x → b.Spans j x →
      (∃ r, Stored rows r x) ∨ first ≤ i ∧ i < first + count ∧ c ∈ templates ∧
        x = copy (i - first) c := by
    intro r' x hx hle hlt hxj
    rcases w.stored_iff.1 hx with ⟨-, hs⟩ | ⟨h₁, h₂, d, hd, rfl⟩ | ⟨-, hs⟩
    · exact .inl ⟨_, hs⟩
    · obtain ⟨hst, hw, hh⟩ := w.new (k := r' - first) (by omega) hd
      obtain rfl : r' = i := by omega
      obtain ⟨r₀, hs₀, hle₀, hlt₀, -⟩ := w.templates_iff.1 hd
      have : d = c := (hc d).1 ⟨⟨r₀, hs₀, by
        rw [shows, if_neg (by omega), if_pos h₂]; exact ⟨hle₀, hlt₀⟩⟩, by
        rwa [Shape.Spans, ← hst, ← hw]⟩
      exact .inr ⟨h₁, h₂, this ▸ hd, by rw [this]⟩
    · exact .inl ⟨_, hs⟩
  by_cases new : first ≤ i ∧ i < first + count ∧ ¬ (r < first ∧ first < r + a.height c)
  · obtain ⟨h₁, h₂, gap⟩ := new
    have hshow : shows first ρ count i = ρ := by rw [shows, if_neg (by omega), if_pos h₂]
    rw [hshow] at hle hlt
    have hmem : c ∈ templates := w.templates_iff.2 ⟨r, hs, hle, hlt, gap⟩
    refine ⟨copy (i - first) c, fun x => ⟨?_, ?_⟩⟩
    · rintro ⟨hx, hxj⟩
      obtain ⟨r', hsx, hle', hlt'⟩ := id hx
      rcases copied hsx hle' hlt' hxj with ⟨r₀, hs₀⟩ | ⟨-, -, -, e⟩
      · obtain ⟨hx', hgap⟩ := (w.reaches_old t.nodup hs₀).1 hx
        obtain rfl := (hc x).1 ⟨hx', (w.spans_old hs₀).1 hxj⟩
        obtain rfl := hs₀.row_unique t.nodup hs
        exact absurd (hgap h₁ h₂) gap
      · exact e
    · rintro rfl
      exact (w.covers_copy h₁ h₂ hmem).2 hcj
  · refine ⟨c, fun x => ⟨?_, ?_⟩⟩
    · rintro ⟨hx, hxj⟩
      obtain ⟨r', hsx, hle', hlt'⟩ := id hx
      rcases copied hsx hle' hlt' hxj with ⟨r₀, hs₀⟩ | ⟨h₁, h₂, hmem, -⟩
      · exact (hc x).1 ⟨((w.reaches_old t.nodup hs₀).1 hx).1, (w.spans_old hs₀).1 hxj⟩
      · obtain ⟨r₀, hs₀, -, -, gap⟩ := w.templates_iff.1 hmem
        obtain rfl := hs₀.row_unique t.nodup hs
        exact absurd ⟨h₁, h₂, gap⟩ new
    · rintro rfl
      refine ⟨(w.reaches_old t.nodup hs).2 ⟨hcr, fun h₁ h₂ => ?_⟩, (w.spans_old hs).2 hcj⟩
      by_contra gap
      exact new ⟨h₁, h₂, gap⟩

/-- A tiling with rows inserted is a tiling. -/
theorem tiling (w : RowInsertion a b first ρ count templates copy rows rows') (t : Tiling n a rows) :
    Tiling n b rows' := by
  have origin : ∀ {i x}, Stored rows' i x → (∃ r, Stored rows r x) ∨
      ∃ k < count, ∃ c ∈ templates, x = copy k c := fun {i x} hx => by
    rcases w.stored_iff.1 hx with ⟨-, hs⟩ | ⟨h₁, h₂, d, hd, rfl⟩ | ⟨-, hs⟩
    · exact .inl ⟨_, hs⟩
    · exact .inr ⟨i - first, by omega, d, hd, rfl⟩
    · exact .inl ⟨_, hs⟩
  have template : ∀ {c}, c ∈ templates → ∃ r, Stored rows r c := fun hc => by
    obtain ⟨r, hs, -⟩ := w.templates_iff.1 hc
    exact ⟨r, hs⟩
  refine .of_unique w.nodup (fun {i x} hx => ?_) (fun {i x} hx => ?_) (fun row hrow => ?_)
    fun i hi j hj => w.unique t hi hj
  · rcases origin hx with ⟨r, hs⟩ | ⟨k, hk, c, hc, rfl⟩
    · have := t.height_pos hs
      refine ⟨w.width hs ▸ t.width_pos hs, ?_⟩
      rw [w.height hs]
      split_ifs <;> omega
    · obtain ⟨-, hw, hh⟩ := w.new hk hc
      obtain ⟨r, hs⟩ := template hc
      exact ⟨hw ▸ t.width_pos hs, hh ▸ Nat.one_pos⟩
  · rcases origin hx with ⟨r, hs⟩ | ⟨k, hk, c, hc, rfl⟩
    · rw [w.start hs, w.width hs]
      exact t.within hs
    · obtain ⟨hst, hw, -⟩ := w.new hk hc
      obtain ⟨r, hs⟩ := template hc
      rw [hst, hw]
      exact t.within hs
  · have keep : ∀ row ∈ rows, row.Pairwise fun x y => b.start x + b.width x ≤ b.start y :=
      fun row hrow => by
        obtain ⟨r, hr⟩ := List.getElem?_of_mem hrow
        refine (t.ordered row hrow).imp_of_mem fun {x y} hx hy h => ?_
        rwa [w.start ⟨row, hr, hx⟩, w.width ⟨row, hr, hx⟩, w.start ⟨row, hr, hy⟩]
    rw [w.rows_eq, List.mem_append, List.mem_append] at hrow
    rcases hrow with (hrow | hrow) | hrow
    · exact keep row (List.mem_of_mem_take hrow)
    · obtain ⟨k, hk, rfl⟩ := List.mem_map.1 hrow
      refine List.pairwise_map.2 (w.ordered.imp_of_mem fun {c d} hc hd h => ?_)
      obtain ⟨hst, hw, -⟩ := w.new (List.mem_range.1 hk) hc
      obtain ⟨hst', -, -⟩ := w.new (List.mem_range.1 hk) hd
      rwa [hst, hw, hst']
    · exact keep row (List.mem_of_mem_drop hrow)

end RowInsertion

/-! ## Fewer rows -/

/-- Rows `first` to `last` deleted. Cells that reach into them from above get shorter; cells that
start in them and reach below are recreated, as `copy`, in the row that follows. -/
structure RowDeletion (a b : Shape) (first last : Nat) (copy : NodeId → NodeId)
    (rows rows' : List (List NodeId)) : Prop where
  nodup : rows'.flatten.Nodup
  range : first ≤ last ∧ last < rows.length
  length : rows'.length + (last + 1 - first) = rows.length
  stored_iff : ∀ {i x}, Stored rows' i x ↔ i < first ∧ Stored rows i x ∨
    first ≤ i ∧ Stored rows (i + (last + 1 - first)) x ∨
    i = first ∧ ∃ r c, Stored rows r c ∧ first ≤ r ∧ r ≤ last ∧ last + 1 < r + a.height c ∧
      x = copy c
  ordered : ∀ row ∈ rows', row.Pairwise fun c d => b.start c + b.width c ≤ b.start d
  kept : ∀ {r c}, Stored rows r c → r < first ∨ last < r →
    b.start c = a.start c ∧ b.width c = a.width c
  above : ∀ {r c}, Stored rows r c → r < first → b.height c =
    if first < r + a.height c then a.height c - (min (r + a.height c - 1) last - first + 1)
    else a.height c
  below : ∀ {r c}, Stored rows r c → last < r → b.height c = a.height c
  new : ∀ {r c}, Stored rows r c → first ≤ r → r ≤ last → last + 1 < r + a.height c →
    b.start (copy c) = a.start c ∧ b.width (copy c) = a.width c ∧
      b.height (copy c) = r + a.height c - (last + 1)

namespace RowDeletion

variable {first last : Nat} {copy : NodeId → NodeId}

/-- The row that row `i` of the new group shows. -/
def shows (first last i : Nat) : Nat := if i < first then i else i + (last + 1 - first)

theorem shows_lt (w : RowDeletion a b first last copy rows rows') {i : Nat}
    (hi : i < rows'.length) : shows first last i < rows.length := by
  have := w.range
  have := w.length
  unfold shows
  split_ifs <;> omega

theorem reaches_old (w : RowDeletion a b first last copy rows rows') (nodup : rows.flatten.Nodup)
    {r i : Nat} {x : NodeId} (hs : Stored rows r x) (hr : r < first ∨ last < r) :
    b.Reaches rows' i x ↔ a.Reaches rows (shows first last i) x := by
  have := w.range
  rw [hs.reaches_iff nodup]
  rcases hr with hr | hr
  · have hs' : Stored rows' r x := w.stored_iff.2 (.inl ⟨hr, hs⟩)
    rw [hs'.reaches_iff w.nodup, w.above hs hr]
    unfold shows
    split_ifs <;> omega
  · have hs' : Stored rows' (r - (last + 1 - first)) x :=
      w.stored_iff.2 (.inr (.inl ⟨by omega, by rwa [Nat.sub_add_cancel (by omega)]⟩))
    rw [hs'.reaches_iff w.nodup, w.below hs hr]
    unfold shows
    split_ifs <;> omega

theorem reaches_new (w : RowDeletion a b first last copy rows rows') (nodup : rows.flatten.Nodup)
    {r i : Nat} {c : NodeId} (hs : Stored rows r c) (h₁ : first ≤ r) (h₂ : r ≤ last)
    (h₃ : last + 1 < r + a.height c) :
    b.Reaches rows' i (copy c) ↔ a.Reaches rows (shows first last i) c := by
  have hs' : Stored rows' first (copy c) :=
    w.stored_iff.2 (.inr (.inr ⟨rfl, r, c, hs, h₁, h₂, h₃, rfl⟩))
  rw [hs.reaches_iff nodup, hs'.reaches_iff w.nodup, (w.new hs h₁ h₂ h₃).2.2]
  unfold shows
  split_ifs <;> omega

/-- A cell of the new group is an old one from another row, or a copy. -/
theorem origin (w : RowDeletion a b first last copy rows rows') {i : Nat} {x : NodeId}
    (hx : Stored rows' i x) : (∃ r, Stored rows r x ∧ (r < first ∨ last < r)) ∨
      ∃ r c, Stored rows r c ∧ first ≤ r ∧ r ≤ last ∧ last + 1 < r + a.height c ∧ x = copy c := by
  have := w.range
  rcases w.stored_iff.1 hx with ⟨h, hs⟩ | ⟨h, hs⟩ | ⟨-, hs⟩
  · exact .inl ⟨i, hs, .inl h⟩
  · exact .inl ⟨_, hs, .inr (by omega)⟩
  · exact .inr hs

/-- A cell of another row covers what it covered. -/
theorem covers_old (w : RowDeletion a b first last copy rows rows') (nodup : rows.flatten.Nodup)
    {r i j : Nat} {x : NodeId} (hs : Stored rows r x) (hr : r < first ∨ last < r) :
    b.Covers rows' i j x ↔ a.Covers rows (shows first last i) j x := by
  rw [Shape.Covers, Shape.Covers, w.reaches_old nodup hs hr, Shape.Spans, (w.kept hs hr).1,
    (w.kept hs hr).2]
  rfl

/-- A copy covers what is left of the places of its cell. -/
theorem covers_new (w : RowDeletion a b first last copy rows rows') (nodup : rows.flatten.Nodup)
    {r i j : Nat} {c : NodeId} (hs : Stored rows r c) (h₁ : first ≤ r) (h₂ : r ≤ last)
    (h₃ : last + 1 < r + a.height c) :
    b.Covers rows' i j (copy c) ↔ a.Covers rows (shows first last i) j c := by
  obtain ⟨hst, hw, -⟩ := w.new hs h₁ h₂ h₃
  rw [Shape.Covers, Shape.Covers, w.reaches_new nodup hs h₁ h₂ h₃, Shape.Spans, hst, hw]
  rfl

/-- A cell stored in a deleted row that covers a place of another row reaches out of the interval. -/
theorem lt_of_reaches (nodup : rows.flatten.Nodup) {r i : Nat} {c : NodeId} (hs : Stored rows r c)
    (h₁ : first ≤ r) (h₂ : r ≤ last) (h : a.Reaches rows (shows first last i) c) :
    last + 1 < r + a.height c := by
  obtain ⟨hle, hlt⟩ := (hs.reaches_iff nodup).1 h
  unfold shows at hle hlt
  split_ifs at hle hlt <;> omega

theorem unique (w : RowDeletion a b first last copy rows rows') (t : Tiling n a rows) {i j : Nat}
    (hi : i < rows'.length) (hj : j < n) :
    ∃ c, ∀ x, b.Reaches rows' i x ∧ b.Spans j x ↔ x = c := by
  obtain ⟨c, hc⟩ := t.unique (w.shows_lt hi) hj
  obtain ⟨hcr, hcj⟩ := (hc c).2 rfl
  obtain ⟨r, hs, -⟩ := id hcr
  have old : ∀ {r x}, Stored rows r x → r < first ∨ last < r →
      (b.Reaches rows' i x ∧ b.Spans j x ↔ x = c) := fun hs hr =>
    (w.covers_old t.nodup hs hr).trans (hc _)
  have new : ∀ {r d}, Stored rows r d → first ≤ r → r ≤ last → last + 1 < r + a.height d →
      (b.Reaches rows' i (copy d) ∧ b.Spans j (copy d) ↔ d = c) := fun hs h₁ h₂ h₃ =>
    (w.covers_new t.nodup hs h₁ h₂ h₃).trans (hc _)
  by_cases hr : r < first ∨ last < r
  · refine ⟨c, fun x => ⟨fun hx => ?_, ?_⟩⟩
    · obtain ⟨i', hx', -⟩ := id hx.1
      rcases w.origin hx' with ⟨r', hs', hr'⟩ | ⟨r', d, hd, h₁, h₂, h₃, rfl⟩
      · exact (old hs' hr').1 hx
      · obtain rfl := (new hd h₁ h₂ h₃).1 hx
        obtain rfl := hd.row_unique t.nodup hs
        omega
    · rintro rfl
      exact (old hs hr).2 rfl
  · have h₃ := lt_of_reaches t.nodup hs (by omega) (by omega) hcr
    refine ⟨copy c, fun x => ⟨fun hx => ?_, ?_⟩⟩
    · obtain ⟨i', hx', -⟩ := id hx.1
      rcases w.origin hx' with ⟨r', hs', hr'⟩ | ⟨r', d, hd, h₁, h₂, h₃, rfl⟩
      · obtain rfl := (old hs' hr').1 hx
        obtain rfl := hs'.row_unique t.nodup hs
        exact absurd hr' hr
      · rw [(new hd h₁ h₂ h₃).1 hx]
    · rintro rfl
      exact (new hs (by omega) (by omega) h₃).2 rfl

/-- A tiling with rows deleted is a tiling. -/
theorem tiling (w : RowDeletion a b first last copy rows rows') (t : Tiling n a rows) :
    Tiling n b rows' := by
  refine .of_unique w.nodup (fun {i x} hx => ?_) (fun {i x} hx => ?_) w.ordered
    fun i hi j hj => w.unique t hi hj
  · rcases w.origin hx with ⟨r, hs, hr⟩ | ⟨r, c, hs, h₁, h₂, h₃, rfl⟩
    · have := t.height_pos hs
      refine ⟨(w.kept hs hr).2 ▸ t.width_pos hs, ?_⟩
      rcases hr with hr | hr
      · rw [w.above hs hr]
        split_ifs <;> omega
      · rwa [w.below hs hr]
    · obtain ⟨-, hw, hh⟩ := w.new hs h₁ h₂ h₃
      exact ⟨hw ▸ t.width_pos hs, by omega⟩
  · rcases w.origin hx with ⟨r, hs, hr⟩ | ⟨r, c, hs, h₁, h₂, h₃, rfl⟩
    · rw [(w.kept hs hr).1, (w.kept hs hr).2]
      exact t.within hs
    · obtain ⟨hst, hw, -⟩ := w.new hs h₁ h₂ h₃
      rw [hst, hw]
      exact t.within hs

end RowDeletion

end RichTable.Tiling
