import Mathlib
import RichTable.Proofs.Grid.Tiling

/-!
# Tilings with a column more or less

What the edits of columns do to a tiling, row by row. Each theorem describes the new rows and shapes
and says that they tile again.
-/

namespace RichTable

namespace Tiling

variable {n : Nat} {a b : Shape} {rows rows' : List (List NodeId)}

/-! ## One column more -/

/-- A column inserted into a row at the cell of column `τ`: if this cell is narrow, a cell `f` is
placed before or behind it. -/
inductive RowWidened (a b : Shape) (τ : Nat) (behind : Bool) (f : NodeId) :
    List NodeId → List NodeId → Prop
  | grow {row : List NodeId} (wide : ∀ c ∈ row, a.Spans τ c → 1 < a.width c) :
    RowWidened a b τ behind f row row
  | copy {l r row : List NodeId} {c : NodeId} (span : a.Spans τ c) (narrow : a.width c = 1)
    (start : b.start f = if behind then τ + 1 else τ) (width : b.width f = 1)
    (height : b.height f = a.height c)
    (row_eq : row = if behind then l ++ c :: f :: r else l ++ f :: c :: r) :
    RowWidened a b τ behind f (l ++ c :: r) row

/-- The shape of an old cell when a column is inserted at column `τ`. -/
structure CellWidened (a b : Shape) (τ : Nat) (behind : Bool) (c : NodeId) : Prop where
  start : b.start c =
    if τ < a.start c ∨ behind = false ∧ a.start c = τ ∧ a.width c = 1 then a.start c + 1
    else a.start c
  width : b.width c =
    if a.start c ≤ τ ∧ τ < a.start c + a.width c ∧ 1 < a.width c then a.width c + 1 else a.width c
  height : b.height c = a.height c

namespace RowWidened

variable {τ : Nat} {behind : Bool} {f : NodeId} {row row' : List NodeId}

theorem subset (h : RowWidened a b τ behind f row row') {c : NodeId} (hc : c ∈ row) : c ∈ row' := by
  cases h with
  | grow => exact hc
  | copy _ _ _ _ _ e =>
    subst e
    cases behind <;> simp at hc ⊢ <;> tauto

/-- A new cell is where a narrow one has been found. -/
theorem cases_mem (h : RowWidened a b τ behind f row row') {x : NodeId} (hx : x ∈ row') :
    x ∈ row ∨ x = f ∧ ∃ c ∈ row, a.Spans τ c ∧ a.width c = 1 ∧ b.height f = a.height c ∧
      b.width f = 1 ∧ b.start f = if behind then τ + 1 else τ := by
  cases h with
  | grow => exact .inl hx
  | @copy l r _ c span narrow start width height e =>
    have : x ∈ l ++ c :: r ∨ x = f := by
      subst e
      cases behind <;> simp at hx ⊢ <;> tauto
    exact this.imp_right fun hf => ⟨hf, c, by simp, span, narrow, height, width, start⟩

theorem exists_copy (h : RowWidened a b τ behind f row row') {c : NodeId} (hc : c ∈ row)
    (span : a.Spans τ c) (narrow : a.width c = 1)
    (unique : ∀ b ∈ row, a.Spans τ b → b = c) :
    f ∈ row' ∧ b.height f = a.height c ∧ b.width f = 1 ∧
      b.start f = if behind then τ + 1 else τ := by
  cases h with
  | grow wide => exact absurd narrow (wide c hc span).ne'
  | @copy l r _ d span' _ start width height e =>
    obtain rfl := unique d (by simp) span'
    refine ⟨?_, height, width, start⟩
    subst e
    cases behind <;> simp

theorem ordered (h : RowWidened a b τ behind f row row')
    (cell : ∀ c ∈ row, CellWidened a b τ behind c) (pos : ∀ c ∈ row, 0 < a.width c)
    (pairwise : row.Pairwise fun b c => a.start b + a.width b ≤ a.start c) :
    row'.Pairwise fun c d => b.start c + b.width c ≤ b.start d := by
  have keep : ∀ x ∈ row, ∀ y ∈ row, a.start x + a.width x ≤ a.start y →
      b.start x + b.width x ≤ b.start y := fun x hx y hy hle => by
    have := pos x hx
    rw [(cell x hx).start, (cell x hx).width, (cell y hy).start]
    split_ifs <;> omega
  cases h with
  | grow => exact pairwise.imp_of_mem fun {x y} hx hy h => keep x hx y hy h
  | @copy l r _ c span narrow start width height e =>
    have mem : ∀ x, x ∈ l ∨ x = c ∨ x ∈ r → x ∈ l ++ c :: r := fun x hx => by simpa using hx
    obtain ⟨hl, hcr, hlr⟩ := List.pairwise_append.1 pairwise
    obtain ⟨hc, hr⟩ := List.pairwise_cons.1 hcr
    have hτ : a.start c = τ := by
      have := span.1
      have := span.2
      omega
    have hl' : l.Pairwise fun c d => b.start c + b.width c ≤ b.start d :=
      hl.imp_of_mem fun {x y} hx hy h => keep x (mem x (.inl hx)) y (mem y (.inl hy)) h
    have hr' : r.Pairwise fun c d => b.start c + b.width c ≤ b.start d :=
      hr.imp_of_mem fun {x y} hx hy h =>
        keep x (mem x (.inr (.inr hx))) y (mem y (.inr (.inr hy))) h
    -- The new cell stands between those on the left and those on the right.
    have left : ∀ x ∈ l, b.start x + b.width x ≤ b.start f := fun x hx => by
      have h := hlr x hx c (by simp)
      have := pos x (mem x (.inl hx))
      rw [(cell x (mem x (.inl hx))).start, (cell x (mem x (.inl hx))).width, start]
      split_ifs <;> omega
    have right : ∀ y ∈ r, b.start f + b.width f ≤ b.start y := fun y hy => by
      have h := hc y hy
      rw [(cell y (mem y (.inr (.inr hy)))).start, width, start]
      split_ifs <;> omega
    have leftc : ∀ x ∈ l, b.start x + b.width x ≤ b.start c := fun x hx =>
      keep x (mem x (.inl hx)) c (by simp) (hlr x hx c (by simp))
    have rightc : ∀ y ∈ r, b.start c + b.width c ≤ b.start y := fun y hy =>
      keep c (by simp) y (mem y (.inr (.inr hy))) (hc y hy)
    have across : ∀ x ∈ l, ∀ y ∈ r, b.start x + b.width x ≤ b.start y := fun x hx y hy =>
      keep x (mem x (.inl hx)) y (mem y (.inr (.inr hy))) (hlr x hx y (by simp [hy]))
    have hcell := cell c (by simp)
    subst e
    cases behind with
    | true =>
      have : b.start c + b.width c ≤ b.start f := by
        rw [hcell.start, hcell.width, start]
        simp [hτ, narrow]
      simp only [if_true, List.pairwise_append, List.pairwise_cons, List.mem_cons]
      refine ⟨hl', ⟨?_, right, hr'⟩, ?_⟩
      · rintro y (rfl | hy)
        exacts [this, rightc y hy]
      · rintro x hx y (rfl | rfl | hy)
        exacts [leftc x hx, left x hx, across x hx y hy]
    | false =>
      have : b.start f + b.width f ≤ b.start c := by
        rw [hcell.start, width, start]
        simp [hτ, narrow]
      simp only [Bool.false_eq_true, if_false, List.pairwise_append, List.pairwise_cons,
        List.mem_cons]
      refine ⟨hl', ⟨?_, rightc, hr'⟩, ?_⟩
      · rintro y (rfl | hy)
        exacts [this, right y hy]
      · rintro x hx y (rfl | rfl | hy)
        exacts [left x hx, leftc x hx, across x hx y hy]

end RowWidened

/-- A column inserted into every row of a group, with the new cell `f r` for row `r`. -/
structure Widening (a b : Shape) (τ : Nat) (behind : Bool) (f : Nat → NodeId)
    (rows rows' : List (List NodeId)) : Prop where
  nodup : rows'.flatten.Nodup
  length : rows'.length = rows.length
  row : ∀ r row', rows'[r]? = some row' →
    ∃ row, rows[r]? = some row ∧ RowWidened a b τ behind (f r) row row'
  cell : ∀ {r c}, Stored rows r c → CellWidened a b τ behind c

namespace Widening

variable {τ : Nat} {behind : Bool} {f : Nat → NodeId}

theorem row_of (w : Widening a b τ behind f rows rows') {r : Nat} {row : List NodeId}
    (hr : rows[r]? = some row) :
    ∃ row', rows'[r]? = some row' ∧ RowWidened a b τ behind (f r) row row' := by
  have hlt : r < rows'.length := w.length ▸ (List.getElem?_eq_some_iff.1 hr).1
  obtain ⟨row₀, hr₀, h⟩ := w.row r _ (List.getElem?_eq_getElem hlt)
  rw [hr, Option.some.injEq] at hr₀
  exact ⟨_, List.getElem?_eq_getElem hlt, hr₀ ▸ h⟩

theorem old (w : Widening a b τ behind f rows rows') {r : Nat} {c : NodeId}
    (hs : Stored rows r c) : Stored rows' r c := by
  obtain ⟨row, hr, hc⟩ := hs
  obtain ⟨row', hr', h⟩ := w.row_of hr
  exact ⟨row', hr', h.subset hc⟩

theorem origin (w : Widening a b τ behind f rows rows') {r : Nat} {x : NodeId}
    (hx : Stored rows' r x) : Stored rows r x ∨ x = f r ∧ ∃ c, Stored rows r c ∧ a.Spans τ c ∧
      a.width c = 1 ∧ b.height x = a.height c ∧ b.width x = 1 ∧
      b.start x = if behind then τ + 1 else τ := by
  obtain ⟨row', hr', hx⟩ := hx
  obtain ⟨row, hr, h⟩ := w.row r row' hr'
  rcases h.cases_mem hx with hx | ⟨rfl, c, hc, h⟩
  · exact .inl ⟨row, hr, hx⟩
  · exact .inr ⟨rfl, c, ⟨row, hr, hc⟩, h⟩

/-- Old cells reach the same rows as before. -/
theorem reaches (w : Widening a b τ behind f rows rows') {r i : Nat} {x : NodeId}
    (hs : Stored rows r x) : b.Reaches rows' i x ↔ a.Reaches rows i x := by
  constructor
  · rintro ⟨r', hs', hle, hlt⟩
    obtain rfl := hs'.row_unique w.nodup (w.old hs)
    exact ⟨r', hs, hle, (w.cell hs).height ▸ hlt⟩
  · rintro ⟨r', hs', hle, hlt⟩
    exact ⟨r', w.old hs', hle, (w.cell hs').height.symm ▸ hlt⟩

/-- The column of the old grid that column `j` of the new one shows; the inserted column shows `τ`. -/
def shows (τ j : Nat) : Nat := if j ≤ τ then j else j - 1

/-- The inserted column. -/
def place (τ : Nat) (behind : Bool) : Nat := if behind then τ + 1 else τ

theorem spans_iff (w : Widening a b τ behind f rows rows') {r j : Nat} {x : NodeId}
    (hs : Stored rows r x) (pos : 0 < a.width x) :
    b.Spans j x ↔ a.Spans (shows τ j) x ∧ (j = place τ behind → 1 < a.width x) := by
  unfold Shape.Spans shows place
  rw [(w.cell hs).start, (w.cell hs).width]
  cases behind <;> simp only [Bool.false_eq_true, if_true, if_false, true_and, false_and,
    reduceCtorEq, or_false] <;> split_ifs <;> omega

theorem shows_place : shows τ (place τ behind) = τ := by
  cases behind <;> simp [shows, place]

theorem shows_lt (hτ : τ < n) {j : Nat} (hj : j < n + 1) : shows τ j < n := by
  unfold shows
  split_ifs <;> omega

/-- An old cell covers what it covered; in the inserted column it must be wide. -/
theorem covers_old (w : Widening a b τ behind f rows rows') (t : Tiling n a rows) {r i j : Nat}
    {x : NodeId} (hs : Stored rows r x) : b.Covers rows' i j x ↔
      a.Covers rows i (shows τ j) x ∧ (j = place τ behind → 1 < a.width x) := by
  rw [Shape.Covers, Shape.Covers, w.reaches hs, w.spans_iff hs (t.width_pos hs), and_assoc]

/-- A narrow cell has a new one next to it, in the same rows. -/
theorem stored_copy (w : Widening a b τ behind f rows rows') (t : Tiling n a rows) {r : Nat}
    {c : NodeId} (hs : Stored rows r c) (span : a.Spans τ c) (narrow : a.width c = 1) :
    Stored rows' r (f r) ∧ b.height (f r) = a.height c ∧ b.width (f r) = 1 ∧
      b.start (f r) = place τ behind := by
  obtain ⟨row, hr, hc⟩ := id hs
  obtain ⟨row', hr', h⟩ := w.row_of hr
  obtain ⟨hf, hfh, hfw, hfs⟩ := h.exists_copy hc span narrow fun d hd hdk =>
    t.stored_unique ⟨row, hr, hd⟩ hdk hs span
  exact ⟨⟨row', hr', hf⟩, hfh, hfw, hfs⟩

theorem covers_copy (w : Widening a b τ behind f rows rows') (t : Tiling n a rows) {r i j : Nat}
    {c : NodeId} (hs : Stored rows r c) (span : a.Spans τ c) (narrow : a.width c = 1) :
    b.Covers rows' i j (f r) ↔ j = place τ behind ∧ a.Covers rows i τ c := by
  obtain ⟨hf, hfh, hfw, hfs⟩ := w.stored_copy t hs span narrow
  rw [Shape.Covers, Shape.Covers, hf.reaches_iff w.nodup, hs.reaches_iff t.nodup, hfh,
    and_iff_left span, and_comm, Shape.Spans, hfs, hfw]
  exact and_congr_left fun _ => by omega

/-- What covers a place outside of the inserted column is an old cell. -/
theorem stored_of_covers (w : Widening a b τ behind f rows rows') {i j : Nat} {x : NodeId}
    (hj : j ≠ place τ behind) (h : b.Covers rows' i j x) : ∃ r, Stored rows r x := by
  obtain ⟨⟨r, hx, -⟩, h₁, h₂⟩ := h
  rcases w.origin hx with hs | ⟨-, c, -, -, -, -, hw, hst⟩
  · exact ⟨r, hs⟩
  · unfold place at hj
    omega

/-- The cell at a place of the new grid is the one at the place that it shows, except in the inserted
column next to a narrow cell. -/
theorem unique (w : Widening a b τ behind f rows rows') (t : Tiling n a rows) (hτ : τ < n) {i j : Nat}
    (hi : i < rows.length) (hj : j < n + 1) :
    ∃ c, ∀ x, b.Reaches rows' i x ∧ b.Spans j x ↔ x = c := by
  obtain ⟨c, hc⟩ := t.unique hi (shows_lt hτ hj)
  obtain ⟨⟨r, hs, hle, hlt⟩, hspan⟩ := (hc c).2 rfl
  -- A new cell at this place is the copy of `c`, in the inserted column.
  have copied : ∀ {r' x}, Stored rows' r' x → r' ≤ i → i < r' + b.height x → b.Spans j x →
      Stored rows r' x ∨ x = f r ∧ j = place τ behind ∧ a.width c = 1 := by
    intro r' x hx hle hlt ⟨h₁, h₂⟩
    refine (w.origin hx).imp_right ?_
    rintro ⟨rfl, d, hd, hdτ, hdw, hdh, hxw, hxs⟩
    have hj : j = place τ behind := by
      rw [place, ← hxs]
      omega
    obtain rfl := (hc d).1 ⟨⟨r', hd, hle, hdh ▸ hlt⟩, by rwa [hj, shows_place]⟩
    exact ⟨by rw [hd.row_unique t.nodup hs], hj, hdw⟩
  by_cases new : j = place τ behind ∧ a.width c = 1
  · obtain ⟨rfl, narrow⟩ := new
    rw [shows_place] at hspan
    refine ⟨f r, fun x => ⟨fun ⟨⟨r', hx, hle', hlt'⟩, hxj⟩ => ?_, ?_⟩⟩
    · rcases copied hx hle' hlt' hxj with hsx | ⟨e, -⟩
      · obtain ⟨hxk, wide⟩ := (w.spans_iff hsx (t.width_pos hsx)).1 hxj
        obtain rfl := (hc x).1 ⟨(w.reaches hsx).1 ⟨r', hx, hle', hlt'⟩, hxk⟩
        exact absurd narrow (wide rfl).ne'
      · exact e
    · rintro rfl
      exact (w.covers_copy t hs hspan narrow).2 ⟨rfl, ⟨r, hs, hle, hlt⟩, hspan⟩
  · refine ⟨c, fun x => ⟨fun ⟨⟨r', hx, hle', hlt'⟩, hxj⟩ => ?_, ?_⟩⟩
    · rcases copied hx hle' hlt' hxj with hsx | ⟨-, h⟩
      · exact (hc x).1 ⟨(w.reaches hsx).1 ⟨r', hx, hle', hlt'⟩,
          ((w.spans_iff hsx (t.width_pos hsx)).1 hxj).1⟩
      · exact absurd h new
    · rintro rfl
      have pos := t.width_pos hs
      exact ⟨(w.reaches hs).2 ⟨r, hs, hle, hlt⟩, (w.spans_iff hs pos).2 ⟨hspan, fun hj =>
        Nat.lt_of_le_of_ne pos fun e => new ⟨hj, e.symm⟩⟩⟩

/-- A tiling with a column inserted is a tiling. -/
theorem tiling (w : Widening a b τ behind f rows rows') (t : Tiling n a rows) (hτ : τ < n) :
    Tiling (n + 1) b rows' := by
  refine .of_unique w.nodup (fun {r x} hx => ?_) (fun {r x} hx => ?_) (fun row' hrow => ?_)
    fun i hi j hj => w.unique t hτ (w.length ▸ hi) hj
  · rcases w.origin hx with hs | ⟨-, c, hs, -, -, hh, hw, -⟩
    · have := t.width_pos hs
      refine ⟨?_, (w.cell hs).height ▸ t.height_pos hs⟩
      rw [(w.cell hs).width]
      split_ifs <;> omega
    · exact ⟨hw ▸ Nat.one_pos, hh ▸ t.height_pos hs⟩
  · rcases w.origin hx with hs | ⟨-, c, hs, hspan, -, -, hw, hst⟩
    · have := t.within hs
      rw [(w.cell hs).start, (w.cell hs).width]
      split_ifs <;> omega
    · rw [hw, hst]
      split_ifs <;> omega
  · obtain ⟨r, hr'⟩ := List.getElem?_of_mem hrow
    obtain ⟨row, hr, h⟩ := w.row r row' hr'
    exact h.ordered (fun c hc => w.cell ⟨row, hr, hc⟩) (fun c hc => t.width_pos ⟨row, hr, hc⟩)
      (t.ordered row (List.mem_of_getElem? hr))

end Widening

/-! ## One column less -/

/-- Column `k` deleted from every row of a group: narrow cells go, and wide ones lose a column. -/
structure Narrowing (a b : Shape) (k : Nat) (rows rows' : List (List NodeId)) : Prop where
  rows_eq : rows' = rows.map (·.filter fun c => !(a.start c == k && a.width c == 1))
  start : ∀ {r c}, Stored rows' r c → b.start c = if k < a.start c then a.start c - 1 else a.start c
  width : ∀ {r c}, Stored rows' r c →
    b.width c = if a.start c ≤ k ∧ k < a.start c + a.width c then a.width c - 1 else a.width c
  height : ∀ {r c}, Stored rows' r c → b.height c = a.height c

namespace Narrowing

variable {k : Nat}

theorem stored_iff (w : Narrowing a b k rows rows') {r : Nat} {c : NodeId} :
    Stored rows' r c ↔ Stored rows r c ∧ ¬ (a.start c = k ∧ a.width c = 1) := by
  rw [w.rows_eq]
  simp only [Stored, List.getElem?_map, Option.map_eq_some_iff]
  constructor
  · rintro ⟨_, ⟨row, hr, rfl⟩, hc⟩
    obtain ⟨hc, hk⟩ := List.mem_filter.1 hc
    exact ⟨⟨row, hr, hc⟩, by simpa [imp_iff_not_or] using hk⟩
  · rintro ⟨⟨row, hr, hc⟩, hk⟩
    exact ⟨_, ⟨row, hr, rfl⟩, List.mem_filter.2 ⟨hc, by simpa [imp_iff_not_or] using hk⟩⟩

/-- The column of the old grid that column `j` of the new one shows. -/
def shows (k j : Nat) : Nat := if j < k then j else j + 1

theorem spans_iff (w : Narrowing a b k rows rows') {r j : Nat} {x : NodeId} (hs : Stored rows' r x)
    (pos : 0 < a.width x) : b.Spans j x ↔ a.Spans (shows k j) x := by
  obtain ⟨-, keep⟩ := w.stored_iff.1 hs
  unfold Shape.Spans shows
  rw [w.start hs, w.width hs]
  split_ifs <;> omega

theorem reaches_iff (w : Narrowing a b k rows rows') {i : Nat} {x : NodeId} :
    b.Reaches rows' i x ↔ a.Reaches rows i x ∧ ¬ (a.start x = k ∧ a.width x = 1) := by
  constructor
  · rintro ⟨r, hs', hle, hlt⟩
    obtain ⟨hs, keep⟩ := w.stored_iff.1 hs'
    exact ⟨⟨r, hs, hle, w.height hs' ▸ hlt⟩, keep⟩
  · rintro ⟨⟨r, hs, hle, hlt⟩, keep⟩
    have hs' := w.stored_iff.2 ⟨hs, keep⟩
    exact ⟨r, hs', hle, (w.height hs').symm ▸ hlt⟩

/-- The other columns show what they showed. -/
theorem covers_iff (w : Narrowing a b k rows rows') (t : Tiling n a rows) {i j : Nat} {x : NodeId} :
    b.Covers rows' i j x ↔ a.Covers rows i (shows k j) x := by
  constructor
  · rintro ⟨hx, hxj⟩
    obtain ⟨r, hs, -⟩ := id hx
    exact ⟨(w.reaches_iff.1 hx).1, (w.spans_iff hs (t.width_pos (w.stored_iff.1 hs).1)).1 hxj⟩
  · rintro ⟨hx, hxj⟩
    have keep : ¬ (a.start x = k ∧ a.width x = 1) := by
      unfold Shape.Spans shows at hxj
      split_ifs at hxj <;> omega
    have hx' := w.reaches_iff.2 ⟨hx, keep⟩
    obtain ⟨r, hs, -⟩ := id hx'
    exact ⟨hx', (w.spans_iff hs (t.width_pos (w.stored_iff.1 hs).1)).2 hxj⟩

/-- A tiling with a column deleted is a tiling. -/
theorem tiling (w : Narrowing a b k rows rows') (t : Tiling n a rows) (hk : k < n) :
    Tiling (n - 1) b rows' := by
  have sublist : ∀ row' ∈ rows', ∃ row ∈ rows, row'.Sublist row := by
    rw [w.rows_eq]
    intro row' hrow
    obtain ⟨row, hr, rfl⟩ := List.mem_map.1 hrow
    exact ⟨row, hr, List.filter_sublist⟩
  refine .of_unique ?_ (fun {r x} hx => ?_) (fun {r x} hx => ?_) (fun row' hrow => ?_)
    fun i hi j hj => ?_
  · rw [w.rows_eq, ← List.filter_flatten]
    exact t.nodup.filter _
  · obtain ⟨hs, keep⟩ := w.stored_iff.1 hx
    have := t.width_pos hs
    refine ⟨?_, w.height hx ▸ t.height_pos hs⟩
    rw [w.width hx]
    split_ifs <;> omega
  · obtain ⟨hs, keep⟩ := w.stored_iff.1 hx
    have := t.within hs
    rw [w.start hx, w.width hx]
    split_ifs <;> omega
  · obtain ⟨row, hr, hsub⟩ := sublist row' hrow
    obtain ⟨r, hr'⟩ := List.getElem?_of_mem hrow
    refine ((t.ordered row hr).sublist hsub).imp_of_mem fun {x y} hx hy h => ?_
    obtain ⟨hsx, hkx⟩ := w.stored_iff.1 ⟨row', hr', hx⟩
    obtain ⟨hsy, hky⟩ := w.stored_iff.1 ⟨row', hr', hy⟩
    have := t.width_pos hsx
    rw [w.start ⟨row', hr', hx⟩, w.width ⟨row', hr', hx⟩, w.start ⟨row', hr', hy⟩]
    split_ifs <;> omega
  · have hi' : i < rows.length := by simpa [w.rows_eq] using hi
    have hj' : shows k j < n := by
      unfold shows
      split_ifs <;> omega
    obtain ⟨c, hc⟩ := t.unique hi' hj'
    exact ⟨c, fun x => (w.covers_iff t).trans (hc x)⟩

end Narrowing

/-! ## A column given to a new cell -/

/-- The cell `c` of row `r` gives its last column to a new cell `f` right behind it. -/
structure Carving (a b : Shape) (r : Nat) (c f : NodeId) (rows rows' : List (List NodeId)) :
    Prop where
  nodup : rows'.flatten.Nodup
  fresh : ∀ {i}, ¬ Stored rows i f
  wide : 1 < a.width c
  row : ∃ l u, rows[r]? = some (l ++ c :: u) ∧ rows' = rows.set r (l ++ c :: f :: u)
  start : ∀ {r x}, Stored rows r x → b.start x = a.start x
  width : ∀ {r x}, Stored rows r x → b.width x = if x = c then a.width x - 1 else a.width x
  height : ∀ {r x}, Stored rows r x → b.height x = a.height x
  new : b.start f = a.start c + a.width c - 1 ∧ b.width f = 1 ∧ b.height f = a.height c

namespace Carving

variable {r : Nat} {c f : NodeId}

theorem stored (w : Carving a b r c f rows rows') : Stored rows r c := by
  obtain ⟨l, u, hr, -⟩ := w.row
  exact ⟨_, hr, by simp⟩

theorem stored_iff (w : Carving a b r c f rows rows') {i : Nat} {x : NodeId} :
    Stored rows' i x ↔ Stored rows i x ∨ i = r ∧ x = f := by
  obtain ⟨l, u, hr, rfl⟩ := w.row
  have hlt : r < rows.length := (List.getElem?_eq_some_iff.1 hr).1
  unfold Stored
  rcases eq_or_ne r i with rfl | hne
  · simp only [List.getElem?_set_self hlt, hr, Option.some.injEq, exists_eq_left', List.mem_append,
      List.mem_cons, true_and]
    tauto
  · simp only [List.getElem?_set_ne hne, hne.symm, false_and, or_false]

theorem ne (w : Carving a b r c f rows rows') {i : Nat} {x : NodeId} (hs : Stored rows i x) :
    x ≠ f := by
  rintro rfl
  exact w.fresh hs

theorem reaches_old (w : Carving a b r c f rows rows') {i k : Nat} {x : NodeId}
    (hs : Stored rows k x) : b.Reaches rows' i x ↔ a.Reaches rows i x := by
  constructor
  · rintro ⟨r', hs', hle, hlt⟩
    have hs' := (w.stored_iff.1 hs').resolve_right fun h => w.ne hs h.2
    exact ⟨r', hs', hle, w.height hs' ▸ hlt⟩
  · rintro ⟨r', hs', hle, hlt⟩
    exact ⟨r', w.stored_iff.2 (.inl hs'), hle, (w.height hs').symm ▸ hlt⟩

theorem reaches_new (w : Carving a b r c f rows rows') (nodup : rows.flatten.Nodup) {i : Nat} :
    b.Reaches rows' i f ↔ a.Reaches rows i c := by
  constructor
  · rintro ⟨r', hs', hle, hlt⟩
    obtain ⟨rfl, -⟩ := (w.stored_iff.1 hs').resolve_left w.fresh
    exact ⟨r', w.stored, hle, w.new.2.2 ▸ hlt⟩
  · rintro ⟨r', hs', hle, hlt⟩
    obtain rfl := hs'.row_unique nodup w.stored
    exact ⟨r', w.stored_iff.2 (.inr ⟨rfl, rfl⟩), hle, w.new.2.2.symm ▸ hlt⟩

/-- The old cells cover what they covered, but for the last column of `c`. -/
theorem covers_old (w : Carving a b r c f rows rows') {i j k : Nat} {y : NodeId}
    (hs : Stored rows k y) : b.Covers rows' i j y ↔
      a.Covers rows i j y ∧ ¬ (y = c ∧ j = a.start c + a.width c - 1) := by
  have wide := w.wide
  rw [Shape.Covers, Shape.Covers, w.reaches_old hs, and_assoc]
  refine and_congr_right fun _ => ?_
  unfold Shape.Spans
  rw [w.start hs, w.width hs]
  split_ifs with h
  · subst h
    simp only [true_and]
    omega
  · simp [h]

/-- The new cell covers the last column of `c`. -/
theorem covers_new (w : Carving a b r c f rows rows') (nodup : rows.flatten.Nodup) {i j : Nat} :
    b.Covers rows' i j f ↔ a.Covers rows i j c ∧ j = a.start c + a.width c - 1 := by
  have wide := w.wide
  obtain ⟨hfs, hfw, -⟩ := w.new
  rw [Shape.Covers, Shape.Covers, w.reaches_new nodup, and_assoc]
  refine and_congr_right fun _ => ?_
  unfold Shape.Spans
  omega

/-- The last column of `c` belongs to the new cell, all others to whom they belonged before. -/
theorem unique (w : Carving a b r c f rows rows') (t : Tiling n a rows) {i j : Nat}
    (hi : i < rows.length) (hj : j < n) : ∃ x, ∀ y, b.Covers rows' i j y ↔ y = x := by
  obtain ⟨x, hx⟩ := t.unique hi hj
  by_cases carved : x = c ∧ j = a.start c + a.width c - 1
  · obtain ⟨rfl, hj⟩ := carved
    refine ⟨f, fun y => ⟨fun hy => ?_, ?_⟩⟩
    · obtain ⟨r', hs, -⟩ := id hy.1
      refine ((w.stored_iff.1 hs).resolve_left fun hs => ?_).2
      obtain ⟨covers, ne⟩ := (w.covers_old hs).1 hy
      exact ne ⟨(hx y).1 covers, hj⟩
    · rintro rfl
      exact (w.covers_new t.nodup).2 ⟨(hx x).2 rfl, hj⟩
  · refine ⟨x, fun y => ⟨fun hy => ?_, ?_⟩⟩
    · obtain ⟨r', hs, -⟩ := id hy.1
      rcases w.stored_iff.1 hs with hs | ⟨-, rfl⟩
      · exact (hx y).1 ((w.covers_old hs).1 hy).1
      · obtain ⟨covers, hj⟩ := (w.covers_new t.nodup).1 hy
        exact absurd ⟨((hx c).1 covers).symm, hj⟩ carved
    · rintro rfl
      have covers := (hx y).2 rfl
      obtain ⟨r', hs, -⟩ := id covers.1
      exact (w.covers_old hs).2 ⟨covers, carved⟩

/-- A tiling stays one when a column is given to a new cell. -/
theorem tiling (w : Carving a b r c f rows rows') (t : Tiling n a rows) : Tiling n b rows' := by
  have wide := w.wide
  have hcn := t.within w.stored
  obtain ⟨hfs, hfw, hfh⟩ := w.new
  have length : rows'.length = rows.length := by
    obtain ⟨l, u, -, rfl⟩ := w.row
    simp
  refine .of_unique w.nodup (fun {k x} hx => ?_) (fun {k x} hx => ?_) (fun row' hrow => ?_)
    fun i hi j hj => w.unique t (length ▸ hi) hj
  · rcases w.stored_iff.1 hx with hs | ⟨-, rfl⟩
    · have := t.width_pos hs
      refine ⟨?_, w.height hs ▸ t.height_pos hs⟩
      rw [w.width hs]
      split_ifs with h
      · subst h
        omega
      · exact this
    · exact ⟨hfw ▸ Nat.one_pos, hfh ▸ t.height_pos w.stored⟩
  · rcases w.stored_iff.1 hx with hs | ⟨-, rfl⟩
    · have := t.within hs
      rw [w.start hs, w.width hs]
      split_ifs <;> omega
    · omega
  · -- Cells only get narrower, and the new one lies where `c` has lost its column.
    have keep : ∀ {k} {row : List NodeId}, rows[k]? = some row →
        row.Pairwise fun x y => b.start x + b.width x ≤ b.start y := fun {k row} hk => by
      refine (t.ordered row (List.mem_of_getElem? hk)).imp_of_mem fun {x y} hx hy h => ?_
      rw [w.start ⟨row, hk, hx⟩, w.width ⟨row, hk, hx⟩, w.start ⟨row, hk, hy⟩]
      split_ifs <;> omega
    obtain ⟨l, u, hr, rfl⟩ := w.row
    obtain ⟨k, hk⟩ := List.getElem?_of_mem hrow
    rcases eq_or_ne r k with rfl | hne
    · rw [List.getElem?_set_self (List.getElem?_eq_some_iff.1 hr).1, Option.some.injEq] at hk
      subst hk
      have hb := keep hr
      have ha := t.ordered _ (List.mem_of_getElem? hr)
      have stored : ∀ {x}, x ∈ l ++ c :: u → Stored rows r x := fun hx => ⟨_, hr, hx⟩
      simp only [List.pairwise_append, List.pairwise_cons, List.mem_cons] at ha hb ⊢
      obtain ⟨hbl, ⟨hbc, hbu⟩, hblu⟩ := hb
      obtain ⟨-, ⟨hac, -⟩, halu⟩ := ha
      refine ⟨hbl, ⟨?_, fun y hy => ?_, hbu⟩, ?_⟩
      · rintro y (rfl | hy)
        · rw [w.start w.stored, w.width w.stored, if_pos rfl]
          omega
        · exact hbc y hy
      · have := hac y hy
        have := w.start (stored (x := y) (by simp [hy]))
        omega
      · rintro x hx y (rfl | rfl | hy)
        · exact hblu x hx y (.inl rfl)
        · have := halu x hx c (.inl rfl)
          have := hblu x hx c (.inl rfl)
          rw [w.start w.stored] at this
          omega
        · exact hblu x hx y (.inr hy)
    · rw [List.getElem?_set_ne hne] at hk
      exact keep hk

end Carving

end Tiling

end RichTable
