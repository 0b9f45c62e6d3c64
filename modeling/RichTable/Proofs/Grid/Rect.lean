import Mathlib
import RichTable.Edit.Merge
import RichTable.Proofs.Grid.Regular

/-!
# Rectangles of a regular table

A rectangle that cuts no cell is the union of cells, its `Rectangle`. The candidates of a merge are
these cells in reading order (`Regular.rectangle`, `Regular.pairwise_candidates`), and the first of
them is the one in the corner.
-/

namespace RichTable

/-! ## Lists -/

theorem mapM_eq_some {α β : Type} {f : α → Option β} {l : List α} {m : List β} :
    l.mapM f = some m ↔ l.map f = m.map some := by
  induction l generalizing m with
  | nil => cases m <;> simp
  | cons a l ih =>
    rw [List.mapM_cons]
    cases ha : f a with
    | none => cases m <;> simp [ha]
    | some b =>
      cases hl : l.mapM f with
      | none =>
        cases m with
        | nil => simp [ha]
        | cons c m =>
          have : l.map f ≠ m.map some := fun h => by rw [ih.2 h] at hl; cases hl
          simp [ha, this]
      | some bs =>
        have := ih.1 hl
        cases m with
        | nil => simp [ha]
        | cons c m =>
          simp only [ha, this, List.map_cons, List.cons.injEq, Option.some.injEq, Option.pure_def,
            Option.bind_eq_bind, Option.bind_some]
          refine and_congr_right fun _ => ?_
          exact (List.map_inj_right fun _ _ => Option.some.inj).symm

/-- If the first element that shows a value is its key, the values appear in the order of keys. -/
theorem pairwise_eraseDups {α β : Type} [BEq β] [LawfulBEq β] {lt : α → α → Prop} {f : α → β}
    (key : β → α) (asymm : ∀ a b, lt a b → ¬ lt b a) (l : List α) (sorted : l.Pairwise lt)
    (hkey : ∀ a ∈ l, key (f a) ∈ l ∧ f (key (f a)) = f a ∧ (key (f a) = a ∨ lt (key (f a)) a)) :
    (l.map f).eraseDups.Pairwise fun b c => lt (key b) (key c) := by
  induction hn : l.length using Nat.strong_induction_on generalizing l with
  | _ n ih =>
    cases l with
    | nil => exact .nil
    | cons a l =>
      obtain ⟨first, sorted⟩ := List.pairwise_cons.1 sorted
      have head : key (f a) = a := by
        obtain ⟨hmem, -, h⟩ := hkey a (by simp)
        refine h.resolve_right fun hlt => ?_
        rcases List.mem_cons.1 hmem with e | hmem
        · rw [e] at hlt
          exact asymm _ _ hlt hlt
        · exact asymm _ _ (first _ hmem) hlt
      have rest : ∀ x ∈ l.filter (fun x => !f x == f a), key (f x) ∈ l.filter (fun x => !f x == f a) ∧
          f (key (f x)) = f x ∧ (key (f x) = x ∨ lt (key (f x)) x) := fun x hx => by
        obtain ⟨hxl, hne⟩ := List.mem_filter.1 hx
        obtain ⟨hmem, hf, h⟩ := hkey x (by simp [hxl])
        refine ⟨List.mem_filter.2 ⟨(List.mem_cons.1 hmem).resolve_left fun e => ?_, ?_⟩, hf, h⟩
        · rw [e] at hf
          simp [hf] at hne
        · rwa [hf]
      rw [List.map_cons, List.eraseDups_cons, List.filter_map, List.pairwise_cons]
      refine ⟨fun b hb => ?_, ih _ ?_ _ (sorted.sublist List.filter_sublist) rest rfl⟩
      · obtain ⟨x, hx, rfl⟩ := List.mem_map.1 (List.mem_eraseDups.1 hb)
        rw [head]
        exact first _ (List.mem_filter.1 (rest x hx).1).1
      · have := List.length_filter_le (fun x => !f x == f a) l
        simp only [List.length_cons] at hn
        simp only [Function.comp_def] at this ⊢
        omega

namespace Document

variable {L : Type} {d : Document L} {t g : NodeId}

/-! ## Cells at places -/

namespace Regular

theorem columnRange?_eq (reg : d.Regular t) {c : NodeId} (hc : c ∈ d.tableCells t) :
    d.columnRange? c = some ⟨d.shape.start c, d.shape.start c + d.shape.width c - 1⟩ :=
  Document.columnRange?_eq (reg.columnIndex?_eq hc)

/-- Every place of a regular table shows the one cell that occupies it. -/
theorem coveringCell?_eq_some (reg : d.Regular t) (hg : g ∈ d.children t) {row c : NodeId} {i j : Nat}
    (hi : (d.children g)[i]? = some row) :
    d.coveringCell? row j = some c ↔ d.shape.Reaches (d.rowsOf g) i c ∧ d.shape.Spans j c := by
  have hgk := reg.kind_group hg
  have mem := fun {c} => reg.wf.mem_occupants hgk hi (c := c)
  have covers : ∀ {c}, d.shape.Reaches (d.rowsOf g) i c →
      (d.covers j c = true ↔ d.shape.Spans j c) := fun {c} ⟨r, hs, _⟩ =>
    reg.steady.covers_iff (mem_tableCells.2 ⟨g, hg, r, hs⟩) j
  have hlt := lt_length_rowsOf hi
  constructor
  · intro h
    have hc := mem.1 (List.mem_of_find?_eq_some h)
    exact ⟨hc, (covers hc).1 (List.find?_some h)⟩
  · rintro ⟨hc, hcj⟩
    cases h : d.coveringCell? row j with
    | none => exact absurd ((covers hc).2 hcj) (List.find?_eq_none.1 h c (mem.2 hc))
    | some b =>
      have hb := mem.1 (List.mem_of_find?_eq_some h)
      rw [(reg.tiled g hg).disjoint hlt hb ((covers hb).1 (List.find?_some h)) hc hcj]

theorem exists_coveringCell? (reg : d.Regular t) {row : NodeId} (hr : row ∈ d.tableRows t) {j : Nat}
    (hj : j < d.columnCount t) : ∃ c, d.coveringCell? row j = some c := by
  obtain ⟨g, hg, i, hi⟩ := exists_group_of_mem_tableRows hr
  obtain ⟨c, covers⟩ := (reg.tiled g hg).covered (lt_length_rowsOf hi) hj
  exact ⟨c, (reg.coveringCell?_eq_some hg hi).2 covers⟩

end Regular

/-! ## Rectangles -/

/-- The rectangle cuts no cell, and these are the cells in it, each once. -/
structure Rectangle (d : Document L) (t g : NodeId) (rect : CellRect) (cells : List NodeId) :
    Prop where
  rows : rect.top ≤ rect.bottom ∧ rect.bottom < (d.rowsOf g).length
  columns : rect.left ≤ rect.right ∧ rect.right < d.columnCount t
  nodup : cells.Nodup
  mem_iff : ∀ {c}, c ∈ cells ↔ ∃ i j, (rect.top ≤ i ∧ i ≤ rect.bottom) ∧
    (rect.left ≤ j ∧ j ≤ rect.right) ∧ d.shape.Reaches (d.rowsOf g) i c ∧ d.shape.Spans j c
  inside : ∀ {c}, c ∈ cells → ∀ i j, i < (d.rowsOf g).length → d.shape.Reaches (d.rowsOf g) i c →
    d.shape.Spans j c → (rect.top ≤ i ∧ i ≤ rect.bottom) ∧ rect.left ≤ j ∧ j ≤ rect.right

namespace Rectangle

variable {rect : CellRect} {cells : List NodeId}

theorem stored (h : Rectangle d t g rect cells) {c : NodeId} (hc : c ∈ cells) :
    ∃ r, Stored (d.rowsOf g) r c ∧ rect.top ≤ r ∧ r ≤ rect.bottom ∧ rect.left ≤ d.shape.start c := by
  obtain ⟨i, j, hi, hj, hr, hsp⟩ := h.mem_iff.1 hc
  obtain ⟨r, hs, hle, hlt⟩ := id hr
  have hlen := hs.lt_length
  have own : d.shape.Reaches (d.rowsOf g) r c := ⟨r, hs, le_rfl, by omega⟩
  have first : d.shape.Spans (d.shape.start c) c := ⟨le_rfl, by have := hsp.1; have := hsp.2; omega⟩
  obtain ⟨⟨h₁, h₂⟩, h₃, -⟩ := h.inside hc r _ hlen own first
  exact ⟨r, hs, h₁, h₂, h₃⟩

theorem kind_cells (h : Rectangle d t g rect cells) (reg : d.Regular t) (hg : g ∈ d.children t) :
    ∀ c ∈ cells, d.kind? c = some .cell := by
  intro c hc
  obtain ⟨r, hs, -⟩ := h.stored hc
  exact reg.wf.kind_stored (reg.kind_group hg) hs

end Rectangle

/-- The places of a rectangle, row by row. -/
def places (d : Document L) (g : NodeId) (rect : CellRect) : List (NodeId × Nat) :=
  (rect.rowsOf (d.children g)).flatMap fun row =>
    (List.range' rect.left (rect.right + 1 - rect.left)).map fun column => (row, column)

theorem mem_places {rect : CellRect} {p : NodeId × Nat} : p ∈ d.places g rect ↔
    ∃ i, (rect.top ≤ i ∧ i ≤ rect.bottom) ∧ (d.children g)[i]? = some p.1 ∧
      rect.left ≤ p.2 ∧ p.2 ≤ rect.right := by
  obtain ⟨row, j⟩ := p
  simp only [places, CellRect.rowsOf, List.mem_flatMap, List.mem_map, Prod.mk.injEq, List.mem_range'_1]
  constructor
  · rintro ⟨row', hrow, j', hj, rfl, rfl⟩
    obtain ⟨i, hi⟩ := List.getElem?_of_mem hrow
    rw [List.getElem?_drop, List.getElem?_take] at hi
    split_ifs at hi with hlt
    exact ⟨rect.top + i, by omega, hi, by omega, by omega⟩
  · rintro ⟨i, hi, hrow, h₁, h₂⟩
    refine ⟨row, List.mem_of_getElem? (i := i - rect.top) ?_, j, by omega, rfl, rfl⟩
    rw [List.getElem?_drop, List.getElem?_take, show rect.top + (i - rect.top) = i by omega,
      if_pos (by omega), hrow]

theorem nodup_eraseDups {α : Type} [BEq α] [LawfulBEq α] (l : List α) : l.eraseDups.Nodup := by
  induction hn : l.length using Nat.strong_induction_on generalizing l with
  | _ n ih =>
    cases l with
    | nil => exact .nil
    | cons a l =>
      rw [List.eraseDups_cons, List.nodup_cons]
      refine ⟨fun h => ?_, ih _ ?_ _ rfl⟩
      · simpa using List.mem_eraseDups.1 h
      · have := List.length_filter_le (fun b => !b == a) l
        simp only [List.length_cons] at hn
        omega

namespace Regular

variable {rect : CellRect} {cells : List NodeId}

/-- Whether a cell lies wholly inside a rectangle. -/
theorem inRect_iff (reg : d.Regular t) (hg : g ∈ d.children t) {r : Nat} {c : NodeId}
    (hs : Stored (d.rowsOf g) r c) : d.inRect rect c = true ↔
      (rect.left ≤ d.shape.start c ∧ d.shape.start c + d.shape.width c - 1 ≤ rect.right) ∧
      rect.top ≤ r ∧ r + min (d.shape.height c) ((d.children g).length - r) - 1 ≤ rect.bottom := by
  have hgk := reg.kind_group hg
  simp only [inRect, reg.columnRange?_eq (mem_tableCells.2 ⟨g, hg, r, hs⟩),
    reg.wf.originRow?_eq hgk hs, reg.wf.effectiveRowSpan_eq hgk hs, ColumnRange.within,
    CellRect.columns, Option.any_some, Bool.and_eq_true, decide_eq_true_eq]
  exact and_congr_left' (and_congr decide_eq_true_iff decide_eq_true_iff)

/-- The candidates of a merge are the cells of the rectangle. -/
theorem rectangle (reg : d.Regular t) (hg : g ∈ d.children t)
    (h : d.mergeCandidates? t rect (d.children g) = some cells) :
    Rectangle d t g rect cells ∧
      ((d.places g rect).map fun p => d.coveringCell? p.1 p.2) =
        ((d.places g rect).filterMap fun p => d.coveringCell? p.1 p.2).map some ∧
      cells = ((d.places g rect).filterMap fun p => d.coveringCell? p.1 p.2).eraseDups := by
  unfold mergeCandidates? at h
  split at h
  swap
  · cases h
  next topRow bottomRow htop hbottom =>
  split at h
  · cases h
  next hrange =>
  split at h
  · cases h
  split at h
  · cases h
  obtain ⟨all, hall, rfl⟩ := Option.map_eq_some_iff.1 h
  have hbot := (List.getElem?_eq_some_iff.1 hbottom).1
  have found := mapM_eq_some.1 (show (d.places g rect).mapM (fun p =>
    (d.coveringCell? p.1 p.2).filter (d.inRect rect)) = some all from hall)
  -- every place shows a cell, and that cell lies inside
  have shown : ∀ p ∈ d.places g rect, ∃ c, d.coveringCell? p.1 p.2 = some c ∧
      d.inRect rect c = true := fun p hp => by
    have hmem : (d.coveringCell? p.1 p.2).filter (d.inRect rect) ∈ all.map some := by
      rw [← found]
      exact List.mem_map_of_mem hp
    obtain ⟨c, -, hc⟩ := List.mem_map.1 hmem
    rw [eq_comm, Option.filter_eq_some_iff] at hc
    exact ⟨c, hc⟩
  have same : (d.places g rect).map (fun p => (d.coveringCell? p.1 p.2).filter (d.inRect rect)) =
      (d.places g rect).map fun p => d.coveringCell? p.1 p.2 := List.map_congr_left fun p hp => by
    obtain ⟨c, hc, hin⟩ := shown p hp
    rw [hc, Option.filter_some_pos hin]
  rw [same] at found
  have eq : (d.places g rect).filterMap (fun p => d.coveringCell? p.1 p.2) = all := by
    have := congrArg List.reduceOption found
    simpa [List.reduceOption, List.filterMap_map, Function.comp_def] using this
  refine ⟨?_, by rw [eq, found], by rw [eq]⟩
  have member : ∀ {c}, c ∈ all ↔ ∃ p ∈ d.places g rect, d.coveringCell? p.1 p.2 = some c :=
    fun {c} => by rw [← eq, List.mem_filterMap]
  have covers : ∀ {i j row c}, (d.children g)[i]? = some row →
      (d.coveringCell? row j = some c ↔ d.shape.Reaches (d.rowsOf g) i c ∧ d.shape.Spans j c) :=
    fun hi => reg.coveringCell?_eq_some hg hi
  refine ⟨⟨by omega, by rwa [length_rowsOf]⟩, by omega, nodup_eraseDups _, fun {c} => ?_,
    fun {c} hc i j hi hr hsp => ?_⟩
  · rw [List.mem_eraseDups, member]
    constructor
    · rintro ⟨⟨row, j⟩, hp, hc⟩
      obtain ⟨i, hi, hrow, hj⟩ := mem_places.1 hp
      exact ⟨i, j, hi, hj, (covers hrow).1 hc⟩
    · rintro ⟨i, j, hi, hj, hc⟩
      have hrow := List.getElem?_eq_getElem (show i < (d.children g).length by omega)
      exact ⟨(_, j), mem_places.2 ⟨i, hi, hrow, hj⟩, (covers hrow).2 hc⟩
  · obtain ⟨⟨row, j'⟩, hp, hc⟩ := member.1 (List.mem_eraseDups.1 hc)
    obtain ⟨c', hc', hin⟩ := shown _ hp
    obtain rfl : c = c' := Option.some.inj (hc.symm.trans hc')
    obtain ⟨r, hs, hle, hlt⟩ := hr
    have hfit := hs.lt_length
    obtain ⟨⟨h₁, h₂⟩, h₃, h₄⟩ := (reg.inRect_iff hg hs).1 hin
    rw [length_rowsOf] at hi hfit
    obtain ⟨h₅, h₆⟩ := hsp
    omega

end Regular

/-! ## Reading order -/

/-- A cell comes before another, row by row and from left to right. -/
def Before (d : Document L) (b c : NodeId) : Prop :=
  d.topRow b < d.topRow c ∨ d.topRow b = d.topRow c ∧ d.shape.start b < d.shape.start c

/-- The places of a rectangle come row by row and from left to right. -/
theorem WellFormed.pairwise_places (wf : d.WellFormed) (g : NodeId) (rect : CellRect) :
    (d.places g rect).Pairwise fun p q => (d.childIndex? p.1).getD 0 < (d.childIndex? q.1).getD 0 ∨
      p.1 = q.1 ∧ p.2 < q.2 := by
  refine List.pairwise_flatMap.2 ⟨fun row _ => ?_, ?_⟩
  · rw [List.pairwise_map]
    exact (List.pairwise_lt_range' ..).imp fun h => .inr ⟨rfl, h⟩
  · refine List.pairwise_iff_getElem.2 fun i j hi hj hij p hp q hq => .inl ?_
    obtain ⟨_, -, rfl⟩ := List.mem_map.1 hp
    obtain ⟨_, -, rfl⟩ := List.mem_map.1 hq
    have index : ∀ k (hk : k < (rect.rowsOf (d.children g)).length),
        (d.childIndex? ((rect.rowsOf (d.children g))[k])).getD 0 = rect.top + k := fun k hk => by
      have hk' := List.getElem?_eq_getElem hk
      generalize (rect.rowsOf (d.children g))[k] = row at hk' ⊢
      rw [CellRect.rowsOf, List.getElem?_drop, List.getElem?_take] at hk'
      split_ifs at hk'
      rw [wf.childIndex?_eq hk', Option.getD_some]
    simp only [index]
    omega

/-- The candidates of a merge come in reading order. -/
theorem Regular.pairwise_candidates (reg : d.Regular t) (hg : g ∈ d.children t) {rect : CellRect}
    {cells : List NodeId} (h : d.mergeCandidates? t rect (d.children g) = some cells) :
    cells.Pairwise d.Before := by
  obtain ⟨hrect, hall, hcells⟩ := reg.rectangle hg h
  have hgk := reg.kind_group hg
  have wf := reg.wf
  have values : (d.places g rect).filterMap (fun p => d.coveringCell? p.1 p.2) =
      (d.places g rect).map fun p => (d.coveringCell? p.1 p.2).getD 0 := by
    have := congrArg (List.map fun o : Option NodeId => o.getD 0) hall
    simpa [Function.comp_def] using this.symm
  have covers := fun {i j row c} (hi : (d.children g)[i]? = some row) =>
    reg.coveringCell?_eq_some hg (j := j) (c := c) hi
  -- the first place that shows a cell is the one where it starts
  have key : ∀ {i j row c}, (d.children g)[i]? = some row → d.coveringCell? row j = some c →
      ∃ r own, Stored (d.rowsOf g) r c ∧ (d.children g)[r]? = some own ∧ d.parent? c = some own ∧
        r ≤ i ∧ d.shape.start c ≤ j ∧ d.coveringCell? own (d.shape.start c) = some c := by
    intro i j row c hi hc
    obtain ⟨⟨r, hs, hle, hlt⟩, hsp⟩ := (covers hi).1 hc
    obtain ⟨own, hown, hmem⟩ := stored_rowsOf.1 hs
    have hpos := wf.height_pos hgk hs
    have hwidth := wf.width_pos hgk hs
    exact ⟨r, own, hs, hown, wf.mem_children.1 hmem, hle, hsp.1,
      (covers hown).2 ⟨⟨r, hs, le_rfl, by omega⟩, le_rfl, by omega⟩⟩
  have ordered := pairwise_eraseDups (f := fun p => (d.coveringCell? p.1 p.2).getD 0)
    (fun c => ((d.parent? c).getD 0, d.shape.start c)) (fun p q h₁ h₂ => ?_) _
    (wf.pairwise_places g rect) fun p hp => ?_
  · rw [hcells, values]
    refine ordered.imp_of_mem fun {b c} hb hc h => ?_
    rw [← values, ← hcells] at hb hc
    obtain ⟨r, hsb, -⟩ := hrect.stored hb
    obtain ⟨r', hsc, -⟩ := hrect.stored hc
    obtain ⟨row, hr, hbr⟩ := stored_rowsOf.1 hsb
    obtain ⟨row', hr', hcr⟩ := stored_rowsOf.1 hsc
    simp only [wf.mem_children.1 hbr, wf.mem_children.1 hcr, Option.getD_some, wf.childIndex?_eq hr,
      wf.childIndex?_eq hr'] at h
    rw [Before, wf.topRow_eq hgk hsb, wf.topRow_eq hgk hsc]
    refine h.imp_right fun ⟨e, h⟩ => ⟨wf.index_unique hr (e ▸ hr'), h⟩
  · rcases h₁ with h₁ | ⟨e₁, h₁⟩ <;> rcases h₂ with h₂ | ⟨e₂, h₂⟩
    · omega
    · rw [e₂] at h₁
      omega
    · rw [e₁] at h₂
      omega
    · omega
  · obtain ⟨row, j⟩ := p
    obtain ⟨i, hi, hrow, hj⟩ := mem_places.1 hp
    obtain ⟨c, hc⟩ : ∃ c, d.coveringCell? row j = some c := by
      have hmem : d.coveringCell? row j ∈ ((d.places g rect).filterMap fun p =>
          d.coveringCell? p.1 p.2).map some := by
        rw [← hall]
        exact List.mem_map.2 ⟨_, hp, rfl⟩
      obtain ⟨c, -, hc⟩ := List.mem_map.1 hmem
      exact ⟨c, hc.symm⟩
    obtain ⟨r, own, hs, hown, hparent, hle, hstart, hfirst⟩ := key hrow hc
    have hcell : c ∈ cells := by
      rw [hcells, List.mem_eraseDups]
      exact List.mem_filterMap.2 ⟨_, hp, hc⟩
    obtain ⟨r', hs', htop, hbot, hleft⟩ := hrect.stored hcell
    obtain rfl := hs.row_unique (wf.nodup_rowsOf g) hs'
    dsimp only
    rw [hc, Option.getD_some, hparent, Option.getD_some]
    refine ⟨mem_places.2 ⟨r, ⟨htop, hbot⟩, hown, hleft, by omega⟩, by rw [hfirst, Option.getD_some], ?_⟩
    rw [wf.childIndex?_eq hown, wf.childIndex?_eq hrow]
    rcases Nat.lt_or_eq_of_le hle with hlt | rfl
    · exact .inr (.inl hlt)
    · obtain rfl : own = row := Option.some.inj (hown.symm.trans hrow)
      rcases Nat.lt_or_eq_of_le hstart with hlt | e
      · exact .inr (.inr ⟨rfl, hlt⟩)
      · exact .inl (by rw [e])

end Document

end RichTable
