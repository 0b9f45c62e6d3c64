import Mathlib
import RichTable.Proofs.Edit.Build
import RichTable.Proofs.Lockstep
import RichTable.Proofs.Twin.Basic

/-!
# Writing to twins

A change that is made on both sides, at related nodes and with the same data, leaves twins behind. New
nodes are added to the relation, which is why the relation of a longer edit only grows.
-/

namespace RichTable

open List

namespace Document

variable {L : Type} {R R₀ : Kind → NodeId → NodeId → Prop} {X : NodeId → Prop}
  {d d' e e' : Document L} {k k' : Kind} {x x' t t' g g' p p' c c' n n' : NodeId}

/-! ## Kinds -/

theorem below_injective (h : k.below = some k') {j : Kind} (hj : j.below = some k') : j = k := by
  cases k <;> cases h <;> cases j <;> first | rfl | cases hj

theorem eq_of_accepts (h : k.below = some k') {j : Kind} (hj : j.accepts k' = true) : j = k := by
  cases k <;> cases h <;> cases j <;> first | rfl | cases hj

theorem below_ne (h : k.below = some k') : k' ≠ .table ∧ k' ≠ .block ∧ k' ≠ .inline ∧
    k ≠ .cell ∧ k ≠ .block := by
  cases k <;> simp_all [Kind.below] <;> simp [← h]

/-! ## Data of cells and tables -/

/-- A change that treats cells alike if they differ in their borders only. -/
def LayoutOnly (f : CellProps L → CellProps L) : Prop :=
  ∀ p q : CellProps L, q.layout = p.layout → (f q).layout = (f p).layout

theorem SameText.of_sameInside {Y Y' : NodeId → Prop} (h : SameText d d' c c')
    (same : SameInside Y d e) (same' : SameInside Y' d' e') (wf : d.WellFormed) (wf' : d'.WellFormed)
    (kind : d.kind? c = some .cell ∧ d'.kind? c' = some .cell) (hY : ¬ Y c) (hY' : ¬ Y' c') :
    SameText e e' c c' := by
  obtain ⟨tidy, text⟩ := same.tidy wf kind.1 hY h.left
  obtain ⟨tidy', text'⟩ := same'.tidy wf' kind.2 hY' h.right
  exact ⟨tidy, tidy', by rw [text, text', h.text]⟩

theorem extents_eq_of_related {S : NodeId → NodeId → Prop}
    (extent : ∀ c c', S c c' → d.extent c = d'.extent c')
    (cells : Forall₂ (fun g g' => Forall₂ (Forall₂ S) (d.rowsOf g) (d'.rowsOf g')) (d.children t)
      (d'.children t')) : d.extents t = d'.extents t' := by
  rw [extents, extents, cellGrid, cellGrid, map_map, map_map]
  exact map_eq_of_related cells fun _ _ rows => map_eq_of_related rows fun _ _ row =>
    map_eq_of_related row extent

/-- Cells of the same extents, in rows and row groups that correspond, are placed at the same columns. -/
theorem columns_eq_of_related {S : NodeId → NodeId → Prop} {s s' : NodeId → Nat}
    (hs : d.Columns t s) (hs' : d'.Columns t' s') (extent : ∀ c c', S c c' → d.extent c = d'.extent c')
    (cells : Forall₂ (fun g g' => Forall₂ (Forall₂ S) (d.rowsOf g) (d'.rowsOf g')) (d.children t)
      (d'.children t')) :
    Forall₂ (fun c c' => S c c' ∧ s c = s' c') (d.tableCells t) (d'.tableCells t') := by
  rw [tableCells_eq_flatMap, tableCells_eq_flatMap]
  obtain ⟨length, cells⟩ := forall₂_iff_zip.1 cells
  have groups : Forall₂ (fun g g' => (g, g') ∈ (d.children t).zip (d'.children t')) (d.children t)
      (d'.children t') := forall₂_iff_zip.2 ⟨length, id⟩
  refine rel_flatMap groups fun g g' mem => ?_
  obtain ⟨hg, hg'⟩ := of_mem_zip mem
  have cells := cells mem
  have extents : (d.rowsOf g).map (·.map d.extent) = (d'.rowsOf g').map (·.map d'.extent) :=
    map_eq_of_related cells fun _ _ hr => map_eq_of_related hr extent
  have starts : (d.rowsOf g).flatten.map s = (d'.rowsOf g').flatten.map s' := by
    rw [map_flatten, map_flatten, ← hs g hg, ← hs' g' hg', extents]
  exact (rel_flatten cells).mp (fun _ _ => And.intro) (related_of_map_eq starts)

namespace Twin

theorem of_sameTree (h : Twin R X d d') (same : SameTree d e) (same' : SameTree d' e')
    (table : ∀ {t t'}, R .table t t' → e'.table? t' = e.table? t)
    (layout : ∀ {c c'}, R .cell c c' → (e'.cell? c').map (·.layout) = (e.cell? c).map (·.layout))
    (spans : ∀ {c c'}, R .cell c c' → ∀ props, e.cell? c = some props →
      1 ≤ props.columnSpan ∧ 1 ≤ props.rowSpan) : Twin R X e e' where
  wf := same.wellFormed h.wf
  wf' := same'.wellFormed h.wf'
  unique := h.unique
  kind hx := by rw [same.kind, same'.kind]; exact h.kind hx
  children hx hb := by rw [same.children, same'.children]; exact h.children hx hb
  parent hx hb := by rw [same.parent, same'.parent]; exact h.parent hx hb
  top ht := by rw [same.parent, same'.parent]; exact h.top ht
  table := table
  layout := layout
  spans := spans
  text hc hX :=
    (h.text hc hX).of_sameInside (.of_sameTree same) (.of_sameTree same') h.wf h.wf' (h.kind hc)
      not_false not_false

theorem rebordered (h : Twin R X d d') (same : Rebordered d e) (same' : Rebordered d' e') :
    Twin R X e e' :=
  h.of_sameTree same.same same'.same (fun ht => by rw [same.table, same'.table, h.table ht])
    (fun hc => by rw [same.layout, same'.layout, h.layout hc])
    fun {c c'} hc props hp => by
      rcases cell?_of_layout (same.layout c) with ⟨-, h₂⟩ | ⟨p, p', h₁, h₂, layout⟩
      · simp [hp] at h₂
      · simp only [CellProps.layout, Prod.mk.injEq] at layout
        cases h₂.symm.trans hp
        rw [layout.1, layout.2.1]
        exact h.spans hc p h₁

theorem modifyCell (h : Twin R X d d') (hc : R .cell c c') {f : CellProps L → CellProps L}
    (hf : LayoutOnly f) (spans : ∀ p, d.cell? c = some p → 1 ≤ (f p).columnSpan ∧ 1 ≤ (f p).rowSpan) :
    Twin R X (d.modifyCell c f) (d'.modifyCell c' f) := by
  refine h.of_sameTree (.modifyCell d c f) (.modifyCell d' c' f) (fun ht => by simp [h.table ht])
    (fun {b b'} hb => ?_) fun {b b'} hb props hp => ?_
  · have same : b = c ↔ b' = c' := h.eq_iff hb hc
    rw [cell?_modifyCell, cell?_modifyCell]
    obtain ⟨p, p', h₁, h₂, layout⟩ := h.exists_cell hb
    simp only [h₁, h₂, Option.map_some, Option.some.injEq, same]
    split
    · exact hf _ _ layout
    · exact layout
  · rw [cell?_modifyCell] at hp
    obtain ⟨p, hb', rfl⟩ := Option.map_eq_some_iff.1 hp
    split
    · next hbc => exact spans p (hbc ▸ hb')
    · exact h.spans hb p hb'

theorem modifyTable (h : Twin R X d d') (ht : R .table t t') (f : TableProps L → TableProps L) :
    Twin R X (d.modifyTable t f) (d'.modifyTable t' f) := by
  refine h.of_sameTree (.modifyTable d t f) (.modifyTable d' t' f) (fun {u u'} hu => ?_)
    (fun hb => by simp [h.layout hb]) fun hb props hp => h.spans hb props (by simpa using hp)
  have same : u = t ↔ u' = t' := h.eq_iff hu ht
  rw [table?_modifyTable, table?_modifyTable, h.table hu]
  simp only [same]

theorem foldl_clamp (h : Twin R X d d') {cells cells' : List NodeId}
    (hs : Forall₂ (R .cell) cells cells') :
    Twin R X
      (cells.foldl (fun d c => d.modifyCell c fun props =>
        { props with rowSpan := max (d.effectiveRowSpan c) 1 }) d)
      (cells'.foldl (fun d c => d.modifyCell c fun props =>
        { props with rowSpan := max (d.effectiveRowSpan c) 1 }) d') := by
  induction hs generalizing d d' with
  | nil => exact h
  | cons hc _ ih =>
    simp only [foldl_cons, ← h.effectiveRowSpan_eq hc]
    refine ih (h.modifyCell hc (fun p q e => ?_) fun p hp => ⟨(h.spans hc p hp).1, le_max_right _ _⟩)
    simp_all [CellProps.layout]

theorem clampRowSpans (h : Twin R X d d') (hg : R .rowGroup g g') :
    Twin R X (d.clampRowSpans g) (d'.clampRowSpans g') :=
  h.foldl_clamp (rel_flatMap (h.children hg rfl) fun _ _ hr => h.children hr rfl)

/-! ## Placement -/

theorem extents_eq (h : Twin R X d d') (ht : R .table t t') : d.extents t = d'.extents t' :=
  extents_eq_of_related (fun _ _ hc => h.extent_eq hc) ((h.children ht rfl).imp fun _ _ hg =>
    rel_map (fun _ _ hr => h.children hr rfl) (h.children hg rfl))

/-- Related cells are placed at the same columns. -/
theorem columns_related (h : Twin R X d d') (ht : R .table t t') {s s' : NodeId → Nat}
    (hs : d.Columns t s) (hs' : d'.Columns t' s') :
    Forall₂ (fun c c' => R .cell c c' ∧ s c = s' c') (d.tableCells t) (d'.tableCells t') :=
  columns_eq_of_related hs hs' (fun _ _ hc => h.extent_eq hc) ((h.children ht rfl).imp fun _ _ hg =>
    rel_map (fun _ _ hr => h.children hr rfl) (h.children hg rfl))

/-- Placing both tables keeps them twins. -/
theorem placed (h : Twin R X d d') (ht : R .table t t') :
    Twin R X (d.placed t) (d'.placed t') := by
  obtain ⟨s, hs⟩ := h.wf.exists_columns t
  obtain ⟨s', hs'⟩ := h.wf'.exists_columns t'
  have columns := h.columns_related ht hs hs'
  refine h.of_sameTree (h.wf.sameTree_placed t) (h.wf'.sameTree_placed t') (fun {u u'} hu => ?_)
    (fun {c c'} hc => ?_) fun {c c'} hc props hp => ?_
  · have same : u = t ↔ u' = t' := h.eq_iff hu ht
    rw [h.wf.table?_placed, h.wf'.table?_placed, h.table hu, h.extents_eq ht]
    simp only [same]
  · rw [h.wf.cell?_placed hs, h.wf'.cell?_placed hs']
    have mem : c ∈ d.tableCells t ↔ c' ∈ d'.tableCells t' :=
      rel_mem (h.unique .cell) hc (h.tableCells ht)
    obtain ⟨p, p', h₁, h₂, layout⟩ := h.exists_cell hc
    simp only [h₁, h₂, Option.map_some, Option.some.injEq, ← mem]
    split
    · next hmem =>
      obtain ⟨b, -, hb, e⟩ := exists_related_of_mem columns hmem
      cases (h.unique .cell).2 hb hc
      simp_all [CellProps.layout]
    · exact layout
  · rw [h.wf.cell?_placed hs] at hp
    obtain ⟨p, hp', rfl⟩ := Option.map_eq_some_iff.1 hp
    have := h.spans hc p hp'
    split <;> exact this

/-! ## New nodes -/

/-- The frame of a table does not see changes inside of cells. -/
theorem of_frame {C C' X' : NodeId → Prop} (h : Twin R X d d') (wf : e.WellFormed)
    (wf' : e'.WellFormed) (frame : Frame C (fun _ => False) d e)
    (frame' : Frame C' (fun _ => False) d' e') (cells : ∀ x, C x → d.kind? x = some .cell)
    (cells' : ∀ x, C' x → d'.kind? x = some .cell)
    (text : ∀ {c c'}, R .cell c c' → ¬ X' c → SameText e e' c c') : Twin R X' e e' := by
  have lt {k x x'} (hx : R k x x') : x < d.size ∧ x' < d'.size :=
    ⟨lt_size_of_kind? (h.kind hx).1, lt_size_of_kind? (h.kind hx).2⟩
  have outer {k x x'} (hx : R k x x') (hk : k ≠ .cell) : ¬ C x ∧ ¬ C' x' :=
    ⟨fun hc => hk (Option.some.inj ((h.kind hx).1.symm.trans (cells x hc))),
      fun hc => hk (Option.some.inj ((h.kind hx).2.symm.trans (cells' x' hc)))⟩
  have root : ¬ C root ∧ ¬ C' root := by
    constructor <;> intro hc
    · cases h.wf.root_kind.symm.trans (cells _ hc)
    · cases h.wf'.root_kind.symm.trans (cells' _ hc)
  exact {
    wf, wf', unique := h.unique, text
    kind hx := by rw [frame.kind _ (lt hx).1, frame'.kind _ (lt hx).2]; exact h.kind hx
    children hx hb := by
      have out := outer hx (below_ne hb).2.2.2.1
      rw [frame.children _ (lt hx).1 out.1, frame'.children _ (lt hx).2 out.2]
      exact h.children hx hb
    parent {k k' x x'} hx hb := by
      have parents := h.parent hx hb
      rcases optionRel_cases parents with ⟨h₁, h₂⟩ | ⟨p, p', h₁, h₂, hp⟩
      · rwa [frame.parent x (lt hx).1 (by simp [h₁]), frame'.parent x' (lt hx).2 (by simp [h₂])]
      · have out := outer hp (below_ne hb).2.2.2.1
        rwa [frame.parent x (lt hx).1 (by simpa [h₁] using out.1),
          frame'.parent x' (lt hx).2 (by simpa [h₂] using out.2)]
    top {t t'} ht := by
      have top := h.top ht
      rwa [frame.parent t (lt ht).1 (by simpa [top.1] using root.1),
        frame'.parent t' (lt ht).2 (by simpa [top.2] using root.2)]
    table hx := by rw [frame.table _ (lt hx).1 id, frame'.table _ (lt hx).2 id, h.table hx]
    layout hx := by rw [frame.cell _ (lt hx).1 id, frame'.cell _ (lt hx).2 id, h.layout hx]
    spans hx := by rw [frame.cell _ (lt hx).1 id]; exact h.spans hx }

theorem of_new (h : Twin R X d d') (wf : e.WellFormed) (wf' : e'.WellFormed)
    (frame : Frame (fun _ => False) (fun _ => False) d e)
    (frame' : Frame (fun _ => False) (fun _ => False) d' e') : Twin R X e e' := by
  refine h.of_frame wf wf' frame frame' (fun _ => False.elim) (fun _ => False.elim) fun hc hX => ?_
  exact (h.text hc hX).of_sameInside (.of_frame (Y := fun _ => False) frame fun _ => False.elim)
    (.of_frame (Y := fun _ => False) frame' fun _ => False.elim) h.wf h.wf' (h.kind hc) not_false
    not_false

end Twin

/-- The relation with one more pair, of kind `k`. -/
def withPair (R : Kind → NodeId → NodeId → Prop) (k : Kind) (n n' : NodeId) :
    Kind → NodeId → NodeId → Prop :=
  fun k' x x' => R k' x x' ∨ k' = k ∧ x = n ∧ x' = n'

theorem le_withPair : R ≤ withPair R k n n' := fun _ _ _ => .inl

theorem withPair_of (h : R k' x x') : withPair R k n n' k' x x' := .inl h

theorem withPair_self : withPair R k n n' k n n' := .inr ⟨rfl, rfl, rfl⟩

namespace Twin

/-- A detached pair without children may be added to the relation. -/
theorem add (h : Twin R X d d') (fresh : ∀ k x', ¬ R k n x') (fresh' : ∀ k x, ¬ R k x n')
    (kind : d.kind? n = some k ∧ d'.kind? n' = some k) (hk : k ≠ .table)
    (free : d.parent? n = none ∧ d'.parent? n' = none)
    (empty : k ≠ .cell → d.children n = [] ∧ d'.children n' = [])
    (layout : k = .cell → (d'.cell? n').map (·.layout) = (d.cell? n).map (·.layout))
    (spans : k = .cell → ∀ props, d.cell? n = some props → 1 ≤ props.columnSpan ∧ 1 ≤ props.rowSpan)
    (text : k = .cell → SameText d d' n n') : Twin (withPair R k n n') X d d' where
  wf := h.wf
  wf' := h.wf'
  unique j := by
    constructor
    · rintro x x' y (hx | ⟨-, hx, hx'⟩) (hy | ⟨-, hy, hy'⟩)
      · exact (h.unique j).1 hx hy
      · exact absurd (hy' ▸ hx) (fresh' _ _)
      · exact absurd (hx' ▸ hy) (fresh' _ _)
      · exact hx.trans hy.symm
    · rintro x x' y (hx | ⟨-, hx, hx'⟩) (hy | ⟨-, hy, hy'⟩)
      · exact (h.unique j).2 hx hy
      · exact absurd (hy ▸ hx) (fresh _ _)
      · exact absurd (hx ▸ hy) (fresh _ _)
      · exact hx'.trans hy'.symm
  kind := by
    rintro j x x' (hx | ⟨rfl, rfl, rfl⟩)
    · exact h.kind hx
    · exact kind
  children := by
    rintro j j' x x' (hx | ⟨rfl, rfl, rfl⟩) hb
    · exact (h.children hx hb).imp fun _ _ => .inl
    · rw [(empty fun hc => by simp [hc, Kind.below] at hb).1,
        (empty fun hc => by simp [hc, Kind.below] at hb).2]
      exact .nil
  parent := by
    rintro j j' x x' (hx | ⟨rfl, rfl, rfl⟩) hb
    · exact optionRel_imp (h.parent hx hb) fun _ _ => .inl
    · rw [free.1, free.2]
      exact .none
  top := by
    rintro x x' (hx | ⟨rfl, -, -⟩)
    · exact h.top hx
    · exact absurd rfl hk
  table := by
    rintro x x' (hx | ⟨rfl, -, -⟩)
    · exact h.table hx
    · exact absurd rfl hk
  layout := by
    rintro x x' (hx | ⟨rfl, rfl, rfl⟩)
    · exact h.layout hx
    · exact layout rfl
  spans := by
    rintro x x' (hx | ⟨rfl, rfl, rfl⟩)
    · exact h.spans hx
    · exact spans rfl
  text := by
    rintro x x' (hx | ⟨rfl, rfl, rfl⟩) hX
    · exact h.text hx hX
    · exact text rfl

theorem not_related_of_fresh (h : Twin R X d d') (fresh : d.size ≤ n) (k : Kind) (x' : NodeId) :
    ¬ R k n x' := fun hn => (lt_size_of_kind? (h.kind hn).1).not_ge fresh

theorem not_related_of_fresh' (h : Twin R X d d') (fresh : d'.size ≤ n') (k : Kind) (x : NodeId) :
    ¬ R k x n' := fun hn => (lt_size_of_kind? (h.kind hn).2).not_ge fresh

theorem newRow (h : Twin R X d d') :
    Twin (withPair R .row d.size d'.size) X (d.push .row) (d'.push .row) := by
  have new := NewNode.push h.wf (.row : Payload L)
  have new' := NewNode.push h.wf' (.row : Payload L)
  refine (h.of_new new.wf new'.wf new.frame new'.frame).add (h.not_related_of_fresh le_rfl)
    (h.not_related_of_fresh' le_rfl) ⟨new.kind, new'.kind⟩ (by simp) ⟨new.free, new'.free⟩
    (fun _ => ?_) (by simp) (by simp) (by simp)
  simp [children_push, children_size]

theorem newCell (h : Twin R X d d') {props props' : CellProps L} (new : NewCell d e n props)
    (new' : NewCell d' e' n' props') (layout : props'.layout = props.layout)
    (spans : 1 ≤ props.columnSpan ∧ 1 ≤ props.rowSpan) :
    Twin (withPair R .cell n n') X e e' := by
  refine (h.of_new new.wf new'.wf new.frame new'.frame).add (h.not_related_of_fresh new.fresh)
    (h.not_related_of_fresh' new'.fresh) ⟨kind?_of_cell? new.cell, kind?_of_cell? new'.cell⟩ (by simp)
    ⟨new.free, new'.free⟩ (by simp) (fun _ => ?_) (fun _ p hp => ?_) fun _ => ?_
  · rw [new.cell, new'.cell, Option.map_some, Option.map_some, layout]
  · cases new.cell.symm.trans hp
    exact spans
  · refine ⟨.of_blank new.blank, .of_blank new'.blank, ?_⟩
    rw [Tidy.cellText_of_blank new.blank, Tidy.cellText_of_blank new'.blank]

end Twin

/-! ## Attaching and detaching -/

/-- Attaching below a node of a table's frame does not reach into cells. -/
theorem SameInside.attach (hp : d.kind? p = some k) (hb : k.below = some k') (i : Nat) (c : NodeId) :
    SameInside (fun _ => False) d (d.attach p i c) where
  kind hk := by rwa [kind?_attach]
  text hs := by rwa [text?_attach]
  children {x} hx := by
    rw [children_attach (lt_size_of_kind? hp), if_neg]
    rintro rfl
    rw [hp] at hx
    simp_all [below_ne hb]

/-- Nor does detaching a row group, a row or a cell. -/
theorem SameInside.detach (wf : d.WellFormed) (hc : d.kind? c = some k') (hb : k.below = some k') :
    SameInside (fun _ => False) d (d.detach c) where
  kind hk := by rwa [kind?_detach]
  text hs := by rwa [text?_detach]
  children {x} hx := by
    rw [wf.children_detach, filter_eq_self]
    intro y hy
    obtain ⟨kx, ky, hkx, hky, accepts⟩ := wf.accepts (wf.mem_children.1 hy)
    refine bne_iff_ne.2 fun e => ?_
    cases hc.symm.trans (e ▸ hky)
    cases eq_of_accepts hb accepts
    rw [hkx] at hx
    simp_all [below_ne hb]

namespace Twin

theorem attach (h : Twin R X d d') (hp : R k p p') (hc : R k' c c') (hb : k.below = some k')
    (ha : d.Attachable p c) (ha' : d'.Attachable p' c') (i : Nat) :
    Twin R X (d.attach p i c) (d'.attach p' i c') where
  wf := h.wf.attach ha i
  wf' := h.wf'.attach ha' i
  unique := h.unique
  kind hx := by rw [kind?_attach, kind?_attach]; exact h.kind hx
  children {j j' x x'} hx hj := by
    rw [children_attach (lt_size_of_kind? (h.kind hp).1), children_attach (lt_size_of_kind? (h.kind hp).2)]
    by_cases e : x = p
    · cases e
      cases h.kind_unique hp hx
      cases (h.unique k).2 hp hx
      cases Option.some.inj (hb.symm.trans hj)
      rw [if_pos rfl, if_pos rfl, (h.children hp hb).length_eq]
      exact insertIdx_related (h.children hp hb) hc _
    · rw [if_neg e, if_neg ((h.eq_iff hx hp).not.1 e)]
      exact h.children hx hj
  parent {j j' x x'} hx hj := by
    rw [parent?_attach (lt_size_of_kind? (h.kind hc).1),
      parent?_attach (lt_size_of_kind? (h.kind hc).2)]
    by_cases e : x = c
    · cases e
      cases h.kind_unique hc hx
      cases (h.unique k').2 hc hx
      cases below_injective hb hj
      rw [if_pos rfl, if_pos rfl]
      exact .some hp
    · rw [if_neg e, if_neg ((h.eq_iff hx hc).not.1 e)]
      exact h.parent hx hj
  top {t t'} ht := by
    have ne : t ≠ c := fun e => (below_ne hb).1 (h.kind_unique hc (e ▸ ht))
    rw [parent?_attach (lt_size_of_kind? (h.kind hc).1),
      parent?_attach (lt_size_of_kind? (h.kind hc).2), if_neg ne, if_neg ((h.eq_iff ht hc).not.1 ne)]
    exact h.top ht
  table hx := by rw [table?_attach, table?_attach, h.table hx]
  layout hx := by rw [cell?_attach, cell?_attach, h.layout hx]
  spans hx := by rw [cell?_attach]; exact h.spans hx
  text hx hX := (h.text hx hX).of_sameInside (.attach (h.kind hp).1 hb i c)
    (.attach (h.kind hp).2 hb i c') h.wf h.wf' (h.kind hx) not_false not_false

theorem detach (h : Twin R X d d') (hc : R k' c c') (hb : k.below = some k') :
    Twin R X (d.detach c) (d'.detach c') where
  wf := h.wf.detach c
  wf' := h.wf'.detach c'
  unique := h.unique
  kind hx := by rw [kind?_detach, kind?_detach]; exact h.kind hx
  children hx hj := by
    rw [h.wf.children_detach, h.wf'.children_detach]
    refine rel_filter (fun y y' hy => Bool.eq_iff_iff.1 ?_) (h.children hx hj)
    rw [Bool.eq_iff_iff, bne_iff_ne, bne_iff_ne, ne_eq, ne_eq, h.eq_iff hy hc]
  parent hx hj := by
    rw [parent?_detach, parent?_detach]
    simp only [h.eq_iff hx hc]
    split
    · exact .none
    · exact h.parent hx hj
  top {t t'} ht := by
    have ne : t ≠ c := fun e => (below_ne hb).1 (h.kind_unique hc (e ▸ ht))
    rw [parent?_detach, parent?_detach, if_neg ne, if_neg ((h.eq_iff ht hc).not.1 ne)]
    exact h.top ht
  table hx := by rw [table?_detach, table?_detach, h.table hx]
  layout hx := by rw [cell?_detach, cell?_detach, h.layout hx]
  spans hx := by rw [cell?_detach]; exact h.spans hx
  text hx hX := (h.text hx hX).of_sameInside (.detach h.wf (h.kind hc).1 hb)
    (.detach h.wf' (h.kind hc).2 hb) h.wf h.wf' (h.kind hx) not_false not_false

end Twin

end Document

end RichTable
