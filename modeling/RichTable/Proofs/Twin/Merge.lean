import Mathlib
import RichTable.Proofs.Edit.Absorb
import RichTable.Proofs.Grid.Rect
import RichTable.Proofs.Tree.Caret
import RichTable.Proofs.Twin.Rows

/-!
# Cells of twins

Merging and splitting cells of the same table in two documents. The texts of merged cells are joined,
and the result does not depend on how each of them was cut into paragraphs: `mergedText` is a function
of the texts alone.
-/

namespace RichTable

open List

namespace Document

variable {L : Type} {R : Kind → NodeId → NodeId → Prop} {X C P : NodeId → Prop}
  {d d' e e' : Document L} {c c' s s' : NodeId} {cells cells' : List NodeId}

/-! ## Texts -/

/-- The text of a cell that takes over the content of others. -/
def mergedText (own : List Char) (others : List (List Char)) : List Char :=
  joinLines ((own :: others).filter (· ≠ []))

/-- The cells with content among a cell and others that it takes over. -/
def givers (d : Document L) (s : NodeId) (cells : List NodeId) : List NodeId :=
  (if d.hasContent s then [s] else []) ++ d.donors s cells

section

variable (wf : d.WellFormed) (kind : ∀ c, c = s ∨ c ∈ cells → d.kind? c = some .cell)
  (tidy : ∀ c, c = s ∨ c ∈ cells → d.Tidy c)

include wf kind tidy

theorem full_of_mem_givers (hc : c ∈ d.givers s cells) :
    d.Tidy c ∧ ∀ b ∈ d.children c, d.kind? b = some .block ∧ d.lineText b ≠ [] := by
  have given : (c = s ∨ c ∈ cells) ∧ d.hasContent c = true := by
    rcases mem_append.1 hc with hc | hc
    · split at hc
      · next content =>
        obtain rfl := mem_singleton.1 hc
        exact ⟨.inl rfl, content⟩
      · cases hc
    · have := (mem_filter.1 hc).2
      exact ⟨.inr (mem_filter.1 hc).1, by simp_all⟩
  have tidy := tidy c given.1
  exact ⟨tidy, fun b hb =>
    ⟨tidy.blocks b hb, tidy.full_of_hasContent wf (kind c given.1) given.2 b hb⟩⟩

theorem filter_texts : (d.cellText s :: (cells.filter (· != s)).map d.cellText).filter (· ≠ []) =
    (d.givers s cells).map d.cellText := by
  have content : ∀ c, c = s ∨ c ∈ cells → decide (d.cellText c ≠ []) = d.hasContent c := fun c hc => by
    rw [Bool.eq_iff_iff, (tidy c hc).hasContent_iff wf (kind c hc), decide_eq_true_iff]
  rw [filter_cons, content s (.inl rfl), givers, map_append, filter_map, filter_filter]
  have donors : cells.filter (fun c => ((fun x => decide (x ≠ [])) ∘ d.cellText) c && c != s) =
      d.donors s cells := by
    refine filter_congr fun c hc => ?_
    rw [Function.comp, content c (.inr hc), Bool.and_comm]
  rw [donors]
  split <;> rfl

theorem absorbed_eq (some : d.donors s cells ≠ []) :
    d.absorbed s cells = (d.givers s cells).flatMap d.children := by
  rw [absorbed, if_neg some, givers, flatMap_append]
  congr 1
  · split <;> simp
  · refine flatMap_congr fun c hc => ?_
    refine filter_eq_self.2 fun b hb => ?_
    have full := (full_of_mem_givers wf kind tidy (mem_append_right _ hc)).2 b hb
    exact (wf.hasContent_block_iff full.1).2 full.2

end

/-- After taking over the content of other cells, a tidy cell is tidy, and its text is made of their
texts. -/
theorem Absorbed.tidy (h : Absorbed d e s cells) (wf : d.WellFormed)
    (kind : ∀ c, c = s ∨ c ∈ cells → d.kind? c = some .cell)
    (tidy : ∀ c, c = s ∨ c ∈ cells → d.Tidy c) :
    e.Tidy s ∧ e.cellText s =
      mergedText (d.cellText s) ((cells.filter (· != s)).map d.cellText) := by
  have inside : SameInside (fun x => x = s ∨ x ∈ cells) d e :=
    .of_frame h.frame fun x hx => ⟨fun _ => hx, by simp [kind x hx]⟩
  rw [mergedText, filter_texts wf kind tidy]
  have own := tidy s (.inl rfl)
  by_cases none : d.donors s cells = []
  · -- there is nothing to take over
    have children : e.children s = d.children s := by rw [h.children, absorbed, if_pos none]
    have lines : (d.children s).map e.lineText = (d.children s).map d.lineText :=
      map_congr_left fun b hb => inside.lineText wf (own.blocks b hb)
    refine ⟨⟨?_, by rw [children]; exact own.some, ?_⟩, ?_⟩
    · rw [children]
      exact fun b hb => inside.kind (own.blocks b hb)
    · rw [children, lines]
      refine own.lines.imp_right fun full b hb => ?_
      rw [inside.lineText wf (own.blocks b hb)]
      exact full b hb
    · rw [cellText, children, lines, givers, none, append_nil]
      split
      · rfl
      · next empty =>
        rw [own.hasContent_iff wf (kind s (.inl rfl)), not_not] at empty
        exact empty
  · have children := h.children.trans (absorbed_eq wf kind tidy none)
    have full {c} := full_of_mem_givers (c := c) wf kind tidy
    have blocks : ∀ b ∈ e.children s, d.kind? b = some .block ∧ e.lineText b = d.lineText b ∧
        d.lineText b ≠ [] := fun b hb => by
      rw [children] at hb
      obtain ⟨c, hc, hb⟩ := mem_flatMap.1 hb
      obtain ⟨block, line⟩ := (full hc).2 b hb
      exact ⟨block, inside.lineText wf block, line⟩
    refine ⟨⟨fun b hb => inside.kind (blocks b hb).1, ?_, .inr fun b hb => ?_⟩, ?_⟩
    · obtain ⟨c, hc⟩ := exists_mem_of_ne_nil _ none
      have hc : c ∈ d.givers s cells := mem_append_right _ hc
      obtain ⟨b, hb⟩ := exists_mem_of_ne_nil _ (full hc).1.some
      rw [children]
      exact ne_nil_of_mem (mem_flatMap.2 ⟨c, hc, hb⟩)
    · rw [(blocks b hb).2.1]
      exact (blocks b hb).2.2
    · rw [cellText, map_congr_left fun b hb => (blocks b hb).2.1, children, map_flatMap,
        flatMap_def, joinLines_flatten, map_map]
      · rfl
      · intro lines hlines
        obtain ⟨c, hc, rfl⟩ := mem_map.1 hlines
        exact ⟨by simpa using (full hc).1.some, by simpa using fun b hb => ((full hc).2 b hb).2⟩

namespace Twin

/-- A merge of texts on both sides. The other merged cells hold nothing that is worth comparing any
more. -/
theorem absorbed (h : Twin R (fun _ => False) d d') (hs : R .cell s s')
    (hcells : Forall₂ (R .cell) cells cells') (left : Absorbed d e s cells)
    (right : Absorbed d' e' s' cells') : Twin R (fun c => c ∈ cells ∧ c ≠ s) e e' := by
  have kind : ∀ c, c = s ∨ c ∈ cells → d.kind? c = some .cell := by
    rintro c (rfl | hc)
    · exact (h.kind hs).1
    · obtain ⟨c', -, hc'⟩ := exists_related_of_mem hcells hc
      exact (h.kind hc').1
  have kind' : ∀ c', c' = s' ∨ c' ∈ cells' → d'.kind? c' = some .cell := by
    rintro c' (rfl | hc)
    · exact (h.kind hs).2
    · obtain ⟨c, -, hc'⟩ := exists_related_of_mem hcells.flip hc
      exact (h.kind hc').2
  refine h.of_frame left.wf right.wf left.frame right.frame kind kind' fun {c c'} hc hX => ?_
  by_cases eq : c = s
  · subst eq
    cases (h.unique _).2 hs hc
    have tidy : ∀ b, b = c ∨ b ∈ cells → d.Tidy b := by
      rintro b (rfl | hb)
      · exact (h.text hs not_false).left
      · obtain ⟨b', -, hb'⟩ := exists_related_of_mem hcells hb
        exact (h.text hb' not_false).left
    have tidy' : ∀ b, b = s' ∨ b ∈ cells' → d'.Tidy b := by
      rintro b (rfl | hb)
      · exact (h.text hs not_false).right
      · obtain ⟨b', -, hb'⟩ := exists_related_of_mem hcells.flip hb
        exact (h.text hb' not_false).right
    obtain ⟨own, text⟩ := left.tidy h.wf kind tidy
    obtain ⟨own', text'⟩ := right.tidy h.wf' kind' tidy'
    refine ⟨own, own', ?_⟩
    have others : Forall₂ (R .cell) (cells.filter (· != c)) (cells'.filter (· != s')) :=
      rel_filter (fun b b' hb => Bool.eq_iff_iff.1 (by rw [bne, bne, h.beq_eq hb hs])) hcells
    rw [text, text', (h.text hs not_false).text,
      map_eq_of_related others fun b b' hb => (h.text hb not_false).text.symm]
  · have out : ¬ (c = s ∨ c ∈ cells) := fun hc => hc.elim eq fun hc => hX ⟨hc, eq⟩
    have out' : ¬ (c' = s' ∨ c' ∈ cells') := by
      rwa [← h.eq_iff hc hs, ← show c ∈ cells ↔ c' ∈ cells' from rel_mem (h.unique _) hc hcells]
    exact (h.text hc not_false).of_sameInside
      (.of_frame left.frame fun x hx => ⟨fun _ => hx, by simp [kind x hx]⟩)
      (.of_frame right.frame fun x hx => ⟨fun _ => hx, by simp [kind' x hx]⟩) h.wf h.wf' (h.kind hc)
      out out'

/-- Cells that have been taken out of their rows need not be compared any more. -/
theorem clean (h : Twin R X d d') (gone : ∀ c, X c → d.parent? c = none) :
    Twin (fun k x x' => R k x x' ∧ (k = .cell → ¬ X x)) (fun _ => False) d d' where
  wf := h.wf
  wf' := h.wf'
  unique k := ⟨fun _ _ _ hx hy => (h.unique k).1 hx.1 hy.1, fun _ _ _ hx hy => (h.unique k).2 hx.1 hy.1⟩
  kind hx := h.kind hx.1
  children {k k' x x'} hx hb := by
    refine ((forall₂_and_left _ _).2 ⟨fun c hc => hc, h.children hx.1 hb⟩).imp fun c c' hc => ?_
    refine ⟨hc.2, fun _ hX => ?_⟩
    have := h.wf.mem_children.1 hc.1
    rw [gone c hX] at this
    cases this
  parent {k k' x x'} hx hb := optionRel_imp (h.parent hx.1 hb) fun p p' hp =>
    ⟨hp, fun hk => absurd hk (below_ne hb).2.2.2.1⟩
  top ht := h.top ht.1
  table ht := h.table ht.1
  layout hc := h.layout hc.1
  spans hc := h.spans hc.1
  text hc _ := h.text hc.1 (hc.2 rfl)

end Twin

/-- While the rest of a rectangle is cleared away, the surviving cell stays in its place, with its
data. -/
structure Held (R : Kind → NodeId → NodeId → Prop) (X : NodeId → Prop) (t g top s : NodeId)
    (props : Option (CellProps L)) (d d' : Document L) : Prop where
  twin : Twin R X d d'
  cell : d.parent? s = some top
  row : d.parent? top = some g
  group : d.parent? g = some t
  props : d.cell? s = props

theorem Twin.held_of_absorbed {t t' g g' top top' : NodeId} (h : Twin R (fun _ => False) d d')
    (hs : R .cell s s') (htop : R .row top top') (hg : R .rowGroup g g') (ht : R .table t t')
    (hcells : Forall₂ (R .cell) cells cells') (left : Absorbed d e s cells)
    (right : Absorbed d' e' s' cells') (cell : d.parent? s = some top) (row : d.parent? top = some g)
    (group : d.parent? g = some t) :
    Held R (fun c => c ∈ cells ∧ c ≠ s) t g top s (d.cell? s) e e' := by
  have same {k k' : Kind} {x x' p p' : NodeId} (hx : R k' x x') (hp : R k p p') (hk : k ≠ .cell)
      (parent : d.parent? x = some p) : e.parent? x = some p := by
    rw [left.frame.parent x (lt_size_of_kind? (h.kind hx).1), parent]
    rintro q hq (rfl | hc)
    · cases parent.symm.trans hq
      exact hk (h.kind_unique hp hs)
    · cases parent.symm.trans hq
      obtain ⟨c', -, hc⟩ := exists_related_of_mem hcells hc
      exact hk (h.kind_unique hp hc)
  exact ⟨h.absorbed hs hcells left right, same hs htop nofun cell, same htop hg nofun row,
    same hg ht nofun group, left.frame.cell s (lt_size_of_kind? (h.kind hs).1) not_false⟩

namespace Held

variable {t g top : NodeId} {props : Option (CellProps L)} {k k' : Kind}

theorem detach (h : Held R X t g top s props d d') (hc : R k' c c') (hb : k.below = some k')
    (hs : s ≠ c) (hr : top ≠ c) (hg : g ≠ c) :
    Held R X t g top s props (d.detach c) (d'.detach c') where
  twin := h.twin.detach hc hb
  cell := by rw [parent?_detach, if_neg hs, h.cell]
  row := by rw [parent?_detach, if_neg hr, h.row]
  group := by rw [parent?_detach, if_neg hg, h.group]
  props := by rw [cell?_detach, h.props]

theorem modifyCell {f : CellProps L → CellProps L} (h : Held R X t g top s props d d')
    (twin : Twin R X (d.modifyCell s f) e') :
    Held R X t g top s (props.map f) (d.modifyCell s f) e' where
  twin := twin
  cell := by rw [parent?_modifyCell, h.cell]
  row := by rw [parent?_modifyCell, h.row]
  group := by rw [parent?_modifyCell, h.group]
  props := by simp [cell?_modifyCell, h.props]

end Held

theorem nodup_of_mergeCandidates? {t : NodeId} {rect : CellRect} {rows : List NodeId}
    (h : d.mergeCandidates? t rect rows = some cells) : cells.Nodup := by
  unfold mergeCandidates? at h
  split at h
  · repeat' split at h
    · cases h
    · cases h
    · cases h
    · obtain ⟨all, -, rfl⟩ := Option.map_eq_some_iff.1 h
      exact nodup_eraseDups all
  · cases h

/-- The rows of a rectangle below its top row. -/
theorem WellFormed.ne_of_mem_lowerRows (wf : d.WellFormed) {g top row : NodeId} {rect : CellRect}
    (htop : (d.children g)[rect.top]? = some top)
    (hr : row ∈ (rect.rowsOf (d.children g)).drop 1) : row ≠ top := by
  rintro rfl
  obtain ⟨i, hi⟩ := mem_iff_getElem?.1 hr
  rw [CellRect.rowsOf, getElem?_drop, getElem?_drop, getElem?_take] at hi
  split at hi
  · have := wf.index_unique hi htop
    omega
  · cases hi

theorem Twin.exists_parent (h : Twin R X d d') {k k' : Kind} {x x' p : NodeId} (hx : R k' x x')
    (hb : k.below = some k') (hp : d.parent? x = some p) :
    ∃ p', d'.parent? x' = some p' ∧ R k p p' := by
  rcases optionRel_cases (h.parent hx hb) with ⟨none, -⟩ | ⟨q, q', h₁, h₂, hq⟩
  · cases none.symm.trans hp
  · cases h₁.symm.trans hp
    exact ⟨q', h₂, hq⟩

/-- A cell that stands in the table below the root has a caret, and so has its twin. -/
theorem Twin.firstCaret?_isSome (h : Twin R X d d') {t t' g top : NodeId} (ht : R .table t t')
    (hs : R .cell s s') (hX : ¬ X s) (cell : d.parent? s = some top) (row : d.parent? top = some g)
    (group : d.parent? g = some t) :
    (d.firstCaret? s).isSome = true ∧ (d'.firstCaret? s').isSome = true := by
  obtain ⟨top', cell', htop⟩ := h.exists_parent (k := .row) hs rfl cell
  obtain ⟨g', row', hg⟩ := h.exists_parent (k := .rowGroup) htop rfl row
  obtain ⟨u, group', hu⟩ := h.exists_parent (k := .table) hg rfl group
  have text := h.text hs hX
  have left : root ∈ d.ancestors s := by
    simp [h.wf.mem_ancestors_of_parent cell, h.wf.mem_ancestors_of_parent row,
      h.wf.mem_ancestors_of_parent group, h.wf.mem_ancestors_of_parent (h.top ht).1,
      h.wf.self_mem_ancestors h.wf.root_lt_size]
  have right : root ∈ d'.ancestors s' := by
    simp [h.wf'.mem_ancestors_of_parent cell', h.wf'.mem_ancestors_of_parent row',
      h.wf'.mem_ancestors_of_parent group', h.wf'.mem_ancestors_of_parent (h.top hu).2,
      h.wf'.self_mem_ancestors h.wf'.root_lt_size]
  obtain ⟨o, caret, -⟩ :=
    h.wf.exists_firstCaret? (h.kind hs).1 text.left.some text.left.blocks left
  obtain ⟨o', caret', -⟩ :=
    h.wf'.exists_firstCaret? (h.kind hs).2 text.right.some text.right.blocks right
  simp [caret, caret']

end Document

namespace Action

open Document

variable {L : Type} {R : Kind → NodeId → NodeId → Prop} {X : NodeId → Prop}
  {d d' : Document L} {E : Document L → Document L → Prop}
  {t t' g g' top top' row row' s s' c c' : NodeId} {merged merged' : List NodeId}
  {props : Option (CellProps L)}

theorem lock_detachCells (h : Held R X t g top s props d d') (hr : R .row top top')
    (hg : R .rowGroup g g') {cells cells' : List NodeId}
    (hs : Forall₂ (fun c c' => s ≠ c ∧ R .cell c c') cells cells') :
    Lock (cells.forM Action.detach) (cells'.forM Action.detach) d d'
      (fun _ _ e e' => Held R X t g top s props e e') E := by
  refine Lock.forM (I := Held R X t g top s props) ?_ hs h
  rintro c c' ⟨ne, hc⟩ e e' h
  refine lock_modify (h.detach (k := .row) hc rfl ne ?_ ?_)
  · rintro rfl
    cases h.twin.kind_unique hr hc
  · rintro rfl
    cases h.twin.kind_unique hg hc

theorem lock_clearRow (h : Held R X t g top s props d d') (hs : R .cell s s') (htop : R .row top top')
    (hg : R .rowGroup g g') (hm : Forall₂ (R .cell) merged merged') (hr : R .row row row')
    (ne : row ≠ top) :
    Lock (clearRow s merged row) (clearRow s' merged' row') d d'
      (fun cleared cleared' e e' => cleared = cleared' ∧ Held R X t g top s props e e') E := by
  have stored := h.twin.children hr rfl
  have member : ∀ c c', R .cell c c' → merged.contains c = merged'.contains c' := fun c c' hc =>
    contains_eq_of_related (h.twin.unique _) hm hc
  have inner : Forall₂ (R .cell) ((d.children row).filter merged.contains)
      ((d'.children row').filter merged'.contains) :=
    rel_filter (fun c c' hc => Bool.eq_iff_iff.1 (member c c' hc)) stored
  unfold clearRow
  refine lock_get_bind ?_
  simp only [inner.length_eq, stored.length_eq]
  by_cases all : (filter merged'.contains (d'.children row')).length = (d'.children row').length
  · simp only [if_pos all]
    have shorter : Forall₂ (R .cell)
        ((d.spannedCells row).filter fun c => !(merged.contains c || c == s))
        ((d'.spannedCells row').filter fun c => !(merged'.contains c || c == s')) :=
      rel_filter (fun c c' hc => Bool.eq_iff_iff.1 (by rw [member c c' hc, h.twin.beq_eq hc hs]))
        (h.twin.spannedCells hr)
    refine lock_bind ((Lock.forM (I := Held R X t g top s props) ?_
      ((forall₂_and_left _ _).2 ⟨fun c hc => (mem_filter.1 hc).2, shorter⟩) h).mono
      fun _ _ e e' h => lock_bind (lock_modify ?_))
    · rintro c c' ⟨keep, hc⟩ e e' h
      have ne : s ≠ c := by
        rintro rfl
        simp at keep
      refine (lock_updateCell h.twin hc (fun p q e => ?_) fun p hp => ?_).mono ?_
      · simp_all [CellProps.layout]
      · exact ⟨(h.twin.spans hc p hp).1, le_max_right _ _⟩
      · rintro _ _ _ _ ⟨twin, rfl⟩
        exact ⟨twin, by simpa using h.cell, by simpa using h.row, by simpa using h.group, by
          rw [cell?_modifyCell]
          simp [ne, h.props]⟩
    · refine lock_pure (E := E) ⟨rfl, h.detach (k := .rowGroup) hr rfl ?_ ne.symm ?_⟩
      · rintro rfl
        cases h.twin.kind_unique hs hr
      · rintro rfl
        cases h.twin.kind_unique hg hr
  · simp only [if_neg all]
    refine lock_bind ((lock_detachCells h htop hg ?_).mono fun _ _ e e' h => ?_)
    · refine (forall₂_and_left _ _).2 ⟨fun c hc e => ?_, inner⟩
      have := h.twin.wf.mem_children.1 (mem_filter.1 hc).1
      rw [← e, h.cell] at this
      exact ne (Option.some.inj this).symm
    · exact lock_pure (E := E) ⟨rfl, h⟩

theorem ensures_absorbContent_of_twin (h : Twin R X d d') (hX : ∀ c, ¬ X c) (hs : R .cell s s')
    (hm : Forall₂ (R .cell) merged merged') (nodup : merged.Nodup) :
    Ensures (absorbContent s merged) d fun _ e => Absorbed d e s merged := by
  have related : ∀ c, c = s ∨ c ∈ merged → ∃ c', R .cell c c' := by
    rintro c (rfl | hc)
    · exact ⟨s', hs⟩
    · obtain ⟨c', -, hc'⟩ := exists_related_of_mem hm hc
      exact ⟨c', hc'⟩
  have cell : ∀ c, c = s ∨ c ∈ merged → d.kind? c = some .cell := fun c hc => by
    obtain ⟨c', hc'⟩ := related c hc
    exact (h.kind hc').1
  refine ensures_absorbContent h.wf (h.kind hs).1 nodup (fun c hc => cell c (.inr hc))
    (h.wf.separate_of_blocks cell fun c hc => ?_)
  obtain ⟨c', hc'⟩ := related c hc
  exact (h.text hc' (hX c)).left.blocks

variable [Length L]

/-- The end of an edit of cells: the grid is checked, and the caret goes into the cell. -/
theorem lock_finishCells (h : Twin R (fun _ => False) d d') (ht : R .table t t')
    (hg : R .rowGroup g g') (hs : R .cell s s') (cell : d.parent? s = some top)
    (row : d.parent? top = some g) (group : d.parent? g = some t) :
    Lock (do
        let _ ← place t
        checkGrid t
        correctGroupBorders t g
        return ((← get).firstCaret? s).map .collapsed : Action L (Option Segment))
      (do
        let _ ← place t'
        checkGrid t'
        correctGroupBorders t' g'
        return ((← get).firstCaret? s').map .collapsed : Action L (Option Segment)) d d'
      (fun r r' e e' => r.isSome = true ∧ r'.isSome = true ∧ Paired t t' e e') (Paired t t') := by
  refine lock_place_checkGrid h ht fun e e' he he' h₁ _ paired => ?_
  have parents : ∀ x, e.parent? x = d.parent? x := he ▸ (h.wf.sameTree_placed t).parent
  rw [← parents] at cell row group
  refine lock_bind ((lock_correctGroupBorders h₁ ht hg (h₁.wf.mem_children.2 group)).mono ?_)
  rintro _ _ e₁ e₁' ⟨same, same'⟩
  rw [← same.same.parent] at cell row group
  have carets := (h₁.rebordered same same').firstCaret?_isSome ht hs not_false cell row group
  refine lock_get_bind (lock_pure (E := Paired t t') ⟨?_, ?_, same.paired same' paired⟩)
  · rw [Option.isSome_map, carets.1]
  · rw [Option.isSome_map, carets.2]

/-- The end of a merge. A merged cell that does not reach the last row gives up the deleted rows. -/
theorem lock_finishMerge (h : Held R (fun c => c ∈ merged ∧ c ≠ s) t g top s props d d')
    (gone : ∀ c, c ∈ merged ∧ c ≠ s → d.parent? c = none) (ht : R .table t t')
    (hg : R .rowGroup g g') (hs : R .cell s s') (below : Prop) [Decidable below] {lost : Nat}
    (tall : ∀ p, props = some p → lost < p.rowSpan) :
    Lock (do
        if below then
          updateCell s fun props => { props with rowSpan := props.rowSpan - lost }
        let _ ← place t
        checkGrid t
        correctGroupBorders t g
        return ((← get).firstCaret? s).map .collapsed : Action L (Option Segment))
      (do
        if below then
          updateCell s' fun props => { props with rowSpan := props.rowSpan - lost }
        let _ ← place t'
        checkGrid t'
        correctGroupBorders t' g'
        return ((← get).firstCaret? s').map .collapsed : Action L (Option Segment)) d d'
      (fun r r' e e' => r.isSome = true ∧ r'.isSome = true ∧ Paired t t' e e') (Paired t t') := by
  have finish {props} {e e' : Document L}
      (held : Held R (fun c => c ∈ merged ∧ c ≠ s) t g top s props e e')
      (gone : ∀ c, c ∈ merged ∧ c ≠ s → e.parent? c = none) :=
    lock_finishCells (held.twin.clean gone) ⟨ht, nofun⟩ ⟨hg, nofun⟩ ⟨hs, fun _ h => h.2 rfl⟩
      held.cell held.row held.group
  by_cases hb : below
  · simp only [if_pos hb]
    refine lock_bind ((lock_updateCell h.twin hs ?_ ?_).mono ?_)
    · exact fun p q e => by simp_all [CellProps.layout]
    · intro p hp
      have := tall p (h.props.symm.trans hp)
      exact ⟨(h.twin.spans hs p hp).1, by simp only; omega⟩
    · rintro _ _ _ e' ⟨twin, rfl⟩
      exact finish (h.modifyCell twin) (by simpa using gone)
  · simp only [if_neg hb]
    exact finish h gone

theorem lock_mergeRect (h : Twin R (fun _ => False) d d') (ht : R .table t t')
    (settled : d.Settled t) (settled' : d'.Settled t') (hg : R .rowGroup g g')
    (mem : g ∈ d.children t) (rect : CellRect) :
    Lock (mergeRect g rect) (mergeRect g' rect) d d'
      (fun r r' => Followed t t' d d' r.isSome r'.isSome) (Paired t t') := by
  have paired : Paired t t' d d' := ⟨⟨R, h, ht⟩, settled, settled'⟩
  have rows := h.children hg rfl
  unfold mergeRect
  refine lock_requireParent_bind h ht hg rfl mem (lock_place_bind h ht settled settled' ?_)
  refine lock_get_bind ?_
  dsimp only
  rcases optionRel_cases (h.mergeCandidates? ht rect rows) with
    ⟨h₁, h₂⟩ | ⟨merged, merged', h₁, h₂, hm⟩
  · simp only [h₁, h₂]
    exact lock_pure (E := Paired t t') ⟨rfl, fun _ => ⟨rfl, rfl⟩, .inl paired⟩
  simp only [h₁, h₂]
  rcases optionRel_cases (getElem?_related rows rect.top) with ⟨h₃, h₄⟩ | ⟨top, top', h₃, h₄, htop⟩
  · simp only [h₃, h₄]
    exact lock_throw (E := Paired t t') paired
  simp only [h₃, h₄, Option.map_some, Option.getD_some]
  have corner := find?_related (h.children htop rfl)
    (p := fun c => (d.columnRange? c).any (·.first == rect.left))
    (q := fun c => (d'.columnRange? c).any (·.first == rect.left))
    fun c c' hc => by rw [h.columnRange?_eq hc]
  rcases optionRel_cases corner with ⟨h₅, h₆⟩ | ⟨s, s', h₅, h₆, hs⟩
  · simp only [h₅, h₆]
    exact lock_throw (E := Paired t t') paired
  simp only [h₅, h₆]
  have cell : d.parent? s = some top := h.wf.mem_children.1 (mem_of_find?_eq_some h₅)
  have row : d.parent? top = some g := h.wf.mem_children.1 (mem_of_getElem? h₃)
  have group : d.parent? g = some t := h.wf.mem_children.1 mem
  -- the text moves
  have left := ensures_absorbContent_of_twin h (fun _ => not_false) hs hm
    (nodup_of_mergeCandidates? h₁)
  have right := ensures_absorbContent_of_twin h.symm (fun _ ⟨_, _, h⟩ => h) hs hm.flip
    (nodup_of_mergeCandidates? h₂)
  refine lock_bind (left.lock right fun _ _ d₁ d₁' left right => ?_)
  have held := h.held_of_absorbed hs htop hg ht hm left right cell row group
  -- the surviving cell grows
  refine lock_bind ((lock_updateCell held.twin hs ?_ ?_).mono ?_)
  · exact fun p q e => by simp_all [CellProps.layout]
  · exact fun p _ => ⟨Nat.le_add_left _ _, Nat.le_add_left _ _⟩
  rintro _ _ _ d₂' ⟨twin, rfl⟩
  have held := held.modifyCell twin
  -- the rows below give up their merged cells
  have lower : Forall₂ (fun r r' => r ≠ top ∧ R .row r r') ((rect.rowsOf (d.children g)).drop 1).reverse
      ((rect.rowsOf (d'.children g')).drop 1).reverse := by
    refine (forall₂_and_left _ _).2 ⟨fun r hr => ?_, rel_reverse ?_⟩
    · exact h.wf.ne_of_mem_lowerRows h₃ (mem_reverse.1 hr)
    · exact forall₂_drop 1 (forall₂_drop rect.top (forall₂_take (rect.bottom + 1) rows))
  refine lock_bind ((Lock.mapM (P := Eq) (I := Held R _ t g top s _)
    (fun r r' hr e e' held => lock_clearRow held hs htop hg hm hr.2 hr.1) lower held).mono ?_)
  rintro cleared cleared' d₃ d₃' ⟨eq, length, held⟩
  obtain rfl := forall₂_eq_eq_eq ▸ eq
  -- what is left of the merged cells goes
  have others : Forall₂ (R .cell) (merged.filter (· != s)) (merged'.filter (· != s')) :=
    rel_filter (fun c c' hc => Bool.eq_iff_iff.1 (by rw [bne, bne, held.twin.beq_eq hc hs])) hm
  have gone := (ensures_forM_detach held.twin.wf (merged.filter (· != s))).ends
    (E := fun _ _ => True)
  refine lock_bind (((lock_detachCells held htop hg ((forall₂_and_left _ _).2
    ⟨fun c hc e => ?_, others⟩)).and_left gone).mono ?_)
  · simp [e] at hc
  rintro _ _ d₄ d₄' ⟨held, gone⟩
  have gone : ∀ c, c ∈ merged ∧ c ≠ s → d₄.parent? c = none := fun c hc => by
    rw [gone.parent, if_pos (by simpa using hc)]
  rw [rows.length_eq]
  refine (lock_finishMerge held gone ht hg hs _ fun p hp => ?_).mono ?_
  · obtain ⟨q, -, rfl⟩ := Option.map_eq_some_iff.1 hp
    refine Nat.lt_succ_of_le (count_le_length.trans ?_)
    rw [length, length_reverse, length_drop, CellRect.rowsOf, length_drop, length_take]
    omega
  · rintro r r' e e' ⟨h, h', paired⟩
    exact ⟨h.trans h'.symm, by simp [h], .inl paired⟩

omit [Length L] in
/-- Columns are split off a cell that stays in its place. -/
theorem lock_carve (count : Nat) (h : Held R (fun _ => False) t g row c props d d')
    (hc : R .cell c c') (hr : R .row row row') (hg : R .rowGroup g g') :
    Lock (carve row c count) (carve row' c' count) d d' (fun _ _ e e' => ∃ R₁ props, R ≤ R₁ ∧
      Held R₁ (fun _ => False) t g row c props e e') E := by
  induction count generalizing R d d' props with
  | zero => exact lock_pure (E := E) ⟨R, props, le_rfl, h⟩
  | succ count ih =>
    unfold carve
    refine lock_bind ((lock_copyCell h.twin hc).mono ?_)
    rintro n n' e e' ⟨p, p', hp, hp', layout, new, new'⟩
    have spans := h.twin.spans hc p hp
    have h₁ := h.twin.newCell new new' (by simp_all [CellProps.layout]) spans
    have hc₁ : withPair R .cell n n' .cell c c' := withPair_of hc
    have hr₁ : withPair R .cell n n' .row row row' := withPair_of hr
    refine lock_bind ((lock_updateCell h₁ withPair_self (fun p q e => ?_) fun q hq => ?_).mono ?_)
    · simp_all [CellProps.layout]
    · cases new.cell.symm.trans hq
      exact ⟨le_rfl, spans.2⟩
    rintro _ _ e₁ e₁' ⟨h₂, he₁⟩
    have free : e₁.parent? n = none := by simpa [he₁] using new.free
    refine lock_get_bind ?_
    rw [h₂.childIndex?_eq (k := .row) hc₁ rfl]
    refine lock_bind ((lock_insertChild h₂ hr₁ withPair_self rfl free _).mono ?_)
    rintro _ _ e₂ e₂' ⟨h₃, he₂⟩
    refine lock_bind ((lock_updateCell h₃ hc₁ (fun p q e => ?_) fun q hq => ?_).mono ?_)
    · simp_all [CellProps.layout]
    · exact ⟨le_max_right _ _, (h₃.spans hc₁ q hq).2⟩
    rintro _ _ e₃ e₃' ⟨h₄, he₃⟩
    have same {k : Kind} {x x' : NodeId} (hx : R k x x') : e₃.parent? x = d.parent? x := by
      have old := lt_size_of_kind? (h.twin.kind hx).1
      rw [he₃, parent?_modifyCell, he₂, parent?_attach (lt_size_of_kind? (h₂.kind withPair_self).1),
        if_neg (old.trans_le new.fresh).ne, he₁, parent?_modifyCell, new.frame.parent x old fun _ _ => id]
    have held : Held _ _ t g row c (e₃.cell? c) e₃ e₃' :=
      ⟨h₄, (same hc).trans h.cell, (same hr).trans h.row, (same hg).trans h.group, rfl⟩
    refine (ih held hc₁ hr₁ (withPair_of hg)).mono ?_
    rintro _ _ e e' ⟨R₁, props, le, held⟩
    exact ⟨R₁, props, le_withPair.trans le, held⟩

theorem lock_splitCell (h : Twin R (fun _ => False) d d') (ht : R .table t t')
    (settled : d.Settled t) (settled' : d'.Settled t') (hc : R .cell c c') (mem : c ∈ d.tableCells t)
    {selection selection' : Segment}
    (sel : d.boundaryCells? selection.start selection.stop = some (c, c))
    (sel' : d'.boundaryCells? selection'.start selection'.stop = some (c', c'))
    (horizontal vertical : Nat) :
    Lock (splitCell selection horizontal vertical) (splitCell selection' horizontal vertical) d d'
      (fun r r' => Followed t t' d d' r.isSome r'.isSome) (Paired t t') := by
  have paired : Paired t t' d d' := ⟨⟨R, h, ht⟩, settled, settled'⟩
  have refused : Followed t t' d d' false false d d' := ⟨rfl, fun _ => ⟨rfl, rfl⟩, .inl paired⟩
  unfold splitCell
  refine lock_get_bind ?_
  simp only [sel, sel', ne_eq, not_true_eq_false, if_false]
  refine lock_requireCell_bind h hc fun p p' hp hp' layout => ?_
  have width : p'.columnSpan = p.columnSpan := congrArg Prod.fst layout
  have height : p'.rowSpan = p.rowSpan := congrArg (·.2.1) layout
  rw [width, height]
  split
  · exact lock_pure (E := Paired t t') refused
  split
  · exact lock_pure (E := Paired t t') refused
  obtain ⟨row, memr, cell⟩ := mem_flatMap.1 mem
  obtain ⟨g, memg, memr⟩ := mem_flatMap.1 memr
  obtain ⟨row', -, hr⟩ := h.exists_parent (k := .row) hc rfl (h.wf.mem_children.1 cell)
  obtain ⟨g', -, hg⟩ := h.exists_parent (k := .rowGroup) hr rfl (h.wf.mem_children.1 memr)
  refine lock_requireParent_bind h hr hc rfl cell (lock_requireParent_bind h hg hr rfl memr
    (lock_requireParent_bind h ht hg rfl memg ?_))
  have held : Held R (fun _ => False) t g row c (d.cell? c) d d' :=
    ⟨h, h.wf.mem_children.1 cell, h.wf.mem_children.1 memr, h.wf.mem_children.1 memg, rfl⟩
  refine lock_bind ((lock_carve _ held hc hr hg).mono ?_)
  rintro _ _ e e' ⟨R₁, props, le, held⟩
  exact (lock_finishCells held.twin (le _ _ _ ht) (le _ _ _ hg) (le _ _ _ hc) held.cell held.row
    held.group).mono fun r r' e e' ⟨h, h', paired⟩ => ⟨h.trans h'.symm, by simp [h], .inl paired⟩

end Action

end RichTable
