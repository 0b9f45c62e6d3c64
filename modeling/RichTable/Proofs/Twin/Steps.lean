import Mathlib
import RichTable.Proofs.Grid.Greedy
import RichTable.Proofs.Twin.Write

/-!
# Steps on twins

The actions that edits are made of, run on two documents that hold the same table. Both runs do the
same and leave twins behind. They can fail in one place only: where the grid is checked, and then the
fault is the same and the tables have been placed.
-/

namespace RichTable

open List

namespace Document

variable {L : Type} {R R₀ : Kind → NodeId → NodeId → Prop} {X : NodeId → Prop}
  {d d' e e' : Document L} {k k' : Kind} {x x' t t' g g' p p' row row' c c' : NodeId}

/-! ## Both ways round -/

theorem optionRel_flip {α β : Type} {S : α → β → Prop} {o : Option α} {o' : Option β}
    (h : Option.Rel S o o') : Option.Rel (fun y x => S x y) o' o := by
  cases h with
  | some h => exact .some h
  | none => exact .none

theorem Twin.symm (h : Twin R X d d') :
    Twin (fun k x' x => R k x x') (fun c' => ∃ c, R .cell c c' ∧ X c) d' d where
  wf := h.wf'
  wf' := h.wf
  unique k := ⟨fun _ _ _ hx hy => (h.unique k).2 hx hy, fun _ _ _ hx hy => (h.unique k).1 hx hy⟩
  kind hx := (h.kind hx).symm
  children hx hb := (h.children hx hb).flip
  parent hx hb := optionRel_flip (h.parent hx hb)
  top ht := (h.top ht).symm
  table ht := (h.table ht).symm
  layout hc := (h.layout hc).symm
  spans {c c'} hc props hp := by
    obtain ⟨p, p', h₁, h₂, layout⟩ := h.exists_cell hc
    simp only [CellProps.layout, Prod.mk.injEq] at layout
    cases h₂.symm.trans hp
    rw [layout.1, layout.2.1]
    exact h.spans hc p h₁
  text hc hX :=
    have text := h.text hc fun hx => hX ⟨_, hc, hx⟩
    ⟨text.right, text.left, text.text.symm⟩

/-- The height of a kind in the frame of a table. -/
def level : Kind → Nat
  | .table => 1
  | .rowGroup => 2
  | .row => 3
  | .cell => 4
  | _ => 0

theorem level_below (h : k.below = some k') : level k' = level k + 1 ∧ 0 < level k := by
  cases k <;> cases h <;> decide

theorem exists_above (h : 0 < level k) : k = .table ∨ ∃ j, Kind.below j = some k ∧ 0 < level j := by
  cases k with
  | table => exact .inl rfl
  | rowGroup => exact .inr ⟨.table, rfl, by decide⟩
  | row => exact .inr ⟨.rowGroup, rfl, by decide⟩
  | cell => exact .inr ⟨.row, rfl, by decide⟩
  | block | inline | other => exact absurd h (by decide)

theorem accepts_below (h : k.below = some k') : k.accepts k' = true := by
  cases k <;> cases h <;> rfl

namespace Twin

/-- Above a node of a table's frame stand nodes of higher levels only, and the root. -/
theorem level_of_mem_ancestors (h : Twin R X d d') (hx : R k x x') (hk : 0 < level k) {a : NodeId}
    (ha : a ∈ d.ancestors x) : ∃ j, d.kind? a = some j ∧ level j ≤ level k := by
  induction x using h.wf.induct_up generalizing k x' with
  | top x hp =>
    rw [h.wf.ancestors_of_no_parent (lt_size_of_kind? (h.kind hx).1) hp, mem_singleton] at ha
    exact ⟨k, ha ▸ (h.kind hx).1, le_rfl⟩
  | step x p hp ih =>
    rcases (h.wf.mem_ancestors_of_parent hp).1 ha with rfl | ha
    · exact ⟨k, (h.kind hx).1, le_rfl⟩
    · rcases exists_above hk with rfl | ⟨j, hj, pos⟩
      · cases hp.symm.trans (h.top hx).1
        rw [h.wf.ancestors_of_no_parent h.wf.root_lt_size h.wf.root_parent, mem_singleton] at ha
        exact ⟨.other, ha ▸ h.wf.root_kind, by decide⟩
      · rcases optionRel_cases (h.parent hx hj) with ⟨none, -⟩ | ⟨q, q', h₁, -, hq⟩
        · simp [none] at hp
        · cases h₁.symm.trans hp
          obtain ⟨i, hi, le⟩ := ih hq pos ha
          exact ⟨i, hi, le.trans (by rw [(level_below hj).1]; exact Nat.le_succ _)⟩

theorem attachable (h : Twin R X d d') (hp : R k p p') (hc : R k' c c') (hb : k.below = some k')
    (free : d.parent? c = none) : d.Attachable p c where
  accepts := ⟨k, k', (h.kind hp).1, (h.kind hc).1, accepts_below hb⟩
  free := free
  not_root e := by
    have := h.wf.root_kind
    rw [← e, (h.kind hc).1] at this
    cases this
    simpa [level] using (level_below hb).1
  acyclic hmem := by
    obtain ⟨j, hj, le⟩ := h.level_of_mem_ancestors hp (level_below hb).2 hmem
    cases hj.symm.trans (h.kind hc).1
    exact absurd le (by rw [(level_below hb).1]; omega)

/-- The parent of a child of a table's frame, on the other side. -/
theorem parent_eq (h : Twin R X d d') (hx : R k x x') (hc : R k' c c') (hb : k.below = some k')
    (hp : c ∈ d.children x) :
    d.parentOfKind? c k = some x ∧ d'.parentOfKind? c' k = some x' := by
  have hp' := (rel_mem (h.unique k') hc (h.children hx hb)).1 hp
  exact ⟨parentOfKind?_eq (h.wf.mem_children.1 hp) (h.kind hx).1,
    parentOfKind?_eq (h.wf'.mem_children.1 hp') (h.kind hx).2⟩

end Twin

/-- Two documents hold the same table. -/
def Joined (t t' : NodeId) (d d' : Document L) : Prop :=
  ∃ R, Twin R (fun _ => False) d d' ∧ R .table t t'

/-- Two documents hold the same table, placed on its grid. -/
def Paired (t t' : NodeId) (d d' : Document L) : Prop :=
  Joined t t' d d' ∧ d.Settled t ∧ d'.Settled t'

theorem Rebordered.paired (same : Rebordered d e) (same' : Rebordered d' e')
    (h : Paired t t' d d') : Paired t t' e e' := by
  obtain ⟨⟨R, h, ht⟩, settled, settled'⟩ := h
  exact ⟨⟨R, h.rebordered same same', ht⟩, same.settled h.wf (h.kind ht).1 settled,
    same'.settled h.wf' (h.kind ht).2 settled'⟩

end Document

namespace Action

open Document

variable {L : Type} {R : Kind → NodeId → NodeId → Prop} {X : NodeId → Prop}
  {d d' : Document L} {E : Document L → Document L → Prop} {k k' : Kind}
  {x x' t t' g g' p p' c c' : NodeId}

section

variable {α β : Type} {Q : α → β → Document L → Document L → Prop}

theorem lock_requireParent_bind (h : Twin R X d d') (hx : R k x x') (hc : R k' c c')
    (hb : k.below = some k') (mem : c ∈ d.children x) {f : NodeId → Action L α}
    {f' : NodeId → Action L β} (rest : Lock (f x) (f' x') d d' Q E) :
    Lock (requireParent c k >>= f) (requireParent c' k >>= f') d d' Q E := by
  obtain ⟨hp, hp'⟩ := h.parent_eq hx hc hb mem
  have left := (ensures_requireParent (Q := fun p e => p = x ∧ e = d) hp).2 ⟨rfl, rfl⟩
  have right := (ensures_requireParent (Q := fun p e => p = x' ∧ e = d') hp').2 ⟨rfl, rfl⟩
  refine lock_bind (left.lock right ?_)
  rintro _ _ _ _ ⟨rfl, rfl⟩ ⟨rfl, rfl⟩
  exact rest

theorem lock_requireCell_bind (h : Twin R X d d') (hc : R .cell c c') {f : CellProps L → Action L α}
    {f' : CellProps L → Action L β} (rest : ∀ p p', d.cell? c = some p → d'.cell? c' = some p' →
      p'.layout = p.layout → Lock (f p) (f' p') d d' Q E) :
    Lock (requireCell c >>= f) (requireCell c' >>= f') d d' Q E := by
  obtain ⟨p, p', hp, hp', layout⟩ := h.exists_cell hc
  have left := (ensures_requireCell (Q := fun q e => q = p ∧ e = d) hp).2 ⟨rfl, rfl⟩
  have right := (ensures_requireCell (Q := fun q e => q = p' ∧ e = d') hp').2 ⟨rfl, rfl⟩
  refine lock_bind (left.lock right ?_)
  rintro _ _ _ _ ⟨rfl, rfl⟩ ⟨rfl, rfl⟩
  exact rest _ _ hp hp' layout

/-- Placing tables that are placed changes nothing. -/
theorem lock_place_bind (h : Twin R X d d') (ht : R .table t t') (settled : d.Settled t)
    (settled' : d'.Settled t') {f : Nat → Action L α} {f' : Nat → Action L β}
    (rest : Lock (f (d.columnCount t)) (f' (d.columnCount t)) d d' Q E) :
    Lock (place t >>= f) (place t' >>= f') d d' Q E := by
  have count := ((h.wf.settled_iff (h.kind ht).1).1 settled).2.2
  have count' := ((h.wf'.settled_iff (h.kind ht).2).1 settled').2.2
  have left := (ensures_place (Q := fun n e => n = d.columnCount t ∧ e = d) h.wf (h.kind ht).1).2
    ⟨count.symm, settled⟩
  have right := (ensures_place (Q := fun n e => n = d.columnCount t ∧ e = d') h.wf'
    (h.kind ht).2).2 ⟨by rw [← count', h.columnCount_eq ht], settled'⟩
  refine lock_bind (left.lock right ?_)
  rintro _ _ _ _ ⟨rfl, rfl⟩ ⟨rfl, rfl⟩
  exact rest

end

theorem lock_updateCell (h : Twin R X d d') (hc : R .cell c c') {f : CellProps L → CellProps L}
    (hf : LayoutOnly f)
    (spans : ∀ p, d.cell? c = some p → 1 ≤ (f p).columnSpan ∧ 1 ≤ (f p).rowSpan) :
    Lock (updateCell c f) (updateCell c' f) d d'
      (fun _ _ e e' => Twin R X e e' ∧ e = d.modifyCell c f) E := by
  have left := (ensures_updateCell (f := f) (Q := fun _ e => e = d.modifyCell c f) (h.kind hc).1).2 rfl
  have right :=
    (ensures_updateCell (f := f) (Q := fun _ e => e = d'.modifyCell c' f) (h.kind hc).2).2 rfl
  refine left.lock right ?_
  rintro _ _ _ _ rfl rfl
  exact ⟨h.modifyCell hc hf spans, rfl⟩

theorem lock_detach (h : Twin R X d d') (hc : R k' c c') (hb : k.below = some k') :
    Lock (Action.detach c) (Action.detach c') d d' (fun _ _ e e' => Twin R X e e') E :=
  lock_modify (h.detach hc hb)

/-- A detached node is attached at the same place on both sides. -/
theorem lock_insertChild (h : Twin R X d d') (hp : R k p p') (hc : R k' c c')
    (hb : k.below = some k') (free : d.parent? c = none) (i : Nat) :
    Lock (insertChild p i c) (insertChild p' i c') d d'
      (fun _ _ e e' => Twin R X e e' ∧ e = d.attach p i c) E := by
  have free' : d'.parent? c' = none := by
    rcases optionRel_cases (h.parent hc hb) with ⟨-, h₂⟩ | ⟨q, -, h₁, -⟩
    · exact h₂
    · simp [free] at h₁
  have ha := h.attachable hp hc hb free
  have ha' := h.symm.attachable hp hc hb free'
  have left := (ensures_insertChild (i := i) (Q := fun _ e => e = d.attach p i c) ha).2 rfl
  have right := (ensures_insertChild (i := i) (Q := fun _ e => e = d'.attach p' i c') ha').2 rfl
  refine left.lock right ?_
  rintro _ _ _ _ rfl rfl
  exact ⟨h.attach hp hc hb ha ha' i, rfl⟩

theorem lock_copyCell (h : Twin R X d d') (hc : R .cell c c') :
    Lock (copyCell c) (copyCell c') d d'
      (fun n n' e e' => ∃ props props', d.cell? c = some props ∧ d'.cell? c' = some props' ∧
        props'.layout = props.layout ∧ NewCell d e n { props with columnIndex := none } ∧
        NewCell d' e' n' { props' with columnIndex := none }) E := by
  obtain ⟨props, props', hp, hp', layout⟩ := h.exists_cell hc
  exact (ensures_copyCell h.wf hp).lock (ensures_copyCell h.wf' hp')
    fun _ _ _ _ new new' => ⟨props, props', hp, hp', layout, new.2, new'.2⟩

theorem lock_place (h : Twin R X d d') (ht : R .table t t') :
    Lock (place t) (place t') d d'
      (fun _ _ e e' => e = d.placed t ∧ e' = d'.placed t') E :=
  ((ensures_place (Q := fun _ e => e = d.placed t) h.wf (h.kind ht).1).2 rfl).lock
    ((ensures_place (Q := fun _ e => e = d'.placed t') h.wf' (h.kind ht).2).2 rfl)
    fun _ _ _ _ => And.intro

theorem lock_checkGrid (h : Twin R X d d') (ht : R .table t t') (settled : d.Settled t)
    (fault : E d d') :
    Lock (checkGrid t) (checkGrid t') d d' (fun _ _ e e' => d.gridFault? t = none ∧ e = d ∧ e' = d')
      E := by
  have same : d.gridFault? t = d'.gridFault? t' := by
    refine h.gridFault?_eq ht fun row hr c hc => ?_
    have := ((h.wf.settled_iff (h.kind ht).1).1 settled).1 c
      (h.wf.mem_tableCells_of_mem_occupants (h.kind ht).1 hr hc)
    exact columnRange?_isSome.2 this
  unfold checkGrid
  refine lock_get_bind ?_
  rw [← same]
  rcases d.gridFault? t with _ | fault'
  · exact lock_pure ⟨rfl, rfl, rfl⟩
  · exact lock_throw fault

/-- The check fails for both tables, and names the same row, or for none. -/
theorem lock_place_checkGrid (h : Twin R (fun _ => False) d d') (ht : R .table t t')
    {α β : Type} {f : Action L α} {f' : Action L β} {Q : α → β → Document L → Document L → Prop}
    (rest : ∀ e e', e = d.placed t → e' = d'.placed t' → Twin R (fun _ => False) e e' →
      e.gridFault? t = none → Paired t t' e e' → Lock f f' e e' Q (Paired t t')) :
    Lock (do let _ ← place t; checkGrid t; f : Action L α)
      (do let _ ← place t'; checkGrid t'; f' : Action L β) d d' Q (Paired t t') := by
  have placed := h.placed ht
  have settled := h.wf.settled_placed (h.kind ht).1
  have settled' := h.wf'.settled_placed (h.kind ht).2
  have paired : Paired t t' (d.placed t) (d'.placed t') := ⟨⟨R, placed, ht⟩, settled, settled'⟩
  have check := lock_checkGrid (E := Paired t t') placed ht settled paired
  refine lock_bind ((lock_place h ht).mono ?_)
  rintro n n' e e' ⟨he, he'⟩
  rw [← he, ← he'] at placed paired check
  refine lock_bind (check.mono ?_)
  rintro _ _ _ _ ⟨tiled, rfl, rfl⟩
  exact rest _ _ he he' placed tiled paired

variable [Length L]

theorem lock_correctBorders (h : Twin R X d d') (ht : R .table t t') :
    Lock (correctBorders t) (correctBorders t') d d'
      (fun _ _ e e' => Rebordered d e ∧ Rebordered d' e') E :=
  (ensures_correctBorders h.wf (h.kind ht).1).lock (ensures_correctBorders h.wf' (h.kind ht).2)
    fun _ _ _ _ => And.intro

theorem lock_correctGroupBorders (h : Twin R X d d') (ht : R .table t t') (hg : R .rowGroup g g')
    (mem : g ∈ d.children t) :
    Lock (correctGroupBorders t g) (correctGroupBorders t' g') d d'
      (fun _ _ e e' => Rebordered d e ∧ Rebordered d' e') E :=
  (ensures_correctGroupBorders h.wf (h.kind ht).1 mem).lock
    (ensures_correctGroupBorders h.wf' (h.kind ht).2
      ((rel_mem (h.unique _) hg (h.children ht rfl)).1 mem))
    fun _ _ _ _ => And.intro

/-- Whether or not the grid is regular in the end, the tables are the same and placed. -/
theorem lock_settle (h : Twin R (fun _ => False) d d') (ht : R .table t t') :
    Lock (settle t) (settle t') d d' (fun _ _ => Paired t t') (Paired t t') := by
  unfold settle
  refine lock_bind ((lock_correctBorders h ht).mono ?_)
  rintro _ _ e e' ⟨same, same'⟩
  have finish : Lock (do let _ ← place t; checkGrid t; pure () : Action L Unit)
      (do let _ ← place t'; checkGrid t'; pure () : Action L Unit) e e' (fun _ _ => Paired t t')
      (Paired t t') := by
    refine lock_place_checkGrid (h.rebordered same same') ht ?_
    rintro _ _ - - - - paired
    exact lock_pure (E := Paired t t') (Q := fun _ _ => Paired t t') paired
  simpa only [bind_pure_unit] using finish

end Action

end RichTable
