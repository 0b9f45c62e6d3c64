import Mathlib
import RichTable.Editor
import RichTable.Proofs.Grid.Place
import RichTable.Proofs.Outcome

/-!
# What stays where it is

Edits work inside tables: they move cells and paragraphs about, and hardly anything else. Let some nodes
be told to stay (`S`) and some to take in no more children (`T`), none of them as deep as a cell
(`Anchors`). `Anchored S T d d'` says that they have done so, and every action keeps it true, however it
ends, as long as it does not detach a node of `S` by name. Which nodes these are, is for the reader of
an edit to choose: the table, its row groups, a row that a deletion spares.
-/

namespace RichTable

/-- The kinds of nodes below which there may be rows. -/
def Kind.outer : Kind → Bool
  | .other | .table | .rowGroup => true
  | _ => false

namespace Document

variable {L : Type} {S T : NodeId → Prop} {d d' e : Document L}

/-- The documents have the same tree, and tables with the same cell spacing. -/
structure Restyled (d d' : Document L) : Prop where
  same : SameTree d d'
  spacing : ∀ x, (d'.table? x).map (·.cellSpacing) = (d.table? x).map (·.cellSpacing)

namespace Restyled

theorem refl (d : Document L) : Restyled d d := ⟨.refl d, fun _ => rfl⟩

theorem trans (h : Restyled d d') (h' : Restyled d' e) : Restyled d e :=
  ⟨h.same.trans h'.same, fun x => (h'.spacing x).trans (h.spacing x)⟩

theorem modifyCell (d : Document L) (c : NodeId) (f : CellProps L → CellProps L) :
    Restyled d (d.modifyCell c f) :=
  ⟨.modifyCell d c f, fun _ => by rw [table?_modifyCell]⟩

theorem modifyTable (d : Document L) (t : NodeId) {f : TableProps L → TableProps L}
    (h : ∀ props, (f props).cellSpacing = props.cellSpacing) : Restyled d (d.modifyTable t f) := by
  refine ⟨.modifyTable d t f, fun x => ?_⟩
  rw [table?_modifyTable, Option.map_map]
  congr 1
  funext props
  simp only [Function.comp_apply]
  split
  · exact h props
  · rfl

theorem placed (wf : d.WellFormed) (t : NodeId) : Restyled d (d.placed t) := by
  refine ⟨wf.sameTree_placed t, fun x => ?_⟩
  rw [wf.table?_placed, Option.map_map]
  congr 1
  funext props
  simp only [Function.comp_apply]
  split <;> rfl

end Restyled

/-- The nodes of `S` stand in row groups or above, and the nodes of `T` hold no rows. -/
structure Anchors (S T : NodeId → Prop) (d : Document L) : Prop where
  parent : ∀ x, S x → ∃ p k, d.parent? x = some p ∧ d.kind? p = some k ∧ k.outer
  closed : ∀ p, T p → ∃ k, d.kind? p = some k ∧ k.outer ∧ k ≠ .rowGroup

theorem Anchors.not_closed_of_size_le (A : Anchors S T d) {p : NodeId} (hp : d.size ≤ p) : ¬ T p :=
  fun ht => by
    obtain ⟨k, hk, -⟩ := A.closed p ht
    exact absurd (lt_size_of_kind? hk) (Nat.not_lt.2 hp)

theorem Anchors.not_cell (A : Anchors S T d) (wf : d.WellFormed) {c : NodeId}
    (hc : d.kind? c = some .cell) : ¬ S c := fun hs => by
  obtain ⟨p, k, hp, hk, ho⟩ := A.parent c hs
  obtain ⟨kc, hkc, ha⟩ := wf.accepts_child hk (wf.mem_children.2 hp)
  rw [hc, Option.some.injEq] at hkc
  subst hkc
  revert ha ho
  cases k <;> decide

/-- Going from `d` to `d'`, the nodes of `S` have kept their parents, and the nodes of `T` have got no
children that they did not have. Tables have kept their cell spacing. -/
structure Anchored (S T : NodeId → Prop) (d d' : Document L) : Prop where
  wf : d'.WellFormed
  size : d.size ≤ d'.size
  kind : ∀ x < d.size, d'.kind? x = d.kind? x
  stays : ∀ x, S x → d'.parent? x = d.parent? x
  closed : ∀ p, T p → ∀ x, d'.parent? x = some p → d.parent? x = some p
  spacing : ∀ x < d.size, (d'.table? x).map (·.cellSpacing) = (d.table? x).map (·.cellSpacing)

namespace Anchored

theorem refl (wf : d.WellFormed) : Anchored S T d d :=
  ⟨wf, le_rfl, fun _ _ => rfl, fun _ _ => rfl, fun _ _ _ => id, fun _ _ => rfl⟩

theorem restyled (h : Anchored S T d d') (r : Restyled d' e) : Anchored S T d e where
  wf := r.same.wellFormed h.wf
  size := r.same.size ▸ h.size
  kind x hx := (r.same.kind x).trans (h.kind x hx)
  stays x hx := (r.same.parent x).trans (h.stays x hx)
  closed p hp x hx := h.closed p hp x (r.same.parent x ▸ hx)
  spacing x hx := (r.spacing x).trans (h.spacing x hx)

theorem push (h : Anchored S T d d') (p : Payload L) : Anchored S T d (d'.push p) where
  wf := h.wf.push p
  size := by
    rw [size_push]
    exact h.size.trans (Nat.le_succ _)
  kind x hx := by rw [kind?_push, if_neg (hx.trans_le h.size).ne, h.kind x hx]
  stays x hx := by rw [parent?_push, h.stays x hx]
  closed q hq x hx := h.closed q hq x (by rwa [parent?_push] at hx)
  spacing x hx := by rw [table?_push _ _ (hx.trans_le h.size).ne, h.spacing x hx]

theorem attach (h : Anchored S T d d') (A : Anchors S T d) {p c : NodeId} (hp : ¬ T p)
    (ha : d'.Attachable p c) (i : Nat) : Anchored S T d (d'.attach p i c) where
  wf := h.wf.attach ha i
  size := by simpa using h.size
  kind x hx := by simpa using h.kind x hx
  stays x hx := by
    -- A node that is to stay has a parent, so it is not the one attached.
    have hne : x ≠ c := by
      rintro rfl
      obtain ⟨q, -, hq, -⟩ := A.parent x hx
      have := ha.free
      rw [h.stays x hx, hq] at this
      cases this
    rw [parent?_attach ha.child_lt_size, if_neg hne, h.stays x hx]
  closed q hq x hx := by
    rw [parent?_attach ha.child_lt_size] at hx
    split_ifs at hx
    · obtain rfl := Option.some.inj hx
      exact absurd hq hp
    · exact h.closed q hq x hx
  spacing x hx := by rw [table?_attach, h.spacing x hx]

theorem detach (h : Anchored S T d d') {c : NodeId} (hc : ¬ S c) : Anchored S T d (d'.detach c) where
  wf := h.wf.detach c
  size := by simpa using h.size
  kind x hx := by simpa using h.kind x hx
  stays x hx := by
    have hne : x ≠ c := fun e => hc (e ▸ hx)
    rw [parent?_detach, if_neg hne, h.stays x hx]
  closed q hq x hx := by
    rw [parent?_detach] at hx
    split_ifs at hx
    exact h.closed q hq x hx
  spacing x hx := by rw [table?_detach, h.spacing x hx]

variable (h : Anchored S T d d') (A : Anchors S T d)

include h

theorem kind_of_known {x : NodeId} {k : Kind} (hx : d.kind? x = some k) : d'.kind? x = some k :=
  (h.kind x (lt_size_of_kind? hx)).trans hx

include A

/-- What is not to stay is found below cells and rows. -/
theorem not_stays {p : NodeId} {k : Kind} (hp : d'.kind? p = some k) (hk : k.outer = false)
    {x : NodeId} (hx : d'.parent? x = some p) : ¬ S x := fun hs => by
  obtain ⟨q, k', hq, hk', ho⟩ := A.parent x hs
  rw [h.stays x hs, hq, Option.some.injEq] at hx
  subst hx
  rw [h.kind_of_known hk', Option.some.injEq] at hp
  rw [hp, hk] at ho
  cases ho

omit A in
theorem not_stays_of_mem {p c : NodeId} (hp : ∀ x, S x → d.parent? x ≠ some p)
    (hc : c ∈ d'.children p) : ¬ S c := fun hs =>
  hp c hs ((h.stays c hs).symm.trans (h.wf.mem_children.1 hc))

theorem not_closed {p : NodeId} {k : Kind} (hp : d'.kind? p = some k)
    (hk : k.outer = false ∨ k = .rowGroup) : ¬ T p := fun ht => by
  obtain ⟨k', hk', ho, hne⟩ := A.closed p ht
  rw [h.kind_of_known hk', Option.some.injEq] at hp
  subst hp
  rcases hk with hk | hk
  · rw [hk] at ho
    cases ho
  · exact hne hk

/-- Nothing that is to stay stands below a row or a cell. -/
theorem not_parent {p : NodeId} {k : Kind} (hp : d'.kind? p = some k) (hk : k.outer = false) :
    ∀ x, S x → d.parent? x ≠ some p := fun x hs hx =>
  h.not_stays A hp hk ((h.stays x hs).trans hx) hs

end Anchored

end Document

namespace Action

open Document

variable {L : Type} {α β : Type}

/-! ## Actions that leave the tree alone -/

/-- However it ends, the action changes properties of cells and tables only. -/
def Still (a : Action L α) : Prop :=
  ∀ d, d.WellFormed → Ends a d (fun _ => Restyled d) fun _ => Restyled d

theorem still_pure (x : α) : Still (pure x : Action L α) := fun d _ => .refl d

theorem still_throw (e : EditError) : Still (throw e : Action L α) := fun d _ => .refl d

theorem still_get : Still (get : Action L (Document L)) := fun d _ => .refl d

theorem still_modify {f : Document L → Document L} (h : ∀ d, Restyled d (f d)) :
    Still (modify f : Action L PUnit) := fun d _ => h d

theorem still_setColumns (t : NodeId) (f : List (ColumnWidth L) → List (ColumnWidth L)) :
    Still (modify (·.modifyTable t fun props => { props with columns := f props.columns }) :
      Action L PUnit) :=
  still_modify fun d => .modifyTable d t fun _ => rfl

theorem Still.bind {a : Action L α} {f : α → Action L β} (h : Still a) (hf : ∀ x, Still (f x)) :
    Still (a >>= f) := fun d wf => by
  refine ends_bind.2 ((h d wf).mono (fun x d' r => ?_) fun _ _ => id)
  exact (hf x d' (r.same.wellFormed wf)).mono (fun _ _ => r.trans) fun _ _ => r.trans

theorem Still.forM {γ : Type} {f : γ → Action L PUnit} (h : ∀ x, Still (f x)) :
    ∀ xs : List γ, Still (xs.forM f)
  | [] => still_pure _
  | x :: xs => (h x).bind fun _ => Still.forM h xs

theorem still_requireCell (id : NodeId) : Still (L := L) (requireCell id) := by
  refine still_get.bind fun d => ?_
  split
  · exact still_pure _
  · exact still_throw _

theorem still_requireTable (id : NodeId) : Still (L := L) (requireTable id) := by
  refine still_get.bind fun d => ?_
  split
  · exact still_pure _
  · exact still_throw _

theorem still_requireParent (id : NodeId) (k : Kind) : Still (L := L) (requireParent id k) := by
  refine still_get.bind fun d => ?_
  split
  · exact still_pure _
  · exact still_throw _

/-- The parent that an action asks for is of the kind that it asks for. -/
theorem ends_requireParent_bind {d : Document L} {id : NodeId} {k : Kind} {f : NodeId → Action L α}
    {Q : α → Document L → Prop} {E : EditError → Document L → Prop}
    (h : ∀ p, d.parent? id = some p → d.kind? p = some k → Ends (f p) d Q E) (fails : ∀ e, E e d) :
    Ends (requireParent id k >>= f) d Q E := by
  refine ends_bind.2 (ends_bind.2 (ends_get.2 ?_))
  split
  · next p hp =>
    obtain ⟨hp, hk⟩ := Option.filter_eq_some_iff.1 hp
    exact h p hp (isKind_iff.1 hk)
  · exact fails _

theorem still_updateCell (id : NodeId) (f : CellProps L → CellProps L) : Still (updateCell id f) :=
  (still_requireCell id).bind fun _ => still_modify fun d => .modifyCell d id f

theorem still_clampRowSpans (g : NodeId) :
    Still (modify (·.clampRowSpans g) : Action L PUnit) := by
  refine still_modify fun d => ?_
  unfold clampRowSpans
  generalize (d.children g).flatMap d.children = cells
  induction cells generalizing d with
  | nil => exact .refl d
  | cons c cells ih => exact (Restyled.modifyCell d c _).trans (ih _)

theorem still_place (t : NodeId) : Still (L := L) (place t) := by
  refine (still_requireTable t).bind fun _ d wf => ends_bind.2 (ends_get.2 ?_)
  split
  · exact .refl d
  · exact .placed wf t

theorem still_checkGrid (t : NodeId) : Still (L := L) (checkGrid t) := by
  refine still_get.bind fun d => ?_
  split
  · exact still_throw _
  · exact still_pure _

theorem still_selectedColumns (selection : Segment) : Still (L := L) (selectedColumns selection) := by
  refine still_get.bind fun d => ?_
  split
  · exact still_pure _
  split
  · exact still_pure _
  · exact (still_place _).bind fun _ => still_get.bind fun _ => still_pure _

section Borders

variable [Length L]

theorem still_correctGroupBorders (t g : NodeId) : Still (L := L) (correctGroupBorders t g) :=
  (still_requireTable t).bind fun _ => still_get.bind fun d =>
    .forM (fun row => .forM (fun _ => still_updateCell _ _) (d.children row)) (d.children g)

theorem still_correctBorders (t : NodeId) : Still (L := L) (correctBorders t) :=
  still_get.bind fun d => .forM (fun g => still_correctGroupBorders t g) (d.children t)

theorem still_settle (t : NodeId) : Still (L := L) (settle t) :=
  (still_correctBorders t).bind fun _ => (still_place t).bind fun _ => still_checkGrid t

end Borders

end Action

/-! ## Actions on the tree -/

namespace Document.Anchors

open RichTable.Action

variable {L : Type} {S T : NodeId → Prop} {d : Document L} {α : Type}

theorem still {a : Action L α} (h : Still a) : Keeps (Anchored S T d) a := fun s hs =>
  (h s hs.wf).mono (fun _ _ => hs.restyled) fun _ _ => hs.restyled

theorem requireParent {id : NodeId} {k : Kind} {f : NodeId → Action L α}
    (h : ∀ s, Anchored S T d s → ∀ p, s.parent? id = some p → s.kind? p = some k →
      Ends (f p) s (fun _ => Anchored S T d) fun _ => Anchored S T d) :
    Keeps (Anchored S T d) (Action.requireParent id k >>= f) := fun s hs =>
  ends_requireParent_bind (h s hs) fun _ => hs

theorem create (p : Payload L) : Yields (Anchored S T d) (Action.create p) (d.size ≤ ·) :=
  fun _ hs => ⟨hs.push p, hs.size⟩

theorem detach {c : NodeId} (hc : ¬ S c) : Keeps (Anchored S T d) (Action.detach c) :=
  keeps_modify fun _ hs => hs.detach hc

section

variable (A : Anchors S T d)

include A

theorem insertChild {p : NodeId} (hp : ¬ T p) (i : Nat) (c : NodeId) :
    Keeps (Anchored S T d) (Action.insertChild p i c) := by
  refine keeps_get_bind fun s hs => ?_
  split
  · exact hs
  · next h => exact hs.attach A hp (attachError?_eq_none.1 h) i

theorem appendChild {p : NodeId} (hp : ¬ T p) (c : NodeId) :
    Keeps (Anchored S T d) (Action.appendChild p c) :=
  keeps_get.bind fun _ => A.insertChild hp _ c

theorem appendParagraph {p : NodeId} (hp : ¬ T p) (text : String) :
    Keeps (Anchored S T d) (Action.appendParagraph p text) := by
  refine (create _).bind fun block hb => ?_
  dsimp only
  split
  · exact (create _).bind fun run _ => (A.appendChild (A.not_closed_of_size_le hb) _).bind fun _ =>
      (A.appendChild hp _).bind fun _ => keeps_pure _
  · exact (A.appendChild hp _).bind fun _ => keeps_pure _

theorem copyCell (c : NodeId) : Yields (Anchored S T d) (Action.copyCell c) (d.size ≤ ·) :=
  (still (still_requireCell c)).bind_yields fun _ => (create _).bind_yields fun _ hc =>
    (A.appendParagraph (A.not_closed_of_size_le hc) _).bind_yields fun _ => yields_pure hc

theorem insertRowOf {g : NodeId} (hg : ¬ T g) (templates : List NodeId) (i : Nat) :
    Keeps (Anchored S T d) (Action.insertRowOf templates g i) := by
  refine (create _).bind fun row hrow => ?_
  refine (Keeps.forM (fun c => ?_) templates).bind fun _ => (A.insertChild hg _ _).bind fun _ =>
    keeps_pure _
  exact (A.copyCell c).bind fun _ _ => (still (still_updateCell _ _)).bind fun _ =>
    A.appendChild (A.not_closed_of_size_le hrow) _

theorem recreateIn {next : NodeId} (hnext : ¬ T next) (cell : NodeId) (height : Nat) :
    Keeps (Anchored S T d) (Action.recreateIn next cell height) :=
  (still (still_requireCell cell)).bind fun _ => (A.copyCell cell).bind fun _ _ =>
    (still (still_updateCell _ _)).bind fun _ => keeps_get.bind fun _ => A.insertChild hnext _ _

theorem widenRow {row : NodeId} (hrow : ¬ T row) (target : Nat) (behind : Bool) :
    Keeps (Anchored S T d) (Action.widenRow target behind row) := by
  refine keeps_get.bind fun s => ?_
  split
  · exact keeps_pure _
  · refine (still (still_requireCell _)).bind fun props => ?_
    split
    · exact still (still_updateCell _ _)
    · exact (A.copyCell _).bind fun _ _ => keeps_get.bind fun _ => A.insertChild hrow _ _

theorem carve {row : NodeId} (hrow : ¬ T row) (cell : NodeId) (count : Nat) :
    Keeps (Anchored S T d) (Action.carve row cell count) := by
  induction count with
  | zero => exact keeps_pure _
  | succ count ih =>
    exact (A.copyCell _).bind fun _ _ => (still (still_updateCell _ _)).bind fun _ => keeps_get.bind
      fun _ => (A.insertChild hrow _ _).bind fun _ => (still (still_updateCell _ _)).bind fun _ => ih

theorem moveContent {survivor child : NodeId} (hs : ¬ T survivor) (hc : ¬ S child) :
    Keeps (Anchored S T d) (Action.moveContent survivor child) := by
  refine keeps_get.bind fun s => ?_
  split
  · exact (detach hc).bind fun _ => A.appendChild hs _
  · exact keeps_pure _

end

/-- A row below which nothing is to stay. -/
theorem narrowRow {row : NodeId} (hrow : ∀ x, S x → d.parent? x ≠ some row) (column : Nat) :
    Keeps (Anchored S T d) (Action.narrowRow column row) := by
  refine keeps_get_bind fun s hs => ?_
  split
  · exact hs
  · next cell hcell =>
    have hc : ¬ S cell := hs.not_stays_of_mem hrow (List.mem_of_find?_eq_some hcell)
    refine (still (still_requireCell _)).bind (fun props => ?_) s hs
    split
    · exact still (still_updateCell _ _)
    · exact detach hc

end Document.Anchors

end RichTable
