import Mathlib
import RichTable.Proofs.Tree.Write

/-!
# Actions that succeed

`Ensures a s Q` says that the action `a`, run in the state `s`, succeeds with a result and a state
that satisfy `Q`. The rules below compute it along a `do` block; the primitive actions on documents
succeed with the writes of `Proofs.Tree.Write` as soon as the nodes they name are of the right kind.
-/

namespace RichTable

section Generic

variable {ε σ α β : Type}

/-- Run in `s`, the action succeeds with a result and a state that satisfy `Q`. -/
def Ensures (a : ExceptT ε (StateM σ) α) (s : σ) (Q : α → σ → Prop) : Prop :=
  ∃ x s', a.run.run s = (.ok x, s') ∧ Q x s'

variable {a : ExceptT ε (StateM σ) α} {s : σ} {Q Q' : α → σ → Prop}

theorem Ensures.mono (h : Ensures a s Q) (imp : ∀ x s', Q x s' → Q' x s') : Ensures a s Q' := by
  obtain ⟨x, s', hr, hq⟩ := h
  exact ⟨x, s', hr, imp x s' hq⟩

/-- An action that fails ends the block; otherwise the block goes on in the state it has left. -/
theorem run_bind_eq {f : α → ExceptT ε (StateM σ) β} :
    (a >>= f).run.run s = match a.run.run s with
      | (.ok x, s') => (f x).run.run s'
      | (.error e, s') => (.error e, s') := by
  rw [ExceptT.run_bind, StateT.run_bind]
  rcases a.run.run s with ⟨_ | x, s'⟩ <;> rfl

theorem ensures_bind {f : α → ExceptT ε (StateM σ) β} {R : β → σ → Prop} :
    Ensures (a >>= f) s R ↔ Ensures a s fun x s' => Ensures (f x) s' R := by
  unfold Ensures
  rw [run_bind_eq]
  constructor
  · rintro ⟨y, t, hr, hq⟩
    rcases h : a.run.run s with ⟨_ | x, s'⟩
    · rw [h] at hr
      cases hr
    · rw [h] at hr
      exact ⟨x, s', rfl, y, t, hr, hq⟩
  · rintro ⟨x, s', hr, y, t, hf, hq⟩
    exact ⟨y, t, by rw [hr]; exact hf, hq⟩

theorem ensures_pure {x : α} : Ensures (pure x : ExceptT ε (StateM σ) α) s Q ↔ Q x s := by
  constructor
  · rintro ⟨y, t, h, hq⟩
    cases h
    exact hq
  · exact fun h => ⟨x, s, rfl, h⟩

theorem ensures_get {R : σ → σ → Prop} :
    Ensures (get : ExceptT ε (StateM σ) σ) s R ↔ R s s := by
  constructor
  · rintro ⟨y, t, h, hq⟩
    cases h
    exact hq
  · exact fun h => ⟨s, s, rfl, h⟩

theorem ensures_set {t : σ} {R : PUnit → σ → Prop} :
    Ensures (set t : ExceptT ε (StateM σ) PUnit) s R ↔ R ⟨⟩ t := by
  constructor
  · rintro ⟨y, t, h, hq⟩
    cases h
    exact hq
  · exact fun h => ⟨⟨⟩, t, rfl, h⟩

theorem ensures_modify {f : σ → σ} {R : PUnit → σ → Prop} :
    Ensures (modify f : ExceptT ε (StateM σ) PUnit) s R ↔ R ⟨⟩ (f s) := by
  constructor
  · rintro ⟨y, t, h, hq⟩
    cases h
    exact hq
  · exact fun h => ⟨⟨⟩, f s, rfl, h⟩

/-- A loop keeps what every round keeps. The invariant sees the elements still to come. -/
theorem Ensures.forM {γ : Type} {f : γ → ExceptT ε (StateM σ) PUnit} {I : List γ → σ → Prop}
    (step : ∀ x xs s, I (x :: xs) s → Ensures (f x) s fun _ s' => I xs s') :
    ∀ (xs : List γ) (s : σ), I xs s → Ensures (xs.forM f) s fun _ s' => I [] s'
  | [], _, h => ensures_pure.2 h
  | x :: xs, s, h => ensures_bind.2 ((step x xs s h).mono fun _ s' hs => .forM step xs s' hs)

theorem forM_map {γ δ : Type} (g : γ → δ) (f : δ → ExceptT ε (StateM σ) PUnit) (l : List γ) :
    (l.map g).forM f = l.forM fun x => f (g x) :=
  List.forM_map

/-- The same for a loop that collects results. The invariant sees those so far. -/
theorem Ensures.mapM {γ δ : Type} {f : γ → ExceptT ε (StateM σ) δ} {I : List γ → List δ → σ → Prop}
    (step : ∀ x xs ys s, I (x :: xs) ys s → Ensures (f x) s fun y s' => I xs (ys ++ [y]) s')
    (xs : List γ) (s : σ) (h : I xs [] s) : Ensures (xs.mapM f) s fun ys s' => I [] ys s' := by
  have loop : ∀ (xs : List γ) (ys : List δ) (s : σ), I xs ys s →
      Ensures (xs.mapM f) s fun zs s' => I [] (ys ++ zs) s' := by
    intro xs
    induction xs with
    | nil => exact fun ys s h => ensures_pure.2 (by simpa using h)
    | cons x xs ih =>
      intro ys s h
      simp only [List.mapM_cons, ensures_bind, ensures_pure]
      refine (step x xs ys s h).mono fun y s' hs => (ih _ s' hs).mono fun zs s'' hz => ?_
      simpa using hz
  simpa using loop xs [] s h

end Generic

namespace Action

variable {L : Type} {d : Document L}

theorem ensures_create {p : Payload L} {Q : NodeId → Document L → Prop} :
    Ensures (create p) d Q ↔ Q d.size (d.push p) := by
  simp only [create, ensures_bind, ensures_get, ensures_set, ensures_pure]

theorem ensures_insertChild {p c : NodeId} {i : Nat} {Q : Unit → Document L → Prop}
    (h : d.Attachable p c) : Ensures (insertChild p i c) d Q ↔ Q () (d.attach p i c) := by
  simp only [insertChild, ensures_bind, ensures_get, Document.attachError?_eq_none.2 h, ensures_set]

theorem ensures_appendChild {p c : NodeId} {Q : Unit → Document L → Prop}
    (h : d.Attachable p c) :
    Ensures (appendChild p c) d Q ↔ Q () (d.attach p (d.children p).length c) := by
  simp only [appendChild, ensures_bind, ensures_get, ensures_insertChild h]

theorem ensures_detach {id : NodeId} {Q : Unit → Document L → Prop} :
    Ensures (Action.detach id) d Q ↔ Q () (d.detach id) := by
  simp only [Action.detach, ensures_modify]

theorem ensures_requireCell {id : NodeId} {props : CellProps L}
    {Q : CellProps L → Document L → Prop} (h : d.cell? id = some props) :
    Ensures (requireCell id) d Q ↔ Q props d := by
  simp only [requireCell, ensures_bind, ensures_get, h, ensures_pure]

theorem ensures_updateCell {id : NodeId} {f : CellProps L → CellProps L}
    {Q : Unit → Document L → Prop} (h : d.kind? id = some .cell) :
    Ensures (updateCell id f) d Q ↔ Q () (d.modifyCell id f) := by
  obtain ⟨props, hp⟩ := Document.exists_cell? h
  simp only [updateCell, ensures_bind, ensures_requireCell hp, ensures_modify]

theorem ensures_requireTable {id : NodeId} {props : TableProps L}
    {Q : TableProps L → Document L → Prop} (h : d.table? id = some props) :
    Ensures (requireTable id) d Q ↔ Q props d := by
  simp only [requireTable, ensures_bind, ensures_get, h, ensures_pure]

theorem ensures_requireParent {id p : NodeId} {k : Kind} {Q : NodeId → Document L → Prop}
    (h : d.parentOfKind? id k = some p) : Ensures (requireParent id k) d Q ↔ Q p d := by
  simp only [requireParent, ensures_bind, ensures_get, h, ensures_pure]

end Action

end RichTable
