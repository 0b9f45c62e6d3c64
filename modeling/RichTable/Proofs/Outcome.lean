import Mathlib
import RichTable.Proofs.Action

/-!
# Actions in every outcome

An action that fails keeps what it has changed. `Ends a s Q E` speaks of both outcomes: run in the
state `s`, the action succeeds with a result and a state that satisfy `Q`, or it fails with an error
and a state that satisfy `E`. `Keeps I a` says that `a` keeps `I` true however it ends. Both are
computed along a `do` block; every action on documents keeps a document well-formed, whatever nodes
it is given.
-/

namespace RichTable

section Generic

variable {ε σ α β : Type}

/-- Run in `s`, the action succeeds with `Q` or fails with `E`. -/
def Ends (a : ExceptT ε (StateM σ) α) (s : σ) (Q : α → σ → Prop) (E : ε → σ → Prop) : Prop :=
  match a.run.run s with
  | (.ok x, s') => Q x s'
  | (.error e, s') => E e s'

variable {a : ExceptT ε (StateM σ) α} {s : σ} {Q Q' : α → σ → Prop} {E E' : ε → σ → Prop}

theorem Ends.mono (h : Ends a s Q E) (ok : ∀ x s', Q x s' → Q' x s')
    (error : ∀ e s', E e s' → E' e s') : Ends a s Q' E' := by
  unfold Ends at h ⊢
  rcases hr : a.run.run s with ⟨e | x, s'⟩ <;> rw [hr] at h
  · exact error e s' h
  · exact ok x s' h

theorem ends_of_forall (h : ∀ x s', Q x s') : Ends a s Q fun _ _ => True := by
  unfold Ends
  rcases a.run.run s with ⟨_ | x, s'⟩
  · trivial
  · exact h x s'

theorem Ensures.ends (h : Ensures a s Q) : Ends a s Q E := by
  obtain ⟨x, s', hr, hq⟩ := h
  rw [Ends, hr]
  exact hq

theorem ends_bind {f : α → ExceptT ε (StateM σ) β} {R : β → σ → Prop} :
    Ends (a >>= f) s R E ↔ Ends a s (fun x s' => Ends (f x) s' R E) E := by
  rw [Ends, Ends, run_bind_eq]
  rcases a.run.run s with ⟨e | x, s'⟩
  · rfl
  · rfl

/-- What succeeds leaves the outcome to the rest of the block. -/
theorem Ensures.ends_bind {f : α → ExceptT ε (StateM σ) β} {R : β → σ → Prop}
    (h : Ensures a s fun x s' => Ends (f x) s' R E) : Ends (a >>= f) s R E :=
  RichTable.ends_bind.2 h.ends

theorem ends_pure {x : α} : Ends (pure x : ExceptT ε (StateM σ) α) s Q E ↔ Q x s := Iff.rfl

theorem ends_throw {e : ε} : Ends (throw e : ExceptT ε (StateM σ) α) s Q E ↔ E e s := Iff.rfl

theorem ends_get {R : σ → σ → Prop} :
    Ends (get : ExceptT ε (StateM σ) σ) s R E ↔ R s s := Iff.rfl

theorem ends_set {t : σ} {R : PUnit → σ → Prop} :
    Ends (set t : ExceptT ε (StateM σ) PUnit) s R E ↔ R ⟨⟩ t := Iff.rfl

theorem ends_modify {f : σ → σ} {R : PUnit → σ → Prop} :
    Ends (modify f : ExceptT ε (StateM σ) PUnit) s R E ↔ R ⟨⟩ (f s) := Iff.rfl

/-! ## Invariants -/

/-- However it ends, the action keeps `I` true. -/
def Keeps (I : σ → Prop) (a : ExceptT ε (StateM σ) α) : Prop :=
  ∀ s, I s → Ends a s (fun _ => I) fun _ => I

variable {I : σ → Prop}

theorem Ends.state (h : Ends a s (fun _ => I) fun _ => I) : I (a.run.run s).2 := by
  unfold Ends at h
  rcases hr : a.run.run s with ⟨e | x, s'⟩ <;> rw [hr] at h <;> exact h

theorem Keeps.state (h : Keeps I a) (hs : I s) : I (a.run.run s).2 := (h s hs).state

theorem keeps_pure (x : α) : Keeps I (pure x : ExceptT ε (StateM σ) α) := fun _ => id

theorem keeps_throw (e : ε) : Keeps I (throw e : ExceptT ε (StateM σ) α) := fun _ => id

theorem keeps_get : Keeps I (get : ExceptT ε (StateM σ) σ) := fun _ => id

theorem keeps_modify {f : σ → σ} (h : ∀ s, I s → I (f s)) :
    Keeps I (modify f : ExceptT ε (StateM σ) PUnit) := h

theorem Keeps.bind {f : α → ExceptT ε (StateM σ) β} (h : Keeps I a) (hf : ∀ x, Keeps I (f x)) :
    Keeps I (a >>= f) := fun s hs =>
  ends_bind.2 ((h s hs).mono (fun x s' hs' => hf x s' hs') fun _ _ => id)

/-- What an invariant has brought about when the rest of a block starts. -/
theorem Keeps.ends_then {f : α → ExceptT ε (StateM σ) β} {R : β → σ → Prop} (h : Keeps I a)
    (hf : ∀ x s, I s → Ends (f x) s R E) (fails : ∀ e s, I s → E e s) (hs : I s) :
    Ends (a >>= f) s R E :=
  ends_bind.2 ((h s hs).mono (fun x s' => hf x s') fun e s' => fails e s')

theorem Keeps.map {f : α → β} (h : Keeps I a) : Keeps I (f <$> a) := by
  rw [map_eq_pure_bind]
  exact h.bind fun _ => keeps_pure _

/-- A block that starts with a look at the state may use that it satisfies the invariant. -/
theorem keeps_get_bind {f : σ → ExceptT ε (StateM σ) β}
    (h : ∀ s, I s → Ends (f s) s (fun _ => I) fun _ => I) : Keeps I (get >>= f) := fun s hs =>
  ends_bind.2 (h s hs)

theorem Keeps.forM_of_mem {γ : Type} {f : γ → ExceptT ε (StateM σ) PUnit} {xs : List γ}
    (h : ∀ x ∈ xs, Keeps I (f x)) : Keeps I (xs.forM f) := by
  induction xs with
  | nil => exact keeps_pure _
  | cons x xs ih =>
    obtain ⟨hx, hxs⟩ := List.forall_mem_cons.1 h
    exact hx.bind fun _ => ih hxs

theorem Keeps.forM {γ : Type} {f : γ → ExceptT ε (StateM σ) PUnit} (h : ∀ x, Keeps I (f x))
    (xs : List γ) : Keeps I (xs.forM f) :=
  .forM_of_mem fun x _ => h x

theorem Keeps.mapM_of_mem {γ δ : Type} {f : γ → ExceptT ε (StateM σ) δ} {xs : List γ}
    (h : ∀ x ∈ xs, Keeps I (f x)) : Keeps I (xs.mapM f) := by
  induction xs with
  | nil => exact keeps_pure _
  | cons x xs ih =>
    obtain ⟨hx, hxs⟩ := List.forall_mem_cons.1 h
    rw [List.mapM_cons]
    exact hx.bind fun _ => (ih hxs).bind fun _ => keeps_pure _

theorem Keeps.mapM {γ δ : Type} {f : γ → ExceptT ε (StateM σ) δ} (h : ∀ x, Keeps I (f x))
    (xs : List γ) : Keeps I (xs.mapM f) :=
  .mapM_of_mem fun x _ => h x

/-- However it ends, the action keeps `I` true, and a result that it has satisfies `R`. -/
def Yields (I : σ → Prop) (a : ExceptT ε (StateM σ) α) (R : α → Prop) : Prop :=
  ∀ s, I s → Ends a s (fun x s' => I s' ∧ R x) fun _ => I

theorem Yields.bind {R : α → Prop} {f : α → ExceptT ε (StateM σ) β} (h : Yields I a R)
    (hf : ∀ x, R x → Keeps I (f x)) : Keeps I (a >>= f) := fun s hs =>
  ends_bind.2 ((h s hs).mono (fun x s' ⟨hs', hx⟩ => hf x hx s' hs') fun _ _ => id)

theorem Yields.bind_yields {R : α → Prop} {R' : β → Prop} {f : α → ExceptT ε (StateM σ) β}
    (h : Yields I a R) (hf : ∀ x, R x → Yields I (f x) R') : Yields I (a >>= f) R' := fun s hs =>
  ends_bind.2 ((h s hs).mono (fun x s' ⟨hs', hx⟩ => hf x hx s' hs') fun _ _ => id)

theorem Keeps.bind_yields {R : β → Prop} {f : α → ExceptT ε (StateM σ) β} (h : Keeps I a)
    (hf : ∀ x, Yields I (f x) R) : Yields I (a >>= f) R := fun s hs =>
  ends_bind.2 ((h s hs).mono (fun x s' hs' => hf x s' hs') fun _ _ => id)

theorem yields_pure {R : α → Prop} {x : α} (hx : R x) :
    Yields I (pure x : ExceptT ε (StateM σ) α) R := fun _ hs => ⟨hs, hx⟩

end Generic

end RichTable
