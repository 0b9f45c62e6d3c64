import Mathlib
import RichTable.Proofs.Outcome

/-!
# Two runs side by side

`Lock a b s t Q E` runs `a` in the state `s` and `b` in the state `t`. Both succeed, with results and
states that satisfy `Q`, or both fail with the same error, in states that satisfy `E`. As with `Ends`,
the rules compute it along two `do` blocks of the same shape.
-/

namespace RichTable

section Generic

variable {ε σ τ α α' β β' γ δ : Type}

/-- Run in `s` and in `t`, both actions succeed with `Q`, or both fail with the same error and `E`. -/
def Lock (a : ExceptT ε (StateM σ) α) (b : ExceptT ε (StateM τ) β) (s : σ) (t : τ)
    (Q : α → β → σ → τ → Prop) (E : σ → τ → Prop) : Prop :=
  match a.run.run s, b.run.run t with
  | (.ok x, s'), (.ok y, t') => Q x y s' t'
  | (.error e, s'), (.error e', t') => e = e' ∧ E s' t'
  | _, _ => False

variable {a : ExceptT ε (StateM σ) α} {b : ExceptT ε (StateM τ) β} {s : σ} {t : τ}
  {Q Q' : α → β → σ → τ → Prop} {E : σ → τ → Prop}

theorem Lock.mono (h : Lock a b s t Q E) (imp : ∀ x y s' t', Q x y s' t' → Q' x y s' t') :
    Lock a b s t Q' E := by
  unfold Lock at h ⊢
  generalize a.run.run s = left, b.run.run t = right at h ⊢
  rcases left with ⟨_ | x, s'⟩ <;> rcases right with ⟨_ | y, t'⟩
  · exact h
  · exact h
  · exact h
  · exact imp x y s' t' h

theorem Ensures.lock {P : α → σ → Prop} {P' : β → τ → Prop} (h : Ensures a s P)
    (h' : Ensures b t P') (imp : ∀ x y s' t', P x s' → P' y t' → Q x y s' t') :
    Lock a b s t Q E := by
  obtain ⟨x, s', run, hp⟩ := h
  obtain ⟨y, t', run', hp'⟩ := h'
  rw [Lock, run, run']
  exact imp x y s' t' hp hp'

theorem lock_bind {f : α → ExceptT ε (StateM σ) α'} {g : β → ExceptT ε (StateM τ) β'}
    {Q : α' → β' → σ → τ → Prop}
    (h : Lock a b s t (fun x y s' t' => Lock (f x) (g y) s' t' Q E) E) :
    Lock (a >>= f) (b >>= g) s t Q E := by
  unfold Lock at h ⊢
  rw [run_bind_eq, run_bind_eq]
  generalize a.run.run s = left, b.run.run t = right at h ⊢
  rcases left with ⟨_ | x, s'⟩ <;> rcases right with ⟨_ | y, t'⟩
  · exact h
  · exact h.elim
  · exact h.elim
  · exact h

theorem lock_pure {x : α} {y : β} (h : Q x y s t) :
    Lock (pure x : ExceptT ε (StateM σ) α) (pure y : ExceptT ε (StateM τ) β) s t Q E := h

theorem lock_throw {e : ε} (h : E s t) :
    Lock (throw e : ExceptT ε (StateM σ) α) (throw e : ExceptT ε (StateM τ) β) s t Q E := ⟨rfl, h⟩

/-- A block that starts with a look at the state. -/
theorem lock_get_bind {f : σ → ExceptT ε (StateM σ) α} {g : τ → ExceptT ε (StateM τ) β}
    (h : Lock (f s) (g t) s t Q E) : Lock (get >>= f) (get >>= g) s t Q E :=
  lock_bind (a := get) (b := get) h

theorem lock_modify {f : σ → σ} {g : τ → τ} {Q : PUnit → PUnit → σ → τ → Prop}
    (h : Q ⟨⟩ ⟨⟩ (f s) (g t)) :
    Lock (modify f : ExceptT ε (StateM σ) PUnit) (modify g : ExceptT ε (StateM τ) PUnit) s t Q E := h

theorem lock_set {s' : σ} {t' : τ} {Q : PUnit → PUnit → σ → τ → Prop} (h : Q ⟨⟩ ⟨⟩ s' t') :
    Lock (set s' : ExceptT ε (StateM σ) PUnit) (set t' : ExceptT ε (StateM τ) PUnit) s t Q E := h

/-- A loop over related lists keeps what every round keeps. -/
theorem Lock.forM {S : γ → δ → Prop} {f : γ → ExceptT ε (StateM σ) PUnit}
    {g : δ → ExceptT ε (StateM τ) PUnit} {I : σ → τ → Prop}
    (step : ∀ x y, S x y → ∀ s t, I s t → Lock (f x) (g y) s t (fun _ _ => I) E)
    {xs : List γ} {ys : List δ} (h : List.Forall₂ S xs ys) (hI : I s t) :
    Lock (xs.forM f) (ys.forM g) s t (fun _ _ => I) E := by
  induction h generalizing s t with
  | nil => exact hI
  | cons hxy _ ih => exact lock_bind ((step _ _ hxy s t hI).mono fun _ _ _ _ hI => ih hI)

theorem Lock.mapM {S : γ → δ → Prop} {P : α → β → Prop} {f : γ → ExceptT ε (StateM σ) α}
    {g : δ → ExceptT ε (StateM τ) β} {I : σ → τ → Prop}
    (step : ∀ x y, S x y → ∀ s t, I s t →
      Lock (f x) (g y) s t (fun u v s' t' => P u v ∧ I s' t') E)
    {xs : List γ} {ys : List δ} (h : List.Forall₂ S xs ys) (hI : I s t) :
    Lock (xs.mapM f) (ys.mapM g) s t
      (fun us vs s' t' => List.Forall₂ P us vs ∧ us.length = xs.length ∧ I s' t') E := by
  induction h generalizing s t with
  | nil => exact ⟨.nil, rfl, hI⟩
  | cons hxy _ ih =>
    rw [List.mapM_cons, List.mapM_cons]
    refine lock_bind ((step _ _ hxy s t hI).mono fun u v s' t' ⟨huv, hI⟩ => ?_)
    exact lock_bind ((ih hI).mono fun us vs s' t' ⟨hus, length, hI⟩ =>
      ⟨.cons huv hus, congrArg (· + 1) length, hI⟩)

/-- What is known of one of the two runs may be used when they are compared. -/
theorem Lock.and_left (h : Lock a b s t Q E) {P : α → σ → Prop} {F : ε → σ → Prop}
    (left : Ends a s P F) : Lock a b s t (fun x y s' t' => Q x y s' t' ∧ P x s') E := by
  unfold Lock at h ⊢
  unfold Ends at left
  generalize a.run.run s = left', b.run.run t = right at h left ⊢
  rcases left' with ⟨_ | x, s'⟩ <;> rcases right with ⟨_ | y, t'⟩
  · exact h
  · exact h
  · exact h
  · exact ⟨h, left⟩

end Generic

end RichTable
