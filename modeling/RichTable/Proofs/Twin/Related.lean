import Mathlib
import RichTable.Grid.Sorting

/-!
# Related lists

Two documents may hold the same table under different ids. What is computed from related lists of ids
is related again; the lemmas below say so for the functions on lists that the library of relations does
not treat.
-/

namespace RichTable

open List

variable {α β γ : Type} {R : α → β → Prop} {xs : List α} {ys : List β}

theorem optionRel_cases {o : Option α} {o' : Option β} (h : Option.Rel R o o') :
    o = none ∧ o' = none ∨ ∃ x y, o = some x ∧ o' = some y ∧ R x y := by
  cases h with
  | some h => exact .inr ⟨_, _, rfl, rfl, h⟩
  | none => exact .inl ⟨rfl, rfl⟩

theorem optionRel_imp {S : α → β → Prop} {o : Option α} {o' : Option β} (h : Option.Rel R o o')
    (imp : ∀ x y, R x y → S x y) : Option.Rel S o o' := by
  cases h with
  | some h => exact .some (imp _ _ h)
  | none => exact .none

theorem bind_related {γ δ : Type} {S : γ → δ → Prop} {o : Option α} {o' : Option β}
    {f : α → Option γ} {g : β → Option δ} (h : Option.Rel R o o')
    (rel : ∀ x y, R x y → Option.Rel S (f x) (g y)) : Option.Rel S (o.bind f) (o'.bind g) := by
  cases h with
  | some h => exact rel _ _ h
  | none => exact .none

theorem bind_eq_of_related {o : Option α} {o' : Option β} {f : α → Option γ} {g : β → Option γ}
    (h : Option.Rel R o o') (eq : ∀ x y, R x y → f x = g y) : o.bind f = o'.bind g := by
  cases h with
  | some h => exact eq _ _ h
  | none => rfl

theorem map_eq_of_related {f : α → γ} {g : β → γ} (h : Forall₂ R xs ys)
    (eq : ∀ x y, R x y → f x = g y) : xs.map f = ys.map g := by
  induction h with
  | nil => rfl
  | cons hxy _ ih => rw [map_cons, map_cons, eq _ _ hxy, ih]

theorem related_of_map_eq {f : α → γ} {g : β → γ} (h : xs.map f = ys.map g) :
    Forall₂ (fun x y => f x = g y) xs ys := by
  rwa [← forall₂_eq_eq_eq, forall₂_map_left_iff, forall₂_map_right_iff] at h

/-- The results of a function that may fail, related to what they come from. -/
theorem related_filterMap (f : α → Option β) (xs : List α) :
    Forall₂ (fun x y => f x = some y) (xs.filter fun x => (f x).isSome) (xs.filterMap f) := by
  induction xs with
  | nil => exact .nil
  | cons x xs ih =>
    cases hx : f x with
    | none => rwa [filter_cons_of_neg (by simp [hx]), filterMap_cons_none hx]
    | some y =>
      rw [filter_cons_of_pos (by simp [hx]), filterMap_cons_some hx]
      exact .cons hx ih

theorem related_comp {S : γ → β → Prop} {zs : List γ} (h : Forall₂ R xs ys) (h' : Forall₂ S zs ys) :
    Forall₂ (fun x z => ∃ y, R x y ∧ S z y) xs zs := by
  induction h generalizing zs with
  | nil => cases h'; exact .nil
  | cons hxy _ ih =>
    cases h' with
    | cons hzy h' => exact .cons ⟨_, hxy, hzy⟩ (ih h')

theorem exists_related_of_mem {x : α} (h : Forall₂ R xs ys) (hx : x ∈ xs) : ∃ y ∈ ys, R x y := by
  induction h with
  | nil => exact absurd hx not_mem_nil
  | cons hxy _ ih =>
    rcases mem_cons.1 hx with rfl | hx
    · exact ⟨_, mem_cons_self, hxy⟩
    · obtain ⟨y, hy, hr⟩ := ih hx
      exact ⟨y, mem_cons_of_mem _ hy, hr⟩

theorem filterMap_eq_of_related {f : α → Option γ} {g : β → Option γ} (h : Forall₂ R xs ys)
    (eq : ∀ x y, R x y → f x = g y) : xs.filterMap f = ys.filterMap g := by
  induction h with
  | nil => rfl
  | cons hxy _ ih => rw [filterMap_cons, filterMap_cons, eq _ _ hxy, ih]

theorem findSome?_eq_of_related {f : α → Option γ} {g : β → Option γ} (h : Forall₂ R xs ys)
    (eq : ∀ x y, R x y → f x = g y) : xs.findSome? f = ys.findSome? g := by
  induction h with
  | nil => rfl
  | cons hxy _ ih => rw [findSome?_cons, findSome?_cons, eq _ _ hxy, ih]

theorem any_eq_of_related {p : α → Bool} {q : β → Bool} (h : Forall₂ R xs ys)
    (eq : ∀ x y, R x y → p x = q y) : xs.any p = ys.any q := by
  induction h with
  | nil => rfl
  | cons hxy _ ih => rw [any_cons, any_cons, eq _ _ hxy, ih]

theorem find?_related {p : α → Bool} {q : β → Bool} (h : Forall₂ R xs ys)
    (eq : ∀ x y, R x y → p x = q y) : Option.Rel R (xs.find? p) (ys.find? q) := by
  induction h with
  | nil => exact .none
  | cons hxy _ ih =>
    rw [find?_cons, find?_cons, eq _ _ hxy]
    split
    · exact .some hxy
    · exact ih

theorem length_takeWhile_eq_of_related {p : α → Bool} {q : β → Bool} (h : Forall₂ R xs ys)
    (eq : ∀ x y, R x y → p x = q y) : (xs.takeWhile p).length = (ys.takeWhile q).length := by
  induction h with
  | nil => rfl
  | cons hxy _ ih =>
    rw [takeWhile_cons, takeWhile_cons, eq _ _ hxy]
    split
    · rw [length_cons, length_cons, ih]
    · rfl

theorem getElem?_related (h : Forall₂ R xs ys) (i : Nat) : Option.Rel R xs[i]? ys[i]? := by
  induction h generalizing i with
  | nil => exact .none
  | cons hxy _ ih =>
    cases i with
    | zero => exact .some hxy
    | succ i => exact ih i

theorem insertIdx_related {x : α} {y : β} (h : Forall₂ R xs ys) (hxy : R x y) (i : Nat) :
    Forall₂ R (xs.insertIdx i x) (ys.insertIdx i y) := by
  induction h generalizing i with
  | nil =>
    cases i with
    | zero => exact .cons hxy .nil
    | succ i => exact .nil
  | cons hxy' hs ih =>
    cases i with
    | zero => exact .cons hxy (.cons hxy' hs)
    | succ i => exact .cons hxy' (ih i)

theorem zipIdx_related (h : Forall₂ R xs ys) (n : Nat) :
    Forall₂ (fun p q => R p.1 q.1 ∧ p.2 = q.2) (xs.zipIdx n) (ys.zipIdx n) := by
  induction h generalizing n with
  | nil => exact .nil
  | cons hxy _ ih => exact .cons ⟨hxy, rfl⟩ (ih (n + 1))

theorem mapM_related {δ : Type} {S : γ → δ → Prop} {f : α → Option γ} {g : β → Option δ}
    (h : Forall₂ R xs ys) (rel : ∀ x y, R x y → Option.Rel S (f x) (g y)) :
    Option.Rel (Forall₂ S) (xs.mapM f) (ys.mapM g) := by
  induction h with
  | nil => exact .some .nil
  | cons hxy _ ih =>
    rw [mapM_cons, mapM_cons]
    rcases optionRel_cases (rel _ _ hxy) with ⟨h₁, h₂⟩ | ⟨u, v, h₁, h₂, huv⟩
    · rw [h₁, h₂]
      exact .none
    · rw [h₁, h₂]
      rcases optionRel_cases ih with ⟨h₃, h₄⟩ | ⟨us, vs, h₃, h₄, hus⟩
      · rw [h₃, h₄]
        exact .none
      · rw [h₃, h₄]
        exact .some (.cons huv hus)

/-! ## Sorting -/

theorem insertSorted_related {le : α → α → Bool} {le' : β → β → Bool}
    (eq : ∀ x y u v, R x y → R u v → le x u = le' y v) {x : α} {y : β} (hxy : R x y)
    (h : Forall₂ R xs ys) : Forall₂ R (insertSorted le x xs) (insertSorted le' y ys) := by
  induction h with
  | nil => exact .cons hxy .nil
  | cons hxy' hs ih =>
    rw [insertSorted, insertSorted, eq _ _ _ _ hxy hxy']
    split
    · exact .cons hxy (.cons hxy' hs)
    · exact .cons hxy' ih

theorem sortBy_related {le : α → α → Bool} {le' : β → β → Bool}
    (eq : ∀ x y u v, R x y → R u v → le x u = le' y v) (h : Forall₂ R xs ys) :
    Forall₂ R (sortBy le xs) (sortBy le' ys) := by
  induction h with
  | nil => exact .nil
  | cons hxy _ ih => exact insertSorted_related eq hxy ih

/-! ## Elements compared by equality -/

variable [DecidableEq α] [DecidableEq β]

theorem beq_eq_of_related (unique : Relator.BiUnique R) {x u : α} {y v : β} (hxy : R x y)
    (huv : R u v) : (x == u) = (y == v) := by
  rw [Bool.eq_iff_iff, beq_iff_eq, beq_iff_eq]
  exact Relator.rel_eq unique hxy huv

theorem contains_eq_of_related (unique : Relator.BiUnique R) (h : Forall₂ R xs ys) {x : α} {y : β}
    (hxy : R x y) : xs.contains x = ys.contains y := by
  rw [Bool.eq_iff_iff, contains_iff_mem, contains_iff_mem]
  exact rel_mem unique hxy h

theorem idxOf?_eq_of_related (unique : Relator.BiUnique R) (h : Forall₂ R xs ys) {x : α} {y : β}
    (hxy : R x y) : xs.idxOf? x = ys.idxOf? y := by
  induction h with
  | nil => rfl
  | cons huv _ ih => rw [idxOf?_cons, idxOf?_cons, beq_eq_of_related unique huv hxy, ih]

theorem eraseDups_related (unique : Relator.BiUnique R) (h : Forall₂ R xs ys) :
    Forall₂ R xs.eraseDups ys.eraseDups := by
  induction hn : xs.length using Nat.strong_induction_on generalizing xs ys with
  | _ n ih =>
    subst hn
    cases h with
    | nil => exact .nil
    | @cons x y xs ys hxy hs =>
      rw [eraseDups_cons, eraseDups_cons]
      refine .cons hxy (ih _ ?_ (rel_filter (fun u v huv => Bool.eq_iff_iff.1 ?_) hs) rfl)
      · exact Nat.lt_succ_of_le (length_filter_le _ _)
      · rw [beq_eq_of_related unique huv hxy]

end RichTable
