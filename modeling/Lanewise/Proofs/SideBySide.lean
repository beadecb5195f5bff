import Mathlib.Data.List.Forall2
import Lanewise.EvalError

/-!
# Computations side by side

Two computations that do the same on related data. Where one of them has no result, nor
has the other (`Option.Rel`), where one ends in an error, the other ends in the same one
(`Concur`), and where the second needs more memory it may be refused that (`Withstands`).
-/

namespace Lanewise

/-! ## Results that may be missing -/

section Elements

variable {α β γ δ : Type} {R : α → β → Prop} {S : γ → δ → Prop}

theorem rel_imp {R R' : α → β → Prop} {x : Option α} {y : Option β} (h : Option.Rel R x y)
    (himp : ∀ a b, R a b → R' a b) : Option.Rel R' x y := by
  cases h with
  | none => exact .none
  | some h => exact .some (himp _ _ h)

theorem rel_bind {x : Option α} {y : Option β} {f : α → Option γ} {g : β → Option δ}
    (h : Option.Rel R x y) (hfg : ∀ a b, R a b → Option.Rel S (f a) (g b)) :
    Option.Rel S (x >>= f) (y >>= g) := by
  cases h with
  | none => exact .none
  | some h => exact hfg _ _ h

theorem rel_map {x : Option α} {y : Option β} {f : α → γ} {g : β → δ} (h : Option.Rel R x y)
    (hfg : ∀ a b, R a b → S (f a) (g b)) : Option.Rel S (x.map f) (y.map g) := by
  cases h with
  | none => exact .none
  | some h => exact .some (hfg _ _ h)

theorem rel_getD {x : Option α} {y : Option β} {a : α} {b : β} (h : Option.Rel R x y)
    (hab : R a b) : R (x.getD a) (y.getD b) := by
  cases h with
  | none => exact hab
  | some h => exact h

theorem rel_of_isSome_eq {x : Option α} {y : Option β} (h : x.isSome = y.isSome)
    (hR : ∀ a b, x = some a → y = some b → R a b) : Option.Rel R x y := by
  cases x <;> cases y
  · exact .none
  · cases h
  · cases h
  · exact .some (hR _ _ rfl rfl)

/-! ## Lists and arrays -/

theorem rel_mapM {f : γ → Option α} {g : γ → Option β} (as : List γ)
    (h : ∀ a, Option.Rel R (f a) (g a)) :
    Option.Rel (List.Forall₂ R) (as.mapM f) (as.mapM g) := by
  induction as with
  | nil => exact .some .nil
  | cons a as ih =>
    rw [List.mapM_cons, List.mapM_cons]
    exact rel_bind (h a) fun _ _ hab => rel_bind ih fun _ _ hrest => .some (.cons hab hrest)

theorem rel_getElem? {as : List α} {bs : List β} (h : List.Forall₂ R as bs) (i : Nat) :
    Option.Rel R as[i]? bs[i]? := by
  induction h generalizing i with
  | nil => exact .none
  | cons hab _ ih =>
    cases i with
    | zero => exact .some hab
    | succ i => exact ih i

theorem rel_eq_none_iff {x : Option α} {y : Option β} (h : Option.Rel R x y) :
    x = none ↔ y = none := by
  cases h <;> simp

theorem size_eq_of_rel {R : Nat → α → β → Prop} {xs : Array α} {ys : Array β}
    (h : ∀ i : Nat, Option.Rel (R i) xs[i]? ys[i]?) : xs.size = ys.size := by
  have hnone : ∀ i, xs.size ≤ i ↔ ys.size ≤ i := fun i => by
    rw [← Array.getElem?_eq_none_iff, ← Array.getElem?_eq_none_iff, rel_eq_none_iff (h i)]
  exact Nat.le_antisymm ((hnone _).2 (Nat.le_refl _)) ((hnone _).1 (Nat.le_refl _))

theorem forall₂_toList_of_rel {xs : Array α} {ys : Array β}
    (h : ∀ i : Nat, Option.Rel R xs[i]? ys[i]?) : List.Forall₂ R xs.toList ys.toList := by
  refine List.forall₂_iff_get.2 ⟨size_eq_of_rel (R := fun _ => _) h, fun i hi hi' => ?_⟩
  have hcell := h i
  rw [Array.getElem?_eq_getElem hi, Array.getElem?_eq_getElem hi'] at hcell
  cases hcell with
  | some hcell => exact hcell

theorem forall₂_zip {xs : List α} {ys : List β} (is : List γ) (h : List.Forall₂ R xs ys) :
    List.Forall₂ (fun p q => p.1 = q.1 ∧ R p.2 q.2) (is.zip xs) (is.zip ys) := by
  induction is generalizing xs ys with
  | nil => exact .nil
  | cons i is ih =>
    cases h with
    | nil => exact .nil
    | cons hxy hrest => exact .cons ⟨rfl, hxy⟩ (ih hrest)

theorem rel_setIfInBounds {R : Nat → α → β → Prop} {xs : Array α} {ys : Array β}
    (h : ∀ i : Nat, Option.Rel (R i) xs[i]? ys[i]?) {k : Nat} {a : α} {b : β} (hab : R k a b)
    (i : Nat) : Option.Rel (R i) (xs.setIfInBounds k a)[i]? (ys.setIfInBounds k b)[i]? := by
  rw [Array.getElem?_setIfInBounds, Array.getElem?_setIfInBounds, size_eq_of_rel h]
  split
  next hk =>
    subst hk
    split
    · exact .some hab
    · exact .none
  · exact h i

end Elements

/-! ## Errors -/

/-- Outcomes that agree: the same error, or results that stand in a relation. -/
inductive Concur {α β : Type} (R : α → β → Prop) : Except EvalError α → Except EvalError β → Prop
  | ok {a : α} {b : β} (h : R a b) : Concur R (.ok a) (.ok b)
  | error (e : EvalError) : Concur R (.error e) (.error e)

theorem concur_iff {α β : Type} {R : α → β → Prop} {x : Except EvalError α}
    {y : Except EvalError β} : Concur R x y ↔
      (∃ e, x = .error e ∧ y = .error e) ∨ ∃ a b, x = .ok a ∧ y = .ok b ∧ R a b := by
  constructor
  · rintro (⟨h⟩ | e)
    · exact .inr ⟨_, _, rfl, rfl, h⟩
    · exact .inl ⟨e, rfl, rfl⟩
  · rintro (⟨e, rfl, rfl⟩ | ⟨a, b, rfl, rfl, h⟩)
    · exact .error e
    · exact .ok h

namespace Concur

variable {α β γ δ : Type} {R : α → β → Prop} {S : γ → δ → Prop}

theorem bind {x : Except EvalError α} {y : Except EvalError β} {f : α → Except EvalError γ}
    {g : β → Except EvalError δ} (h : Concur R x y) (hfg : ∀ a b, R a b → Concur S (f a) (g b)) :
    Concur S (x >>= f) (y >>= g) := by
  cases h with
  | ok h => exact hfg _ _ h
  | error e => exact .error e

/-- Both go on with what they have in common. -/
theorem bind_same {x : Except EvalError α} {f : α → Except EvalError γ} {g : α → Except EvalError δ}
    (h : ∀ a, x = .ok a → Concur S (f a) (g a)) : Concur S (x >>= f) (x >>= g) := by
  cases x with
  | ok a => exact h a rfl
  | error e => exact .error e

theorem mapM {as : List α} {bs : List β} {f : α → Except EvalError γ} {g : β → Except EvalError δ}
    (h : List.Forall₂ R as bs) (hfg : ∀ a b, R a b → Concur S (f a) (g b)) :
    Concur (List.Forall₂ S) (as.mapM f) (bs.mapM g) := by
  induction h with
  | nil => exact .ok .nil
  | cons hab _ ih =>
    rw [List.mapM_cons, List.mapM_cons]
    exact (hfg _ _ hab).bind fun _ _ hcd => ih.bind fun _ _ hrest => .ok (.cons hcd hrest)

theorem refl {x : Except EvalError α} : Concur (· = ·) x x := by
  cases x with
  | ok a => exact .ok rfl
  | error e => exact .error e

end Concur

/-- An outcome, and what is left when it came. -/
def Ends {α β γ : Type} (R : β → γ → Prop) (x : α × β) (y : α × γ) : Prop :=
  x.1 = y.1 ∧ R x.2 y.2

/-! ## Refusals -/

/-- Outcomes that agree, unless the second computation is refused memory, for the reason
given. -/
def Withstands {α β : Type} (P : Prop) (R : α → β → Prop) (x : Except EvalError α)
    (y : Except EvalError β) : Prop :=
  ((∃ n, y = .error (.allocation n)) ∧ P) ∨ Concur R x y

namespace Withstands

variable {α β γ δ : Type} {P : Prop} {R : α → β → Prop} {S : γ → δ → Prop}

theorem bind {x : Except EvalError α} {y : Except EvalError β} {f : α → Except EvalError γ}
    {g : β → Except EvalError δ} (h : Withstands P R x y)
    (hfg : ∀ a b, R a b → Withstands P S (f a) (g b)) : Withstands P S (x >>= f) (y >>= g) := by
  rcases h with ⟨⟨n, rfl⟩, hP⟩ | h
  · exact .inl ⟨⟨n, rfl⟩, hP⟩
  · cases h with
    | ok h => exact hfg _ _ h
    | error e => exact .inr (.error e)

theorem imp {R' : α → β → Prop} {x : Except EvalError α} {y : Except EvalError β}
    (h : Withstands P R x y) (himp : ∀ a b, R a b → R' a b) : Withstands P R' x y := by
  rcases h with h | h
  · exact .inl h
  · cases h with
    | ok h => exact .inr (.ok (himp _ _ h))
    | error e => exact .inr (.error e)

theorem mapM {R : γ → α → β → Prop} {f : γ → Except EvalError α} {g : γ → Except EvalError β}
    (as : List γ) (h : ∀ a ∈ as, Withstands P (R a) (f a) (g a)) :
    Withstands P (fun bs cs => ∀ i : Nat, Option.Rel (fun b c => ∃ a, as[i]? = some a ∧ R a b c)
      bs[i]? cs[i]?) (as.mapM f) (as.mapM g) := by
  induction as with
  | nil => exact .inr (.ok fun _ => .none)
  | cons a as ih =>
    rw [List.mapM_cons, List.mapM_cons]
    refine (h a (.head _)).bind fun b c hbc => ?_
    refine (ih fun a ha => h a (.tail _ ha)).bind fun bs cs hrest => .inr (.ok fun i => ?_)
    cases i with
    | zero => exact .some ⟨a, rfl, hbc⟩
    | succ i => exact hrest i

theorem forall₂_mapM {as : List α} {bs : List β} {f : α → Except EvalError γ}
    {g : β → Except EvalError δ} (h : List.Forall₂ R as bs)
    (hfg : ∀ a b, R a b → Withstands P S (f a) (g b)) :
    Withstands P (List.Forall₂ S) (as.mapM f) (bs.mapM g) := by
  induction h with
  | nil => exact .inr (.ok .nil)
  | cons hab _ ih =>
    rw [List.mapM_cons, List.mapM_cons]
    refine (hfg _ _ hab).bind fun _ _ hcd => ih.bind fun _ _ hrest => ?_
    exact .inr (.ok (.cons hcd hrest))

end Withstands

/-- Outcomes that agree together with what is left, unless the second computation is refused
memory. -/
def Concludes {α β γ : Type} (P : Prop) (R : β → γ → Prop) (x : Except EvalError α × β)
    (y : Except EvalError α × γ) : Prop :=
  ((∃ n, y.1 = .error (.allocation n)) ∧ P) ∨ Ends R x y

theorem Concludes.withstands {α β γ : Type} {P : Prop} {R : β → γ → Prop}
    {x : Except EvalError α × β} {y : Except EvalError α × γ} (h : Concludes P R x y) :
    Withstands P R (x.1.map fun _ => x.2) (y.1.map fun _ => y.2) := by
  rcases h with ⟨⟨n, hn⟩, hP⟩ | ⟨hresult, hend⟩
  · refine .inl ⟨⟨n, ?_⟩, hP⟩
    rw [hn]
    rfl
  · rw [hresult]
    cases y.1 with
    | ok _ => exact .inr (.ok hend)
    | error e => exact .inr (.error e)

end Lanewise
