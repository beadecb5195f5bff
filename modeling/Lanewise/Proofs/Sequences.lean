import Mathlib.Data.List.Forall2

/-!
# Computations with failures

Steps one after the other in `Except`, and `List.mapM` in `Option` and `Except`,
element by element.
-/

namespace Lanewise

variable {α β ε : Type}

/-- Two steps go well when each of them does. -/
theorem bind_eq_ok_iff {x : Except ε α} {f : α → Except ε β} {b : β} :
    (x >>= f) = .ok b ↔ ∃ a, x = .ok a ∧ f a = .ok b := by
  cases x <;> simp [bind, Except.bind]

theorem bind_eq_error_iff {x : Except ε α} {f : α → Except ε β} {e : ε} :
    (x >>= f) = .error e ↔ x = .error e ∨ ∃ a, x = .ok a ∧ f a = .error e := by
  cases x <;> simp [bind, Except.bind]

/-- A step that only checks something, before another one. -/
theorem check_bind_eq_ok_iff {x : Except ε PUnit} {f : PUnit → Except ε β} {b : β} :
    (x >>= f) = .ok b ↔ x = .ok () ∧ f () = .ok b :=
  bind_eq_ok_iff.trans ⟨fun ⟨_, h⟩ => h, fun h => ⟨(), h⟩⟩

/-- Checks in a row all pass, when they do one by one. -/
theorem forM_eq_ok_iff {f : α → Except ε PUnit} {as : List α} :
    as.forM f = .ok () ↔ ∀ a ∈ as, f a = .ok () := by
  induction as with
  | nil => simp [pure, Except.pure]
  | cons a as ih =>
    rw [List.forM_eq_forM] at ih ⊢
    rw [List.forM_cons, check_bind_eq_ok_iff, ih, List.forall_mem_cons]

/-- Checks in a row fail at the first one that does. -/
theorem forM_eq_error_iff {f : α → Except ε PUnit} {as : List α} {e : ε} :
    as.forM f = .error e ↔
      ∃ before a after, as = before ++ a :: after ∧ (∀ b ∈ before, f b = .ok ()) ∧
        f a = .error e := by
  induction as with
  | nil => simp [pure, Except.pure]
  | cons a as ih =>
    rw [List.forM_eq_forM] at ih ⊢
    rw [List.forM_cons, bind_eq_error_iff]
    constructor
    · rintro (ha | ⟨_, ha, has⟩)
      · exact ⟨[], a, as, rfl, by simp, ha⟩
      · obtain ⟨before, first, after, rfl, hbefore, hfirst⟩ := ih.1 has
        exact ⟨a :: before, first, after, rfl, List.forall_mem_cons.2 ⟨ha, hbefore⟩, hfirst⟩
    · rintro ⟨before, first, after, has, hbefore, hfirst⟩
      cases before with
      | nil =>
        obtain ⟨rfl, rfl⟩ := List.cons.inj has
        exact .inl hfirst
      | cons b before =>
        obtain ⟨rfl, rfl⟩ := List.cons.inj has
        obtain ⟨ha, hbefore⟩ := List.forall_mem_cons.1 hbefore
        exact .inr ⟨(), ha, ih.2 ⟨before, first, after, rfl, hbefore, hfirst⟩⟩

/-- A result that can be computed, with what can be computed from it. -/
theorem exists_eq_ok_of_any {x : Except ε α} {P : α → Bool} (h : x.toOption.any P = true) :
    ∃ a, x = .ok a ∧ P a = true := by
  cases x with
  | error e => cases h
  | ok a => exact ⟨a, rfl, h⟩

theorem exists_eq_ok_of_isSome {x : Except ε α} (h : x.toOption.isSome = true) :
    ∃ a, x = .ok a := by
  cases x with
  | error e => cases h
  | ok a => exact ⟨a, rfl⟩

theorem mapM_eq_some_iff {f : α → Option β} {as : List α} {bs : List β} :
    as.mapM f = some bs ↔ List.Forall₂ (fun a b => f a = some b) as bs := by
  induction as generalizing bs with
  | nil => simp
  | cons a as ih =>
    simp only [List.mapM_cons, Option.bind_eq_bind, Option.bind_eq_some_iff, Option.pure_def,
      Option.some.injEq, ih, List.forall₂_cons_left_iff]
    constructor
    · rintro ⟨b, hb, bs, hbs, rfl⟩
      exact ⟨b, bs, hb, hbs, rfl⟩
    · rintro ⟨b, bs, hb, hbs, rfl⟩
      exact ⟨b, hb, bs, hbs, rfl⟩

theorem mapM_eq_ok_iff {f : α → Except ε β} {as : List α} {bs : List β} :
    as.mapM f = .ok bs ↔ List.Forall₂ (fun a b => f a = .ok b) as bs := by
  induction as generalizing bs with
  | nil => simp [pure, Except.pure, eq_comm]
  | cons a as ih =>
    rw [List.mapM_cons, List.forall₂_cons_left_iff]
    cases ha : f a with
    | error e => simp [bind, Except.bind]
    | ok b =>
      cases has : as.mapM f with
      | error e =>
        have : ∀ bs, ¬ List.Forall₂ (fun a b => f a = .ok b) as bs := by
          intro bs hbs
          rw [ih.2 hbs] at has
          cases has
        simp [bind, Except.bind, this]
      | ok bs' =>
        simp only [bind, Except.bind, pure, Except.pure, Except.ok.injEq]
        constructor
        · rintro rfl
          exact ⟨b, bs', rfl, ih.1 has, rfl⟩
        · rintro ⟨_, bs'', rfl, hbs, rfl⟩
          rw [ih.2 hbs] at has
          cases has
          rfl

theorem exists_of_mem_of_forall₂ {R : α → β → Prop} {as : List α} {bs : List β}
    (h : List.Forall₂ R as bs) {b : β} (hb : b ∈ bs) : ∃ a ∈ as, R a b := by
  induction h with
  | nil => cases hb
  | cons hR _ ih =>
    rcases List.mem_cons.1 hb with rfl | hb
    · exact ⟨_, .head _, hR⟩
    · obtain ⟨a, ha, hR⟩ := ih hb
      exact ⟨a, .tail _ ha, hR⟩

/-- Relations between lists compose as those between their elements do. -/
theorem forall₂_trans {γ : Type} {R : α → β → Prop} {S : β → γ → Prop} {T : α → γ → Prop}
    (htrans : ∀ {a b c}, R a b → S b c → T a c) {as : List α} {bs : List β} {cs : List γ}
    (h : List.Forall₂ R as bs) (h' : List.Forall₂ S bs cs) : List.Forall₂ T as cs := by
  induction h generalizing cs with
  | nil =>
    obtain rfl := List.forall₂_nil_left_iff.1 h'
    exact .nil
  | cons hR _ ih =>
    obtain ⟨c, rest, hS, hrest, rfl⟩ := List.forall₂_cons_left_iff.1 h'
    exact .cons (htrans hR hS) (ih hrest)

/-- Where every element maps well, the results stand in the same relation. -/
theorem exists_mapM_eq_ok {f : α → Except ε β} {P : α → β → Prop} (as : List α)
    (h : ∀ a ∈ as, ∃ b, f a = .ok b ∧ P a b) :
    ∃ bs, as.mapM f = .ok bs ∧ List.Forall₂ P as bs := by
  induction as with
  | nil => exact ⟨[], rfl, .nil⟩
  | cons a as ih =>
    obtain ⟨b, hb, hP⟩ := h a (by simp)
    obtain ⟨bs, hbs, hrest⟩ := ih fun a ha => h a (by simp [ha])
    exact ⟨b :: bs, by simp [List.mapM_cons, hb, hbs, bind, Except.bind, pure, Except.pure],
      .cons hP hrest⟩

/-- Results that map well themselves. -/
theorem exists_mapM_eq_ok_of_forall₂ {γ : Type} {f : β → Except ε γ} {P : α → β → Prop}
    {Q : α → γ → Prop} {as : List α} {bs : List β} (h : List.Forall₂ P as bs)
    (hf : ∀ a b, P a b → ∃ c, f b = .ok c ∧ Q a c) :
    ∃ cs, bs.mapM f = .ok cs ∧ List.Forall₂ Q as cs := by
  induction h with
  | nil => exact ⟨[], rfl, .nil⟩
  | @cons a b _ _ hP _ ih =>
    obtain ⟨c, hc, hQ⟩ := hf a b hP
    obtain ⟨cs, hcs, hrest⟩ := ih
    exact ⟨c :: cs, by simp [List.mapM_cons, hc, hcs, bind, Except.bind, pure, Except.pure],
      .cons hQ hrest⟩

/-! ## Places in a list -/

/-- Something holds wherever a list is taken apart at an element, if it does at
every index. -/
theorem forall_append_cons_iff {l : List α} {P : List α → α → Prop} :
    (∀ before a after, l = before ++ a :: after → P before a) ↔
      ∀ i (h : i < l.length), P (l.take i) l[i] := by
  constructor
  · intro h i hi
    refine h (l.take i) l[i] (l.drop (i + 1)) ?_
    rw [← List.drop_eq_getElem_cons hi, List.take_append_drop]
  · rintro h before a after rfl
    have := h before.length (by simp)
    simpa using this

theorem zip_eraseIdx (as : List α) (bs : List β) (i : Nat) (h : bs.length = as.length) :
    (as.eraseIdx i).zip (bs.eraseIdx i) = (as.zip bs).eraseIdx i := by
  simp only [List.eraseIdx_eq_take_drop_succ, List.zip, List.take_zipWith, List.drop_zipWith]
  rw [List.zipWith_append (by simp [h])]

end Lanewise
