import Mathlib.Data.List.Forall2

/-! Computations that may fail, one after another and over a list. -/

namespace Library

theorem bind_ok {ε α β : Type} {first : Except ε α} {next : α → Except ε β} {b : β} :
    (first >>= next) = .ok b ↔ ∃ a, first = .ok a ∧ next a = .ok b := by
  cases first <;> simp [bind, Except.bind]

theorem map_ok {ε α β : Type} {f : α → β} {result : Except ε α} {b : β} :
    result.map f = .ok b ↔ ∃ a, result = .ok a ∧ f a = b := by
  cases result <;> simp [Except.map]

theorem mapError_ok {ε ε' α : Type} {f : ε → ε'} {result : Except ε α} {a : α} :
    result.mapError f = .ok a ↔ result = .ok a := by
  cases result <;> simp [Except.mapError]

/-- A result satisfies `P`, or the error satisfies `Q`. -/
def Outcome {ε α : Type} (P : α → Prop) (Q : ε → Prop) : Except ε α → Prop
  | .ok a => P a
  | .error e => Q e

theorem outcome_bind {ε α β : Type} {P : β → Prop} {Q : ε → Prop} {first : Except ε α}
    {next : α → Except ε β} (hfirst : Outcome (fun a => Outcome P Q (next a)) Q first) :
    Outcome P Q (first >>= next) := by
  cases first with
  | ok a => exact hfirst
  | error e => exact hfirst

theorem outcome_mapError {ε ε' α : Type} {P : α → Prop} {Q : ε' → Prop} {f : ε → ε'}
    {result : Except ε α} (hok : ∀ a, result = .ok a → P a)
    (herror : ∀ e, result = .error e → Q (f e)) : Outcome P Q (result.mapError f) := by
  cases result with
  | ok a => exact hok a rfl
  | error e => exact herror e rfl

theorem Outcome.map {ε α β : Type} {P : β → Prop} {Q : ε → Prop} {f : α → β} {result : Except ε α}
    (h : Outcome (fun a => P (f a)) Q result) : Outcome P Q (result.map f) := by
  cases result with
  | ok a => exact h
  | error e => exact h

theorem Outcome.mono {ε α : Type} {P P' : α → Prop} {Q : ε → Prop} {result : Except ε α}
    (h : Outcome P Q result) (himp : ∀ a, P a → P' a) : Outcome P' Q result := by
  cases result with
  | ok a => exact himp a h
  | error e => exact h

theorem mapM_eq_ok {ε α β : Type} {f : α → Except ε β} {l : List α} {out : List β} :
    l.mapM f = .ok out ↔ List.Forall₂ (fun a b => f a = .ok b) l out := by
  induction l generalizing out with
  | nil =>
    simp only [List.mapM_nil, List.forall₂_nil_left_iff]
    exact ⟨fun h => (Except.ok.inj h).symm, fun h => h ▸ rfl⟩
  | cons a l ih =>
    rw [List.mapM_cons, List.forall₂_cons_left_iff]
    cases hfirst : f a with
    | error e => simp [bind, Except.bind]
    | ok b =>
      cases hrest : l.mapM f with
      | error e =>
        simp only [← ih, hrest]
        simp [bind, Except.bind]
      | ok bs =>
        simp only [← ih, hrest, bind, Except.bind, pure, Except.pure, Except.ok.injEq]
        constructor
        · rintro rfl
          exact ⟨b, bs, rfl, rfl, rfl⟩
        · rintro ⟨b', bs', rfl, rfl, rfl⟩
          rfl

theorem mapM_map_ok {ε α β γ : Type} {g : α → Except ε β} {F : α → β → γ} {l : List α}
    {bs : List β} (h : List.Forall₂ (fun a b => g a = .ok b) l bs) :
    (l.mapM fun a => (g a).map (F a)) = .ok (List.zipWith F l bs) := by
  rw [mapM_eq_ok]
  induction h with
  | nil => exact .nil
  | cons hab _ ih => exact .cons (by rw [hab]; rfl) ih

/-- Where a step fails, what is made of the others does not matter. -/
theorem mapM_map_error {ε α β : Type} {g : α → Except ε β} {l : List α}
    (h : ¬∀ a ∈ l, ∃ b, g a = .ok b) :
    ∃ e, ∀ {γ : Type} (F : α → β → γ), (l.mapM fun a => (g a).map (F a)) = .error e := by
  induction l with
  | nil => simp at h
  | cons a l ih =>
    cases hfirst : g a with
    | error e =>
      refine ⟨e, fun F => ?_⟩
      rw [List.mapM_cons, hfirst]
      rfl
    | ok b =>
      obtain ⟨e, he⟩ := ih fun hall => h fun a' ha' => by
        rcases List.mem_cons.mp ha' with rfl | ha'
        · exact ⟨b, hfirst⟩
        · exact hall a' ha'
      refine ⟨e, fun F => ?_⟩
      rw [List.mapM_cons, hfirst, he]
      rfl

theorem exists_forall₂ {α β : Type} {R : α → β → Prop} {l : List α} (h : ∀ a ∈ l, ∃ b, R a b) :
    ∃ m, List.Forall₂ R l m := by
  induction l with
  | nil => exact ⟨[], .nil⟩
  | cons a l ih =>
    obtain ⟨b, hab⟩ := h a List.mem_cons_self
    obtain ⟨m, hm⟩ := ih fun a' ha' => h a' (List.mem_cons_of_mem _ ha')
    exact ⟨b :: m, .cons hab hm⟩

/-- What is made of the results of steps is the same exactly when it is so for each step, provided
that none of them fails. -/
theorem mapM_map_congr_iff {ε α β γ : Type} {g : α → Except ε β} {F G : α → β → γ} {l : List α} :
    (l.mapM fun a => (g a).map (F a)) = (l.mapM fun a => (g a).map (G a)) ↔
      ((∀ a ∈ l, ∃ b, g a = .ok b) → ∀ a ∈ l, ∀ b, g a = .ok b → F a b = G a b) := by
  by_cases hall : ∀ a ∈ l, ∃ b, g a = .ok b
  · obtain ⟨bs, hbs⟩ := exists_forall₂ hall
    rw [mapM_map_ok hbs, mapM_map_ok hbs, Except.ok.injEq, imp_iff_right hall]
    clear hall
    induction hbs with
    | nil => simp
    | @cons a b l bs hab _ ih =>
      simp only [List.zipWith_cons_cons, List.cons.injEq, ih, List.forall_mem_cons, hab,
        Except.ok.injEq, forall_eq']
  · obtain ⟨e, he⟩ := mapM_map_error hall
    simp only [he, hall, false_imp_iff]

theorem forall₂_mem_left {α β : Type} {R : α → β → Prop} {l : List α} {m : List β}
    (h : List.Forall₂ R l m) : ∀ a ∈ l, ∃ b ∈ m, R a b := by
  induction h with
  | nil => simp
  | cons hab _ ih =>
    intro a ha
    rcases List.mem_cons.mp ha with rfl | ha
    · exact ⟨_, List.mem_cons_self, hab⟩
    · obtain ⟨b, hb, hab⟩ := ih a ha
      exact ⟨b, List.mem_cons_of_mem _ hb, hab⟩

end Library
