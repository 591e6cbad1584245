import Mathlib.Order.Defs.PartialOrder

/-! Checks that stop at the first error, compared with the list of everything that is wrong.  A
result reports a class of defects when it succeeds where there is none, and otherwise names one with
no other before it; checks one after another, and over a list, report what their parts report. -/

namespace Library

variable {ε α π : Type} [Preorder π] {place : ε → π}

/-- Success where there are no defects, and otherwise the one at the least place. -/
def Reports (place : ε → π) (P : ε → Prop) : Except ε Unit → Prop
  | .ok () => ∀ e, ¬P e
  | .error e => P e ∧ ∀ e', P e' → place e ≤ place e'

theorem Reports.ok_iff {P : ε → Prop} {result : Except ε Unit} (h : Reports place P result) :
    result = .ok () ↔ ∀ e, ¬P e := by
  cases result with
  | ok u => exact iff_of_true rfl h
  | error e => exact iff_of_false (by simp) fun hnone => hnone e h.1

theorem Reports.congr {P Q : ε → Prop} {result : Except ε Unit} (h : Reports place P result)
    (hiff : ∀ e, P e ↔ Q e) : Reports place Q result := by
  cases result with
  | ok u => exact fun e he => h e ((hiff e).mpr he)
  | error e => exact ⟨(hiff e).mp h.1, fun e' he' => h.2 e' ((hiff e').mpr he')⟩

/-- A condition with an error of its own, checked before the rest. -/
theorem reports_guard {bad : Prop} [Decidable bad] {error : ε} {Q : ε → Prop}
    {rest : Except ε Unit} (hrest : Reports place Q rest)
    (hplace : ∀ e, Q e → place error ≤ place e) :
    Reports place (fun e => (bad ∧ e = error) ∨ Q e) (if bad then .error error else rest) := by
  by_cases hbad : bad
  · rw [if_pos hbad]
    refine ⟨Or.inl ⟨hbad, rfl⟩, ?_⟩
    rintro e (⟨-, rfl⟩ | hQ)
    · exact le_rfl
    · exact hplace e hQ
  · rw [if_neg hbad]
    exact hrest.congr fun e => by simp [hbad]

/-- The last of the checks. -/
theorem reports_last {bad : Prop} [Decidable bad] {error : ε} :
    Reports place (fun e => bad ∧ e = error) (if bad then .error error else .ok ()) := by
  by_cases hbad : bad
  · rw [if_pos hbad]
    exact ⟨⟨hbad, rfl⟩, fun e he => he.2 ▸ le_rfl⟩
  · rw [if_neg hbad]
    exact fun e he => hbad he.1

def andThen (first rest : Except ε Unit) : Except ε Unit :=
  match first with
  | .error e => .error e
  | .ok () => rest

theorem reports_andThen {P Q : ε → Prop} {first rest : Except ε Unit}
    (hfirst : Reports place P first) (hrest : Reports place Q rest)
    (hplace : ∀ e e', P e → Q e' → place e ≤ place e') :
    Reports place (fun e => P e ∨ Q e) (andThen first rest) := by
  cases first with
  | error e =>
    refine ⟨Or.inl hfirst.1, ?_⟩
    rintro e' (hP | hQ)
    · exact hfirst.2 e' hP
    · exact hplace e e' hfirst.1 hQ
  | ok u => exact hrest.congr fun e => by simp [hfirst e]

/-- The items of a list with their numbers, from `n` on. -/
def Numbered (n : Nat) (l : List α) (k : Nat) (a : α) : Prop := n ≤ k ∧ l[k - n]? = some a

theorem numbered_zero {l : List α} {k : Nat} {a : α} : Numbered 0 l k a ↔ l[k]? = some a := by
  simp [Numbered]

theorem numbered_cons {n k : Nat} {first a : α} {rest : List α} :
    Numbered n (first :: rest) k a ↔ (k = n ∧ a = first) ∨ Numbered (n + 1) rest k a := by
  unfold Numbered
  constructor
  · rintro ⟨hle, hk⟩
    by_cases heq : k = n
    · subst heq
      exact Or.inl ⟨rfl, by simpa using hk.symm⟩
    · right
      rw [show k - n = k - (n + 1) + 1 by omega, List.getElem?_cons_succ] at hk
      exact ⟨by omega, hk⟩
  · rintro (⟨rfl, rfl⟩ | ⟨hle, hk⟩)
    · simp
    · rw [show k - n = k - (n + 1) + 1 by omega, List.getElem?_cons_succ]
      exact ⟨by omega, hk⟩

/-- A check of each item in order. -/
def checkEach (check : Nat → α → Except ε Unit) : Nat → List α → Except ε Unit
  | _, [] => .ok ()
  | n, a :: rest => andThen (check n a) (checkEach check (n + 1) rest)

theorem reports_each {check : Nat → α → Except ε Unit} {P : Nat → α → ε → Prop}
    (hcheck : ∀ n a, Reports place (P n a) (check n a))
    (hplace : ∀ {j k a b e e'}, j < k → P j a e → P k b e' → place e ≤ place e')
    (n : Nat) (l : List α) :
    Reports place (fun e => ∃ k a, Numbered n l k a ∧ P k a e) (checkEach check n l) := by
  induction l generalizing n with
  | nil =>
    rintro e ⟨k, a, ⟨-, hk⟩, -⟩
    simp at hk
  | cons first rest ih =>
    refine (reports_andThen (hcheck n first) (ih (n + 1)) ?_).congr fun e => ?_
    · rintro e e' hfirst ⟨k, a, ⟨hle, -⟩, hrest⟩
      exact hplace (by omega) hfirst hrest
    · constructor
      · rintro (hfirst | ⟨k, a, hk, hrest⟩)
        · exact ⟨n, first, numbered_cons.mpr (Or.inl ⟨rfl, rfl⟩), hfirst⟩
        · exact ⟨k, a, numbered_cons.mpr (Or.inr hk), hrest⟩
      · rintro ⟨k, a, hk, hdefect⟩
        rcases numbered_cons.mp hk with ⟨rfl, rfl⟩ | hk
        · exact Or.inl hdefect
        · exact Or.inr ⟨k, a, hk, hdefect⟩

end Library
