import Mathlib.Algebra.Order.Field.Basic
import Mathlib.Data.List.Count
import Mathlib.Tactic.Linarith

/-! A token bucket.  It fills at a rate up to its capacity, and each grant takes one token out.  In
exact arithmetic and with a clock that never runs backwards, the grants in any closed window of time
are at most the capacity and what flows in during the window. -/

namespace Library

/-- The level of the bucket when it was last refilled. -/
structure Bucket (K : Type) where
  last : K
  level : K

namespace Bucket

variable {K : Type} [Field K] [LinearOrder K]

def refill (rate capacity now : K) (b : Bucket K) : Bucket K where
  last := now
  level := min (b.level + max (now - b.last) 0 * rate) capacity

def take (b : Bucket K) : Bucket K := { b with level := b.level - 1 }

/-- The number of grants from `s` to `t`. -/
def granted (grants : List K) (s t : K) : Nat := grants.countP fun g => s ≤ g ∧ g ≤ t

/-- The bucket and the times of its grants so far: what `s` to now has used is bounded by the
capacity, the inflow, and what is left. -/
structure Metered (rate capacity : K) (b : Bucket K) (grants : List K) : Prop where
  nonneg : 0 ≤ b.level
  capped : b.level ≤ capacity
  past : ∀ g ∈ grants, g ≤ b.last
  since : ∀ s, s ≤ b.last →
    (grants.countP (s ≤ ·) : K) + b.level ≤ capacity + rate * (b.last - s)
  window : ∀ s t, s ≤ t → (granted grants s t : K) ≤ capacity + rate * (t - s)

variable {rate capacity : K} [IsStrictOrderedRing K]

theorem Metered.full (hrate : 0 ≤ rate) (hcapacity : 0 ≤ capacity) (now : K) :
    Metered rate capacity ⟨now, capacity⟩ [] where
  nonneg := hcapacity
  capped := le_rfl
  past := by simp
  since s hs := by
    have := mul_nonneg hrate (sub_nonneg.mpr hs)
    simpa using this
  window s t hst := by
    have := mul_nonneg hrate (sub_nonneg.mpr hst)
    simp only [granted, List.countP_nil, Nat.cast_zero]
    linarith

variable {b : Bucket K} {grants : List K}

theorem Metered.refill (h : Metered rate capacity b grants) (hrate : 0 ≤ rate) {now : K}
    (hnow : b.last ≤ now) : Metered rate capacity (b.refill rate capacity now) grants := by
  have helapsed : max (now - b.last) 0 = now - b.last := max_eq_left (sub_nonneg.mpr hnow)
  have hinflow := mul_nonneg (sub_nonneg.mpr hnow) hrate
  have hlevel : (b.refill rate capacity now).level ≤ b.level + (now - b.last) * rate := by
    simp only [Bucket.refill, helapsed]
    exact min_le_left _ _
  have hcapped : (b.refill rate capacity now).level ≤ capacity := min_le_right _ _
  have hcapacity : 0 ≤ capacity := h.nonneg.trans h.capped
  refine ⟨?_, hcapped, fun g hg => (h.past g hg).trans hnow, fun s hs => ?_, h.window⟩
  · simp only [Bucket.refill, helapsed]
    exact le_min (by linarith [h.nonneg]) hcapacity
  · by_cases hold : s ≤ b.last
    · have hsince := h.since s hold
      show (grants.countP (s ≤ ·) : K) + (b.refill rate capacity now).level ≤
        capacity + rate * (now - s)
      linarith
    · -- nothing was granted since the last refill
      have hnone : grants.countP (s ≤ ·) = 0 := by
        rw [List.countP_eq_zero]
        intro g hg
        have := h.past g hg
        simp only [decide_eq_true_eq, not_le]
        exact this.trans_lt (not_le.mp hold)
      have hflow := mul_nonneg hrate (sub_nonneg.mpr hs)
      rw [hnone, Nat.cast_zero, zero_add]
      linarith

theorem Metered.take (h : Metered rate capacity b grants) (hrate : 0 ≤ rate)
    (hlevel : 1 ≤ b.level) :
    Metered rate capacity b.take (b.last :: grants) := by
  have hsince : ∀ s, s ≤ b.last →
      (((b.last :: grants).countP (s ≤ ·) : Nat) : K) + (b.level - 1) ≤
        capacity + rate * (b.last - s) := by
    intro s hs
    have := h.since s hs
    rw [List.countP_cons_of_pos (by simpa using hs), Nat.cast_add, Nat.cast_one]
    linarith
  refine ⟨sub_nonneg.mpr hlevel, ?_, ?_, hsince, fun s t hst => ?_⟩
  · simp only [Bucket.take]
    linarith [h.capped]
  · intro g hg
    rcases List.mem_cons.mp hg with rfl | hg
    · exact le_rfl
    · exact h.past g hg
  · by_cases hin : s ≤ b.last ∧ b.last ≤ t
    · -- every grant up to now that is not before `s` counts
      have hcount : granted (b.last :: grants) s t ≤ (b.last :: grants).countP (s ≤ ·) := by
        apply List.countP_mono_left
        intro g _ hg
        simp only [decide_eq_true_eq] at hg ⊢
        exact hg.1
      have hcast : (granted (b.last :: grants) s t : K) ≤
          ((b.last :: grants).countP (s ≤ ·) : Nat) := Nat.cast_le.mpr hcount
      have hused := hsince s hin.1
      have hflow := mul_le_mul_of_nonneg_left (sub_le_sub_right hin.2 s) hrate
      linarith
    · have hcount : granted (b.last :: grants) s t = granted grants s t :=
        List.countP_cons_of_neg (by simpa using hin)
      rw [hcount]
      exact h.window s t hst

end Bucket

end Library
