import Mathlib.Algebra.Order.Field.Power
import Mathlib.Data.Int.ConditionallyCompleteOrder
import Mathlib.Data.Int.Log
import Mathlib.Data.Rat.Floor
import Mathlib.Tactic.Linarith
import Mathlib.Tactic.Positivity

/-! Binary floating-point numbers and their rounding.  A finite number is a rational with a bounded
mantissa and exponent, and the two zeros are one.  Results are rounded as if exponents had no upper
end, so that they are those of the machine while they stay below its largest number. -/

namespace Library

structure FloatFormat where
  precision : Nat
  minExponent : Int
  maxExponent : Int
  positive : 0 < precision

def binary32 : FloatFormat := ⟨24, -149, 104, by decide⟩

def binary64 : FloatFormat := ⟨53, -1074, 971, by decide⟩

def FloatFormat.Value (format : FloatFormat) (x : ℚ) : Prop :=
  ∃ mantissa exponent : ℤ, |mantissa| < 2 ^ format.precision ∧
    format.minExponent ≤ exponent ∧ exponent ≤ format.maxExponent ∧ x = mantissa * 2 ^ exponent

inductive FloatNumber (format : FloatFormat) where
  | nan
  | infinite (negative : Bool)
  | finite (value : ℚ) (valid : format.Value value)

def FloatNumber.isNegative {format : FloatFormat} : FloatNumber format → Bool
  | .nan => false
  | .infinite negative => negative
  | .finite value _ => value < 0

def FloatNumber.isPositive {format : FloatFormat} : FloatNumber format → Bool
  | .nan => false
  | .infinite negative => !negative
  | .finite value _ => 0 < value

/-- A rounding to the numbers of a format: it keeps the order and the numbers of the format. -/
structure Rounding (format : FloatFormat) where
  round : ℚ → ℚ
  mono : Monotone round
  value : ∀ {x}, format.Value x → round x = x

def Rounding.exact (format : FloatFormat) : Rounding format := ⟨id, monotone_id, fun _ => rfl⟩

theorem FloatFormat.Value.natCast {format : FloatFormat} {n : Nat} (h : n < 2 ^ format.precision)
    (hmin : format.minExponent ≤ 0) (hmax : 0 ≤ format.maxExponent) : format.Value n := by
  refine ⟨n, 0, ?_, hmin, hmax, by simp⟩
  rw [Nat.abs_cast]
  exact_mod_cast h

theorem FloatFormat.Value.twoPow {format : FloatFormat} {e : ℤ} (hmin : format.minExponent ≤ e)
    (hmax : e ≤ format.maxExponent) : format.Value (2 ^ e) := by
  refine ⟨1, e, ?_, hmin, hmax, by simp⟩
  rw [abs_one]
  exact one_lt_pow₀ (by decide) format.positive.ne'

theorem Rounding.round_natCast (r : Rounding binary64) {n : Nat} (h : n < 2 ^ 53) :
    r.round n = n := r.value (.natCast h (by decide) (by decide))

theorem Rounding.round_zero (r : Rounding binary64) : r.round 0 = 0 := by
  exact_mod_cast r.round_natCast (show 0 < 2 ^ 53 by decide)

theorem Rounding.round_one (r : Rounding binary64) : r.round 1 = 1 := by
  exact_mod_cast r.round_natCast (show 1 < 2 ^ 53 by decide)

theorem Rounding.round_nonneg (r : Rounding binary64) {x : ℚ} (h : 0 ≤ x) : 0 ≤ r.round x := by
  calc 0 = r.round 0 := r.round_zero.symm
    _ ≤ r.round x := r.mono h

/-- A number of the format above a power of two is at least the next one of its precision. -/
theorem FloatFormat.Value.next {x : ℚ} {e : ℤ} {format : FloatFormat} (h : format.Value x)
    (hlt : 2 ^ e < x) : 2 ^ e + 2 ^ (e + 1 - format.precision) ≤ x := by
  obtain ⟨m, k, hm, -, -, rfl⟩ := h
  obtain ⟨p, hp⟩ : ∃ p, format.precision = p + 1 := ⟨format.precision - 1, by
    have := format.positive
    omega⟩
  rw [hp] at hm ⊢
  obtain ⟨last, rfl⟩ : ∃ last : ℤ, e = last + p := ⟨e - p, by omega⟩
  rw [show last + p + 1 - (p + 1 : ℕ) = last by push_cast; ring]
  have hmantissa : (m : ℚ) < 2 ^ (p + 1) := by exact_mod_cast (le_abs_self m).trans_lt hm
  rcases lt_or_ge k last with hk | hk
  · -- a number with a smaller exponent does not reach the power
    exfalso
    have hle : (2 : ℚ) ^ (p + 1) * 2 ^ k ≤ 2 ^ (last + p) := by
      rw [← zpow_natCast, ← zpow_add₀ (by norm_num)]
      exact zpow_le_zpow_right₀ (by norm_num) (by push_cast; omega)
    have := mul_lt_mul_of_pos_right hmantissa (show (0 : ℚ) < 2 ^ k by positivity)
    linarith
  · -- both are multiples of the last bit
    obtain ⟨j, rfl⟩ : ∃ j : ℕ, k = last + j := ⟨(k - last).toNat, by omega⟩
    have hpos : (0 : ℚ) < 2 ^ last := by positivity
    rw [zpow_add₀ (by norm_num), zpow_natCast] at hlt ⊢
    rw [zpow_add₀ (by norm_num), zpow_natCast] at hlt ⊢
    have hint : (2 : ℤ) ^ p < m * 2 ^ j := by
      have : (2 : ℚ) ^ p < m * 2 ^ j := by
        by_contra hnot
        have := mul_le_mul_of_nonneg_right (not_lt.mp hnot) hpos.le
        linarith
      exact_mod_cast this
    have hnext : ((2 : ℚ) ^ p + 1) * 2 ^ last ≤ m * 2 ^ j * 2 ^ last :=
      mul_le_mul_of_nonneg_right (by exact_mod_cast hint) hpos.le
    linarith

/-! ### Rounding to the nearest number -/

/-- The nearest integer, the even one of two that are as near. -/
def roundEven (x : ℚ) : ℤ :=
  let down := ⌊x⌋
  if x - down < 1 / 2 then down
  else if 1 / 2 < x - down then down + 1
  else if down % 2 = 0 then down
  else down + 1

theorem roundEven_bounds (x : ℚ) : ⌊x⌋ ≤ roundEven x ∧ roundEven x ≤ ⌊x⌋ + 1 := by
  unfold roundEven
  simp only
  split_ifs <;> omega

theorem roundEven_intCast (n : ℤ) : roundEven n = n := by
  simp [roundEven]

theorem roundEven_mono : Monotone roundEven := by
  intro x y hxy
  rcases (Int.floor_mono hxy).lt_or_eq with hlt | heq
  · have hx := (roundEven_bounds x).2
    have hy := (roundEven_bounds y).1
    omega
  · -- between two integers the fraction decides
    unfold roundEven
    simp only [← heq]
    split_ifs <;> first | omega | (exfalso; linarith)

/-- The exponent of the last bit of a positive number. -/
def FloatFormat.lastBit (format : FloatFormat) (x : ℚ) : ℤ :=
  max format.minExponent (Int.log 2 x - (format.precision - 1))

def FloatFormat.nearestAbove (format : FloatFormat) (x : ℚ) : ℚ :=
  roundEven (x / 2 ^ format.lastBit x) * 2 ^ format.lastBit x

/-- The nearest number, with an even mantissa where two are as near. -/
def FloatFormat.nearest (format : FloatFormat) (x : ℚ) : ℚ :=
  if 0 < x then format.nearestAbove x
  else if x < 0 then -format.nearestAbove (-x)
  else 0

section Nearest

variable {format : FloatFormat}

theorem lastBit_mono {x y : ℚ} (hx : 0 < x) (hxy : x ≤ y) :
    format.lastBit x ≤ format.lastBit y := by
  have := Int.log_mono_right (b := 2) hx hxy
  unfold FloatFormat.lastBit
  omega

theorem nearestAbove_nonneg {x : ℚ} (hx : 0 < x) : 0 ≤ format.nearestAbove x := by
  have hround := roundEven_mono (show (0 : ℚ) ≤ x / 2 ^ format.lastBit x by positivity)
  have hzero : roundEven 0 = 0 := roundEven_intCast 0
  rw [hzero] at hround
  have : (0 : ℚ) ≤ roundEven (x / 2 ^ format.lastBit x) := by exact_mod_cast hround
  unfold FloatFormat.nearestAbove
  positivity

/-- Numbers with different last bits are on different sides of a power of two, which is kept. -/
theorem nearestAbove_lt_le {x y : ℚ} (hy : 0 < y)
    (h : format.lastBit x < format.lastBit y) :
    format.nearestAbove x ≤ format.nearestAbove y := by
  have hprecision := format.positive
  obtain ⟨k, hk⟩ : ∃ k, format.precision = k + 1 := ⟨format.precision - 1, by omega⟩
  have hbelow : x / 2 ^ format.lastBit x ≤ ((2 ^ (k + 1) : ℤ) : ℚ) := by
    have hlog : x < 2 ^ (Int.log 2 x + 1) := by
      exact_mod_cast Int.lt_zpow_succ_log_self one_lt_two x
    have hle : Int.log 2 x + 1 ≤ (k + 1 : ℕ) + format.lastBit x := by
      unfold FloatFormat.lastBit
      omega
    rw [div_le_iff₀ (by positivity)]
    push_cast
    rw [← zpow_natCast, ← zpow_add₀ (by norm_num)]
    exact hlog.le.trans (zpow_le_zpow_right₀ (by norm_num) hle)
  have habove : ((2 ^ k : ℤ) : ℚ) ≤ y / 2 ^ format.lastBit y := by
    have hlog : 2 ^ Int.log 2 y ≤ y := by exact_mod_cast Int.zpow_log_le_self one_lt_two hy
    have hle : (k : ℕ) + format.lastBit y ≤ Int.log 2 y := by
      unfold FloatFormat.lastBit at h ⊢
      omega
    rw [le_div_iff₀ (by positivity)]
    push_cast
    rw [← zpow_natCast, ← zpow_add₀ (by norm_num)]
    exact (zpow_le_zpow_right₀ (by norm_num) hle).trans hlog
  have hx' : (roundEven (x / 2 ^ format.lastBit x) : ℚ) ≤ 2 ^ (k + 1) := by
    have := roundEven_mono hbelow
    rw [roundEven_intCast] at this
    exact_mod_cast this
  have hy' : (2 ^ k : ℚ) ≤ roundEven (y / 2 ^ format.lastBit y) := by
    have := roundEven_mono habove
    rw [roundEven_intCast] at this
    exact_mod_cast this
  calc format.nearestAbove x
      ≤ 2 ^ (k + 1) * 2 ^ format.lastBit x := mul_le_mul_of_nonneg_right hx' (by positivity)
    _ = 2 ^ k * 2 ^ (format.lastBit x + 1) := by rw [zpow_add_one₀ (by norm_num)]; ring
    _ ≤ 2 ^ k * 2 ^ format.lastBit y :=
        mul_le_mul_of_nonneg_left (zpow_le_zpow_right₀ (by norm_num) h) (by positivity)
    _ ≤ format.nearestAbove y := mul_le_mul_of_nonneg_right hy' (by positivity)

theorem nearestAbove_mono {x y : ℚ} (hx : 0 < x) (hxy : x ≤ y) :
    format.nearestAbove x ≤ format.nearestAbove y := by
  rcases (lastBit_mono hx hxy).lt_or_eq with hlt | heq
  · exact nearestAbove_lt_le (hx.trans_le hxy) hlt
  · have hround := roundEven_mono (div_le_div_of_nonneg_right hxy
      (show (0 : ℚ) ≤ 2 ^ format.lastBit x by positivity))
    unfold FloatFormat.nearestAbove
    rw [← heq]
    exact mul_le_mul_of_nonneg_right (by exact_mod_cast hround) (by positivity)

theorem nearestAbove_value {x : ℚ} (hx : 0 < x) (h : format.Value x) :
    format.nearestAbove x = x := by
  obtain ⟨m, e, hm, hmin, -, rfl⟩ := h
  have hlast : format.lastBit ((m : ℚ) * 2 ^ e) ≤ e := by
    have hlt : (m : ℚ) * 2 ^ e < 2 ^ ((format.precision : ℤ) + e) := by
      have hm' : (m : ℚ) < 2 ^ format.precision := by exact_mod_cast (le_abs_self m).trans_lt hm
      rw [zpow_add₀ (by norm_num), zpow_natCast]
      exact mul_lt_mul_of_pos_right hm' (by positivity)
    have hlog : Int.log 2 ((m : ℚ) * 2 ^ e) < format.precision + e :=
      (Int.lt_zpow_iff_log_lt one_lt_two hx).mp (by exact_mod_cast hlt)
    unfold FloatFormat.lastBit
    omega
  unfold FloatFormat.nearestAbove
  generalize format.lastBit ((m : ℚ) * 2 ^ e) = last at hlast ⊢
  -- the last bit of a number of the format is no higher than its exponent, so nothing is cut off
  obtain ⟨k, rfl⟩ : ∃ k : ℕ, e = last + k := ⟨(e - last).toNat, by omega⟩
  have hinteger : (m : ℚ) * 2 ^ (last + k) / 2 ^ last = ((m * 2 ^ k : ℤ) : ℚ) := by
    rw [zpow_add₀ (by norm_num), zpow_natCast]
    push_cast
    field_simp
  rw [hinteger, roundEven_intCast, ← hinteger, div_mul_cancel₀ _ (by positivity)]

theorem FloatFormat.Value.neg {x : ℚ} (h : format.Value x) : format.Value (-x) := by
  obtain ⟨m, e, hm, hmin, hmax, rfl⟩ := h
  exact ⟨-m, e, by rwa [abs_neg], hmin, hmax, by push_cast; ring⟩

theorem nearest_mono : Monotone format.nearest := by
  intro x y hxy
  unfold FloatFormat.nearest
  rcases lt_trichotomy x 0 with hx | rfl | hx
  · rw [if_neg hx.not_gt, if_pos hx]
    have hnonneg : 0 ≤ format.nearestAbove (-x) := nearestAbove_nonneg (neg_pos.mpr hx)
    rcases lt_trichotomy y 0 with hy | rfl | hy
    · rw [if_neg hy.not_gt, if_pos hy]
      exact neg_le_neg (nearestAbove_mono (neg_pos.mpr hy) (neg_le_neg hxy))
    · simpa using hnonneg
    · rw [if_pos hy]
      exact (neg_nonpos.mpr hnonneg).trans (nearestAbove_nonneg hy)
  · rcases hxy.lt_or_eq with hy | rfl
    · simpa [hy] using nearestAbove_nonneg hy
    · exact le_rfl
  · rw [if_pos hx, if_pos (hx.trans_le hxy)]
    exact nearestAbove_mono hx hxy

theorem nearest_value {x : ℚ} (h : format.Value x) : format.nearest x = x := by
  unfold FloatFormat.nearest
  rcases lt_trichotomy x 0 with hx | rfl | hx
  · rw [if_neg hx.not_gt, if_pos hx, nearestAbove_value (neg_pos.mpr hx) h.neg, neg_neg]
  · simp
  · rw [if_pos hx, nearestAbove_value hx h]

end Nearest

/-- Rounding to the nearest number is a rounding. -/
def Rounding.nearest (format : FloatFormat) : Rounding format where
  round := format.nearest
  mono := nearest_mono
  value := nearest_value

example : (Rounding.nearest binary64).round (2 ^ 53 + 1) = 2 ^ 53 := by decide +kernel

end Library
