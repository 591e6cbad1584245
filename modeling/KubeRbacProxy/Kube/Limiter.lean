import KubeRbacProxy.Kube.RateLimit
import KubeRbacProxy.Main.Validate

/-! The rate limit in the arithmetic of the machine.  A pass of the loop of `acquire` holds a mutex
while it computes, and a panic there poisons the mutex for all later passes.  Any number of calls
pass, so a run is a list of clock readings, in nanoseconds.  Results hold for every rounding of
binary64 numbers; `Rounding.nearest` is that of the machine. -/

namespace KubeRbacProxy

open Library

/-- The mutex and the pair in it: the last reading of the clock and the tokens left. -/
structure Limiter where
  last : Nat
  tokens : ℚ
  poisoned : Bool
  deriving DecidableEq

/-- `Duration::as_secs_f64`. -/
def asSecsF64 (r : Rounding binary64) (nanos : Nat) : ℚ :=
  r.round (r.round (nanos / 10 ^ 9 : Nat) + r.round ((nanos % 10 ^ 9 : Nat) / 10 ^ 9))

/-- `Duration::from_secs_f64`; none stands for its panic. -/
def fromSecsF64 (seconds : ℚ) : Option Nat :=
  if seconds < 0 ∨ 2 ^ 64 ≤ seconds then none else some (roundEven (seconds * 10 ^ 9)).toNat

inductive Pass where
  | granted
  | sleeps (nanos : Nat)
  | panicked
  deriving DecidableEq

section

variable (r : Rounding binary64) (limits : RateLimits ℚ)

def Limiter.refill (now : Nat) (rate : Limiter) : Limiter where
  last := now
  tokens := min (r.round (rate.tokens + r.round (asSecsF64 r (now - rate.last) * limits.qps)))
    limits.burst
  poisoned := rate.poisoned

/-- The seconds to wait for a whole token. -/
def waitSeconds (rate : Limiter) : ℚ := r.round (r.round (1 - rate.tokens) / limits.qps)

/-- One pass of the loop of `acquire`, with its calls of `lock` and `from_secs_f64`. -/
def limiterPass (now : Nat) (rate : Limiter) : Pass × Limiter :=
  if limits.qps ≤ 0 then (.granted, rate)
  else if rate.poisoned then (.panicked, rate)
  else
    let rate := rate.refill r limits now
    if 1 ≤ rate.tokens then (.granted, { rate with tokens := r.round (rate.tokens - 1) })
    else
      match fromSecsF64 (waitSeconds r limits rate) with
      | some nanos => (.sleeps nanos, rate)
      | none => (.panicked, { rate with poisoned := true })

def limiterRun (rate : Limiter) : List Nat → Limiter
  | [] => rate
  | now :: rest => limiterRun (limiterPass r limits now rate).2 rest

/-- A pass at `now` finds the mutex unpoisoned, leaves it so and does not panic, and a wait that it
computes can be slept. -/
structure SafePass (now : Nat) (rate : Limiter) : Prop where
  lock : rate.poisoned = false
  calm : (limiterPass r limits now rate).1 ≠ .panicked
  unlock : (limiterPass r limits now rate).2.poisoned = false
  wait : 0 < limits.qps → (rate.refill r limits now).tokens < 1 →
    0 ≤ waitSeconds r limits (rate.refill r limits now) ∧
      waitSeconds r limits (rate.refill r limits now) < 2 ^ 64

/-- With a clock that never runs backwards, every pass of every run is safe. -/
def RunsSafely (rate : Limiter) : Prop :=
  ∀ readings now, (rate.last :: readings ++ [now]).Pairwise (· ≤ ·) →
    SafePass r limits now (limiterRun r limits rate readings)

end

/-- One pass with a rate as the flags give it.  A rate that is infinite, or no number, fills the
bucket in no time. -/
def acquireOnce (r : Rounding binary64) (qps : FloatNumber binary32) (burst : UInt32) (now : Nat)
    (rate : Limiter) : Pass × Limiter :=
  match qps with
  | .finite value _ => limiterPass r (rateLimits value burst.toNat) now rate
  | .infinite true => (.granted, rate)
  | .infinite false | .nan =>
    if rate.poisoned then (.panicked, rate)
    else (.granted, { rate with last := now, tokens := (max burst.toNat 1 : Nat) - 1 })

/-- The limiter of a client that is created at `start`. -/
def limiterInit (burst : UInt32) (start : Nat) : Limiter :=
  ⟨start, (max burst.toNat 1 : Nat), false⟩

/-! ### What a pass does -/

section Pass

variable {r : Rounding binary64} {limits : RateLimits ℚ} {rate : Limiter} {now : Nat}

theorem limiterPass_unlimited (hqps : limits.qps ≤ 0) :
    limiterPass r limits now rate = (.granted, rate) := if_pos hqps

theorem limiterPass_full (hqps : 0 < limits.qps) (hlock : rate.poisoned = false)
    (hfull : 1 ≤ (rate.refill r limits now).tokens) :
    limiterPass r limits now rate = (.granted, { rate.refill r limits now with
      tokens := r.round ((rate.refill r limits now).tokens - 1) }) := by
  simp only [limiterPass, if_neg hqps.not_ge, hlock, Bool.false_eq_true, if_false, if_pos hfull]

/-- Without a whole token, the pass sleeps, or it panics with the mutex in its hands. -/
theorem limiterPass_short (hqps : 0 < limits.qps) (hlock : rate.poisoned = false)
    (hless : (rate.refill r limits now).tokens < 1) :
    limiterPass r limits now rate =
      match fromSecsF64 (waitSeconds r limits (rate.refill r limits now)) with
      | some nanos => (.sleeps nanos, rate.refill r limits now)
      | none => (.panicked, { rate.refill r limits now with poisoned := true }) := by
  simp only [limiterPass, if_neg hqps.not_ge, hlock, Bool.false_eq_true, if_false,
    if_neg hless.not_ge]

end Pass

/-! ### In exact arithmetic -/

def Limiter.bucket (rate : Limiter) : Bucket ℚ := ⟨rate.last / 10 ^ 9, rate.tokens⟩

theorem refill_exact (limits : RateLimits ℚ) (now : Nat) (rate : Limiter) :
    (rate.refill (.exact _) limits now).bucket =
      rate.bucket.refill limits.qps limits.burst (now / 10 ^ 9) := by
  have helapsed : asSecsF64 (.exact _) (now - rate.last) =
      max ((now : ℚ) / 10 ^ 9 - rate.last / 10 ^ 9) 0 := by
    have hsplit : ∀ d : Nat, asSecsF64 (.exact _) d = d / 10 ^ 9 := by
      intro d
      show ((d / 10 ^ 9 : Nat) : ℚ) + (d % 10 ^ 9 : Nat) / 10 ^ 9 = d / 10 ^ 9
      rw [eq_div_iff (by norm_num), add_mul, div_mul_cancel₀ _ (by norm_num)]
      exact_mod_cast Nat.div_add_mod' d (10 ^ 9)
    rw [hsplit, ← sub_div]
    rcases le_total rate.last now with h | h
    · rw [Nat.cast_sub h, max_eq_left]
      exact div_nonneg (sub_nonneg.mpr (by exact_mod_cast h)) (by norm_num)
    · rw [Nat.sub_eq_zero_of_le h, Nat.cast_zero, zero_div, max_eq_right]
      exact div_nonpos_of_nonpos_of_nonneg (sub_nonpos.mpr (by exact_mod_cast h)) (by norm_num)
  simp only [Limiter.refill, Limiter.bucket, Bucket.refill, helapsed]
  rfl

/-- Without rounding, a pass that can be slept is one of the exact limiter. -/
theorem limiterPass_exact {limits : RateLimits ℚ} {now : Nat} {rate : Limiter}
    (hqps : 0 < limits.qps) (hlock : rate.poisoned = false)
    (hcalm : (limiterPass (.exact _) limits now rate).1 ≠ .panicked) :
    (acquirePass limits (now / 10 ^ 9) rate.bucket).2 =
        (limiterPass (.exact _) limits now rate).2.bucket ∧
      ((acquirePass limits (now / 10 ^ 9) rate.bucket).1 = none ↔
        (limiterPass (.exact _) limits now rate).1 = .granted) := by
  have hlevel : (rate.refill (.exact _) limits now).bucket.level =
      (rate.refill (.exact _) limits now).tokens := rfl
  unfold acquirePass
  simp only [← refill_exact, hlevel]
  by_cases hfull : 1 ≤ (rate.refill (.exact _) limits now).tokens
  · rw [if_pos hfull, limiterPass_full hqps hlock hfull]
    exact ⟨rfl, by simp⟩
  · rw [limiterPass_short hqps hlock (not_le.mp hfull)] at hcalm ⊢
    rw [if_neg hfull]
    cases hwait : fromSecsF64
        (waitSeconds (.exact _) limits (rate.refill (.exact _) limits now)) with
    | none => simp [hwait] at hcalm
    | some nanos => exact ⟨rfl, by simp⟩

/-! ### Runs -/

section Runs

variable {r : Rounding binary64} {limits : RateLimits ℚ} {rate : Limiter}

/-- What every pass of a safe run finds. -/
structure Sound (rate : Limiter) : Prop where
  unpoisoned : rate.poisoned = false
  nonneg : 0 ≤ rate.tokens

/-- The rate is not limited, or the wait for a whole token is below the longest duration. -/
def Waitable (qps : ℚ) : Prop := qps ≤ 0 ∨ 1 ≤ qps * (2 ^ 64 - 2 ^ 11)

theorem refill_nonneg (hqps : 0 ≤ limits.qps) (hburst : 0 ≤ limits.burst)
    (h : 0 ≤ rate.tokens) (now : Nat) : 0 ≤ (rate.refill r limits now).tokens := by
  have helapsed : 0 ≤ asSecsF64 r (now - rate.last) :=
    r.round_nonneg (add_nonneg (r.round_nonneg (by positivity)) (r.round_nonneg (by positivity)))
  exact le_min (r.round_nonneg (add_nonneg h (r.round_nonneg (mul_nonneg helapsed hqps)))) hburst

theorem waitSeconds_bounds (hqps : 0 < limits.qps) (hwait : 1 ≤ limits.qps * (2 ^ 64 - 2 ^ 11))
    (h : 0 ≤ rate.tokens) (hless : rate.tokens < 1) :
    0 ≤ waitSeconds r limits rate ∧ waitSeconds r limits rate < 2 ^ 64 := by
  have hmissing : 0 ≤ r.round (1 - rate.tokens) := r.round_nonneg (by linarith)
  have hone : r.round (1 - rate.tokens) ≤ 1 :=
    calc r.round (1 - rate.tokens) ≤ r.round 1 := r.mono (by linarith)
      _ = 1 := r.round_one
  refine ⟨r.round_nonneg (div_nonneg hmissing hqps.le), ?_⟩
  -- the greatest number below 2 ^ 64 bounds the quotient, and so its rounding
  have hvalue : binary64.Value (2 ^ 64 - 2 ^ 11) :=
    ⟨2 ^ 53 - 1, 11, by decide, by decide, by decide, by norm_num⟩
  calc waitSeconds r limits rate
      ≤ r.round (2 ^ 64 - 2 ^ 11) := r.mono (by
        rw [div_le_iff₀ hqps]
        linarith)
    _ = 2 ^ 64 - 2 ^ 11 := r.value hvalue
    _ < 2 ^ 64 := by norm_num

theorem limiterPass_safe (hqps : Waitable limits.qps) (hburst : 0 ≤ limits.burst)
    (h : Sound rate) (now : Nat) :
    SafePass r limits now rate ∧ Sound (limiterPass r limits now rate).2 := by
  by_cases hlimited : limits.qps ≤ 0
  · have hpass : limiterPass r limits now rate = (.granted, rate) :=
      limiterPass_unlimited hlimited
    exact ⟨⟨h.unpoisoned, by simp [hpass], by rw [hpass]; exact h.unpoisoned,
      fun hpos => absurd hlimited hpos.not_ge⟩, by rwa [hpass]⟩
  have hpos := not_le.mp hlimited
  have hwait := hqps.resolve_left hlimited
  have hnonneg := refill_nonneg (r := r) hpos.le hburst h.nonneg now
  have hbounds := waitSeconds_bounds (r := r) hpos hwait hnonneg
  have hpoisoned : (rate.refill r limits now).poisoned = false := h.unpoisoned
  by_cases hfull : 1 ≤ (rate.refill r limits now).tokens
  · have hpass := limiterPass_full hpos h.unpoisoned hfull
    refine ⟨⟨h.unpoisoned, by simp [hpass], by rw [hpass]; exact hpoisoned, fun _ => hbounds⟩, ?_⟩
    rw [hpass]
    exact ⟨hpoisoned, r.round_nonneg (by linarith)⟩
  · obtain ⟨hzero, hlt⟩ := hbounds (not_le.mp hfull)
    have hsleep : fromSecsF64 (waitSeconds r limits (rate.refill r limits now)) =
        some (roundEven (waitSeconds r limits (rate.refill r limits now) * 10 ^ 9)).toNat :=
      if_neg (not_or.mpr ⟨hzero.not_gt, hlt.not_ge⟩)
    have hpass := limiterPass_short hpos h.unpoisoned (not_le.mp hfull)
    rw [hsleep] at hpass
    refine ⟨⟨h.unpoisoned, by simp [hpass], by rw [hpass]; exact hpoisoned, fun _ => hbounds⟩, ?_⟩
    rw [hpass]
    exact ⟨hpoisoned, hnonneg⟩

theorem limiterRun_sound (hqps : Waitable limits.qps) (hburst : 0 ≤ limits.burst) (h : Sound rate)
    (readings : List Nat) : Sound (limiterRun r limits rate readings) := by
  induction readings generalizing rate with
  | nil => exact h
  | cons now rest ih => exact ih (limiterPass_safe hqps hburst h now).2

/-- At one reading of the clock, nothing flows in. -/
theorem refill_same {n : Nat} (hn : n < 2 ^ 53) (hburst : (n : ℚ) ≤ limits.burst) (now : Nat) :
    Limiter.refill r limits now ⟨now, n, false⟩ = ⟨now, n, false⟩ := by
  have helapsed : asSecsF64 r 0 = 0 := by simp [asSecsF64, r.round_zero]
  simp only [Limiter.refill, Nat.sub_self, helapsed, zero_mul, r.round_zero, add_zero,
    r.round_natCast hn, min_eq_left hburst]

theorem limiterRun_drain (hqps : 0 < limits.qps) (n start : Nat) (hn : n < 2 ^ 53)
    (hburst : (n : ℚ) ≤ limits.burst) :
    limiterRun r limits ⟨start, n, false⟩ (List.replicate n start) = ⟨start, (0 : Nat), false⟩ := by
  induction n with
  | zero => rfl
  | succ n ih =>
    have hpass : (limiterPass r limits start ⟨start, (n + 1 : Nat), false⟩).2 =
        ⟨start, n, false⟩ := by
      have hround : r.round (((n + 1 : Nat) : ℚ) - 1) = n := by
        rw [Nat.cast_add_one, add_sub_cancel_right]
        exact r.round_natCast (by omega)
      have hrefill := refill_same (r := r) hn hburst start
      have hfull : 1 ≤ (Limiter.refill r limits start ⟨start, (n + 1 : Nat), false⟩).tokens := by
        rw [hrefill]
        show (1 : ℚ) ≤ (n + 1 : Nat)
        exact_mod_cast Nat.le_add_left 1 n
      simp only [limiterPass_full hqps rfl hfull, hrefill, hround]
    rw [List.replicate_succ, limiterRun, hpass]
    exact ih (by omega) (le_trans (by exact_mod_cast Nat.le_succ n) hburst)

end Runs

/-- A limited rate of `2 ^ -64` or less: after its burst, the limiter computes a wait that is no
duration. -/
theorem unsafe_of_slow {r : Rounding binary64} {qps : ℚ} {burst : UInt32} (hpos : 0 < qps)
    (hslow : qps ≤ 1 / 2 ^ 64) (start : Nat) :
    ¬RunsSafely r (rateLimits qps burst.toNat) (limiterInit burst start) := by
  intro hsafe
  have hburst : max burst.toNat 1 < 2 ^ 53 := by
    have := burst.toNat_lt
    omega
  have hempty : limiterRun r (rateLimits qps burst.toNat) (limiterInit burst start)
      (List.replicate (max burst.toNat 1) start) = ⟨start, (0 : Nat), false⟩ :=
    limiterRun_drain hpos _ start hburst le_rfl
  have hpass := hsafe (List.replicate (max burst.toNat 1) start) start (by
    rw [List.cons_append, show (limiterInit burst start).last = start from rfl,
      ← List.replicate_succ', ← List.replicate_succ]
    exact List.pairwise_replicate.mpr (Or.inr le_rfl))
  rw [hempty] at hpass
  have hrefill : Limiter.refill r (rateLimits qps burst.toNat) start ⟨start, (0 : Nat), false⟩ =
      ⟨start, (0 : Nat), false⟩ := refill_same (by decide) (by simp [rateLimits]) start
  have hwait := (hpass.wait hpos (by rw [hrefill]; simp)).2
  rw [hrefill] at hwait
  have hvalue : binary64.Value (2 ^ 64) := by
    exact_mod_cast FloatFormat.Value.twoPow (e := 64) (by decide) (by decide)
  have hlong : (2 ^ 64 : ℚ) ≤ waitSeconds r (rateLimits qps burst.toNat)
      ⟨start, (0 : Nat), false⟩ := by
    rw [← r.value hvalue]
    refine r.mono ?_
    rw [Nat.cast_zero, sub_zero, r.round_one]
    exact (le_one_div (by norm_num) hpos).mpr hslow
  linarith

/-- The next rate of binary32 above `2 ^ -64` can be waited for. -/
theorem waitable_of_fast {qps : ℚ} (hvalue : binary32.Value qps)
    (hfast : qps ≤ 0 ∨ 1 / 2 ^ 64 < qps) : Waitable qps := by
  refine hfast.imp_right fun hfast => ?_
  have hnext := hvalue.next (e := -64) (by simpa using hfast)
  norm_num [binary32] at hnext
  linarith

/-- For arguments that are accepted, all passes of all runs are safe exactly when the rate is not
limited or is above `2 ^ -64` requests per second. -/
theorem limiter_safe_iff (r : Rounding binary64) {parseUrl : Text → Except Text Url}
    {a : ProxyArgs} (hvalid : a.validate parseUrl = .ok ()) {qps : ℚ} {hvalue : binary32.Value qps}
    (hqps : a.kubeApiQps = .finite qps hvalue) (start : Nat) :
    RunsSafely r (rateLimits qps a.kubeApiBurst.toNat) (limiterInit a.kubeApiBurst start) ↔
      qps = 0 ∨ 1 / 2 ^ 64 < qps := by
  have hnonneg : 0 ≤ qps := by
    have := ((validate_ok_iff parseUrl).mp hvalid).qps
    simpa [hqps, FloatNumber.isNegative] using this
  constructor
  · intro hsafe
    by_contra hcon
    rw [not_or, not_lt] at hcon
    exact unsafe_of_slow (hnonneg.lt_of_ne' hcon.1) hcon.2 start hsafe
  · intro hfast
    have hwaitable : Waitable qps := waitable_of_fast hvalue (hfast.imp_left le_of_eq)
    have hburst : 0 ≤ (rateLimits qps a.kubeApiBurst.toNat).burst := Nat.cast_nonneg _
    have hinit : Sound (limiterInit a.kubeApiBurst start) := ⟨rfl, Nat.cast_nonneg _⟩
    intro readings now _
    exact (limiterPass_safe hwaitable hburst (limiterRun_sound hwaitable hburst hinit readings)
      now).1

/-! ### Rates that never stall -/

/-- The rate is not limited, or above `2 ^ -64` requests per second. -/
def NeverStalls (qps : FloatNumber binary32) : Prop :=
  ∀ value hvalue, qps = .finite value hvalue → value ≤ 0 ∨ 1 / 2 ^ 64 < value

section NeverStalls

variable {qps : FloatNumber binary32} {rate : Limiter}

theorem acquireOnce_safe (r : Rounding binary64) (burst : UInt32) (now : Nat)
    (hqps : NeverStalls qps) (h : Sound rate) :
    (acquireOnce r qps burst now rate).1 ≠ .panicked ∧
      Sound (acquireOnce r qps burst now rate).2 := by
  have hfilled : Sound ⟨now, (max burst.toNat 1 : Nat) - 1, false⟩ := by
    refine ⟨rfl, sub_nonneg.mpr ?_⟩
    exact_mod_cast le_max_right burst.toNat 1
  cases qps with
  | finite value hvalue =>
    have hwaitable := waitable_of_fast hvalue (hqps value hvalue rfl)
    have hburst : 0 ≤ (rateLimits value burst.toNat).burst := Nat.cast_nonneg _
    obtain ⟨hsafe, hsound⟩ := limiterPass_safe (r := r) hwaitable hburst h now
    exact ⟨hsafe.calm, hsound⟩
  | nan =>
    simp only [acquireOnce, h.unpoisoned, Bool.false_eq_true, if_false]
    exact ⟨by simp, hfilled⟩
  | infinite negative =>
    cases negative with
    | true => exact ⟨by simp [acquireOnce], h⟩
    | false =>
      simp only [acquireOnce, h.unpoisoned, Bool.false_eq_true, if_false]
      exact ⟨by simp, hfilled⟩

variable {r : Rounding binary64} {burst : UInt32} {now : Nat}

/-- A whole token flows in within `2 ^ 64` seconds. -/
theorem refill_waited {limits : RateLimits ℚ} (hqps : 1 / 2 ^ 64 ≤ limits.qps)
    (hburst : 1 ≤ limits.burst) (h : 0 ≤ rate.tokens)
    (hnow : rate.last + 2 ^ 64 * 10 ^ 9 ≤ now) : 1 ≤ (rate.refill r limits now).tokens := by
  have hvalue : binary64.Value (2 ^ 64) := by
    exact_mod_cast FloatFormat.Value.twoPow (e := 64) (by decide) (by decide)
  have helapsed : 2 ^ 64 ≤ asSecsF64 r (now - rate.last) := by
    have hsecs : 2 ^ 64 ≤ (now - rate.last) / 10 ^ 9 := by omega
    have hwhole : (2 ^ 64 : ℚ) ≤ r.round ((now - rate.last) / 10 ^ 9 : Nat) := by
      rw [← r.value hvalue]
      exact r.mono (by exact_mod_cast hsecs)
    have hpart : 0 ≤ r.round (((now - rate.last) % 10 ^ 9 : Nat) / 10 ^ 9) :=
      r.round_nonneg (by positivity)
    rw [asSecsF64, ← r.value hvalue]
    exact r.mono (by linarith)
  have hinflow : 1 ≤ r.round (asSecsF64 r (now - rate.last) * limits.qps) := by
    rw [← r.round_one]
    refine r.mono ?_
    calc (1 : ℚ) = 2 ^ 64 * (1 / 2 ^ 64) := by norm_num
      _ ≤ asSecsF64 r (now - rate.last) * limits.qps :=
        mul_le_mul helapsed hqps (by positivity) (le_trans (by positivity) helapsed)
  refine le_min ?_ hburst
  rw [← r.round_one]
  exact r.mono (by linarith)

theorem acquireOnce_waited (hqps : NeverStalls qps) (h : Sound rate)
    (hnow : rate.last + 2 ^ 64 * 10 ^ 9 ≤ now) :
    (acquireOnce r qps burst now rate).1 = .granted := by
  cases qps with
  | finite value hvalue =>
    by_cases hlimited : value ≤ 0
    · rw [acquireOnce, limiterPass_unlimited hlimited]
    · have hburst : 1 ≤ (rateLimits value burst.toNat).burst := by
        show (1 : ℚ) ≤ (max burst.toNat 1 : Nat)
        exact_mod_cast le_max_right burst.toNat 1
      have hfast := (hqps value hvalue rfl).resolve_left hlimited
      rw [acquireOnce, limiterPass_full (not_le.mp hlimited) h.unpoisoned
        (refill_waited hfast.le hburst h.nonneg hnow)]
  | nan => simp [acquireOnce, h.unpoisoned]
  | infinite negative => cases negative <;> simp [acquireOnce, h.unpoisoned]

end NeverStalls

/-- The URL of an upstream on the host, read as such. -/
def localUpstream : Text → Except Text Url := fun t =>
  if t = "http://127.0.0.1:8080".toList then .ok ⟨"http".toList, some "127.0.0.1".toList⟩
  else .error "relative URL without a base".toList

def limitedArgs (qps : FloatNumber binary32) : ProxyArgs where
  upstream := "http://127.0.0.1:8080".toList
  insecureListenAddress := some "127.0.0.1:8000".toList
  kubeApiQps := qps
  kubeApiBurst := 2

theorem value_five : binary32.Value 5 := ⟨5, 0, by decide, by decide, by decide, by norm_num⟩

theorem limiter_safe_five :
    RunsSafely (.nearest binary64) (rateLimits 5 2) (limiterInit 2 0) ↔
      (5 : ℚ) = 0 ∨ 1 / 2 ^ 64 < (5 : ℚ) := by
  have haccepted : (limitedArgs (.finite 5 value_five)).validate localUpstream = .ok () := by
    decide +kernel
  exact limiter_safe_iff (.nearest binary64) haccepted rfl 0

/-- With a rate of `2 ^ -64`, the pass after the burst panics and poisons the mutex. -/
theorem limiter_panics :
    ∃ hvalue : binary32.Value (1 / 2 ^ 64),
      (limitedArgs (.finite (1 / 2 ^ 64) hvalue)).validate localUpstream = .ok () ∧
      limiterPass (.nearest binary64) (rateLimits (1 / 2 ^ 64) 2) 0
        (limiterRun (.nearest binary64) (rateLimits (1 / 2 ^ 64) 2) (limiterInit 2 0) [0, 0]) =
        (.panicked, ⟨0, 0, true⟩) :=
  ⟨⟨1, -64, by decide, by decide, by decide, by norm_num⟩, by decide +kernel, by decide +kernel⟩

end KubeRbacProxy
