import KubeRbacProxy.Library.ReviewHistory
import Mathlib.Data.Set.Card

/-! How many reviews a cache lets through.  Calls for one key that overlap may all miss, but once
one of them has stored its verdict no call for the key sends a review until the entry is `ttl` old.
So the reviews of a key come in bursts that start at least `ttl` apart, and a burst is no larger
than the number of calls that are in flight at a time. -/

namespace Library.ReviewCache

variable {Req Key Spec Answer Verdict Error : Type} [DecidableEq Key]
variable {σ : Scheme Req Key Spec Answer Verdict Error} {key : Key} {start : Nat}
variable {s s' : State Req Key Spec Answer Verdict Error} {action : Action Req Answer}

variable (σ key) in
def inFlightCalls (s : State Req Key Spec Answer Verdict Error) : Set Nat :=
  {i | (s.calls i).InFlight σ key}

variable (σ key start) in
/-- Call `i` sent a review for the key at `start` or later, which did not fail. -/
def HasReviewed (s : State Req Key Spec Answer Verdict Error) (i : Nat) :
    Call Req Spec Answer Verdict Error → Prop
  | .idle | .returned _ (.error _) _ => False
  | .reviewing request sentAt => σ.key request = key ∧ start ≤ sentAt
  | .storing request review _ => σ.key request = key ∧ start ≤ review.sentAt
  | .returned request (.ok _) _ => σ.key request = key ∧
      ∃ review ∈ s.reviews, review.caller = i ∧ start ≤ review.sentAt

variable (σ key start) in
def reviewers (s : State Req Key Spec Answer Verdict Error) : Set Nat :=
  {i | HasReviewed σ key start s i (s.calls i)}

/-! ### The review of a call -/

/-- A review on record is that of a call which was answered, and is storing this one if any. -/
def Owns (review : Review Spec Answer) : Call Req Spec Answer Verdict Error → Prop
  | .idle | .reviewing .. => False
  | .storing _ own _ => own = review
  | .returned .. => True

theorem step_review (h : step σ s action = some s') {review : Review Spec Answer}
    (hmem : review ∈ s'.reviews) : review ∈ s.reviews ∨
      (∃ request sentAt, s.calls review.caller = .reviewing request sentAt) ∧
        Owns review (s'.calls review.caller) := by
  cases action with
  | tick time =>
    obtain rfl := Option.some.inj h
    exact Or.inl hmem
  | lookup i request =>
    obtain ⟨-, ⟨verdict, -, rfl⟩ | ⟨-, rfl⟩⟩ := step_lookup h <;> exact Or.inl hmem
  | answer i answer =>
    obtain ⟨request, sentAt, hcall, ⟨verdict, -, rfl⟩ | ⟨error, -, rfl⟩⟩ := step_answer h
    · refine (List.mem_cons.mp hmem).symm.imp id ?_
      rintro rfl
      refine ⟨⟨request, sentAt, hcall⟩, ?_⟩
      show Owns _ ((s.setCall i _).calls i)
      rw [s.setCall_self]
      rfl
    · refine (List.mem_cons.mp hmem).symm.imp id ?_
      rintro rfl
      refine ⟨⟨request, sentAt, hcall⟩, ?_⟩
      show Owns _ ((s.setCall i _).calls i)
      rw [s.setCall_self]
      trivial
  | store i =>
    obtain ⟨request, review', verdict, -, rfl⟩ := step_store h
    exact Or.inl hmem

def Owned (s : State Req Key Spec Answer Verdict Error) : Prop :=
  ∀ review ∈ s.reviews, Owns review (s.calls review.caller)

theorem step_owned (hs : Owned s) (h : step σ s action = some s') : Owned s' := by
  intro review hmem
  rcases step_review h hmem with hold | ⟨-, howns⟩
  · have howns := hs review hold
    have hi := step_call h review.caller
    generalize s'.calls review.caller = call at hi ⊢
    cases hi with
    | stay => exact howns
    | hit hbefore | send hbefore | judged hbefore | failed hbefore =>
      rw [hbefore] at howns
      exact howns.elim
    | stored => trivial
  · exact howns

omit [DecidableEq Key] in
theorem init_owned (now : Nat) : Owned (State.init now : State Req Key Spec Answer Verdict Error) :=
  fun _ hmem => absurd hmem List.not_mem_nil

/-! ### What a step does to the reviewers -/

/-- A call that comes to have reviewed has just missed. -/
theorem step_reviewers (hs : Owned s) (h : step σ s action = some s') {i : Nat}
    (hi : i ∈ reviewers σ key start s') : i ∈ reviewers σ key start s ∨
      (i ∈ inFlightCalls σ key s' ∧ ∃ request, action = .lookup i request) ∧ start ≤ s.now ∧
        s.table.fresh σ.ttl s.now key = none := by
  have hstep := step_call h i
  change HasReviewed σ key start s' i (s'.calls i) at hi
  change HasReviewed σ key start s i (s.calls i) ∨ ((s'.calls i).InFlight σ key ∧ _) ∧ _
  -- a review of a call that has returned is an old one
  have recorded : ∀ {review}, review ∈ s'.reviews → review.caller = i →
      (∀ request sentAt, s.calls i ≠ .reviewing request sentAt) →
      review ∈ s.reviews ∧ Owns review (s.calls i) := by
    rintro review hmem rfl hcall
    rcases step_review h hmem with hold | ⟨⟨request, sentAt, hreviewing⟩, -⟩
    · exact ⟨hold, hs review hold⟩
    · exact absurd hreviewing (hcall request sentAt)
  generalize s'.calls i = call at hstep hi
  cases hstep with
  | stay =>
    left
    cases hcall : s.calls i with
    | idle | reviewing _ _ | storing _ _ _ =>
      rw [hcall] at hi
      exact hi
    | returned request result time =>
      rw [hcall] at hi
      cases result with
      | error e => exact hi
      | ok verdict =>
        obtain ⟨hkey, review, hmem, hcaller, hsent⟩ := hi
        exact ⟨hkey, review, (recorded hmem hcaller (by simp [hcall])).1, hcaller, hsent⟩
  | hit hidle hfresh =>
    obtain ⟨-, review, hmem, hcaller, -⟩ := hi
    have howns := (recorded hmem hcaller (by simp [hidle])).2
    rw [hidle] at howns
    exact howns.elim
  | send hidle hstale =>
    obtain ⟨rfl, hsent⟩ := hi
    exact Or.inr ⟨⟨rfl, _, rfl⟩, hsent, hstale⟩
  | judged hcall hjudge =>
    rw [hcall]
    exact Or.inl hi
  | failed => exact hi.elim
  | stored hcall =>
    obtain ⟨hkey, review, hmem, hcaller, hsent⟩ := hi
    have howns := (recorded hmem hcaller (by simp [hcall])).2
    rw [hcall] at howns ⊢
    obtain rfl : _ = review := howns
    exact Or.inl ⟨hkey, hsent⟩

/-- A reviewer in flight stays there until it stores. -/
theorem step_inFlight_reviewer (h : step σ s action = some s') {i : Nat}
    (hflight : i ∈ inFlightCalls σ key s) (hi : i ∈ reviewers σ key start s') :
    i ∈ inFlightCalls σ key s' ∨ action = .store i := by
  have hstep := step_call h i
  change (s.calls i).InFlight σ key at hflight
  change HasReviewed σ key start s' i (s'.calls i) at hi
  change (s'.calls i).InFlight σ key ∨ _
  generalize s'.calls i = call at hstep hi
  cases hstep with
  | stay => exact Or.inl hflight
  | hit hidle | send hidle =>
    rw [hidle] at hflight
    exact hflight.elim
  | judged hcall =>
    rw [hcall] at hflight
    exact Or.inl hflight
  | failed => exact hi.elim
  | stored => exact Or.inr rfl

/-! ### Bursts -/

variable (σ key start) in
/-- The reviewers came in bursts, of `n` calls at most: none yet, or so many with the last one ended
by a store, or with the last one going on. -/
inductive Bursts (n : Nat) (s : State Req Key Spec Answer Verdict Error) : Prop
  | quiet (hnone : reviewers σ key start s = ∅)
  | ended (bursts : Nat) (hcount : (reviewers σ key start s).encard ≤ (n * (bursts + 1) : Nat))
      {storedAt : Nat} {verdict : Verdict} (hentry : s.table key = some (storedAt, verdict))
      (htime : start + bursts * σ.ttl ≤ storedAt) (hstored : storedAt ≤ s.now)
  | ongoing (bursts : Nat) (before : Set Nat) (hcount : before.encard ≤ (n * bursts : Nat))
      (hsplit : reviewers σ key start s ⊆ before ∪ inFlightCalls σ key s)
      (htime : start + bursts * σ.ttl ≤ s.now)

theorem encard_burst {before flight both : Set Nat} {n bursts : Nat}
    (hbefore : before.encard ≤ (n * bursts : Nat)) (hflight : flight.encard ≤ n)
    (hboth : both ⊆ before ∪ flight) : both.encard ≤ (n * (bursts + 1) : Nat) :=
  calc both.encard
    _ ≤ (before ∪ flight).encard := Set.encard_le_encard hboth
    _ ≤ before.encard + flight.encard := Set.encard_union_le _ _
    _ ≤ (n * bursts : Nat) + (n : Nat) := add_le_add hbefore hflight
    _ = (n * (bursts + 1) : Nat) := by
      rw [Nat.mul_add, Nat.mul_one]
      push_cast
      rfl

omit [DecidableEq Key] in
theorem fresh_eq_none {table : Table Key Verdict} {ttl now storedAt : Nat} {verdict : Verdict}
    (hentry : table key = some (storedAt, verdict)) (h : table.fresh ttl now key = none) :
    ttl ≤ now - storedAt := by
  unfold Table.fresh at h
  rw [hentry] at h
  simp only [ite_eq_right_iff, reduceCtorEq, imp_false] at h
  omega

theorem store_entry {i : Nat} (h : step σ s (.store i) = some s')
    (hi : i ∈ inFlightCalls σ key s) : ∃ verdict, s'.table key = some (s.now, verdict) := by
  obtain ⟨request, review, verdict, hcall, rfl⟩ := step_store h
  change (s.calls i).InFlight σ key at hi
  rw [hcall] at hi
  obtain rfl : σ.key request = key := hi
  exact ⟨verdict, Function.update_self ..⟩

theorem step_bursts {n : Nat} (hs : Owned s) (hflight : (inFlightCalls σ key s).encard ≤ n)
    (hbursts : Bursts σ key start n s) (h : step σ s action = some s') :
    Bursts σ key start n s' := by
  have hnow := step_now h
  have hnew : ∀ i ∈ reviewers σ key start s', _ := fun _ hi => step_reviewers hs h hi
  cases hbursts with
  | quiet hnone =>
    by_cases hstart : start ≤ s.now
    · refine .ongoing 0 ∅ (by simp) (fun i hi => ?_) (by omega)
      rcases hnew i hi with hold | ⟨⟨hsent, -⟩, -⟩
      · rw [hnone] at hold
        exact hold.elim
      · exact Or.inr hsent
    · refine .quiet (Set.eq_empty_of_forall_notMem fun i hi => ?_)
      rcases hnew i hi with hold | ⟨-, hle, -⟩
      · rw [hnone] at hold
        exact hold
      · exact hstart hle
  | @ended bursts hcount storedAt verdict hentry htime hstored =>
    by_cases hstale : s.table.fresh σ.ttl s.now key = none
    · -- the entry has expired, and with it the last burst
      have hage := fresh_eq_none hentry hstale
      refine .ongoing (bursts + 1) (reviewers σ key start s) hcount (fun i hi => ?_) ?_
      · exact (hnew i hi).imp id fun hsent => hsent.1.1
      · rw [Nat.add_mul, Nat.one_mul]
        omega
    · have hsub : reviewers σ key start s' ⊆ reviewers σ key start s := fun i hi =>
        (hnew i hi).resolve_right fun hsent => hstale hsent.2.2
      have hcount := (Set.encard_le_encard hsub).trans hcount
      obtain hsame | ⟨-, -, -, verdict', -, -, -, hentry', -⟩ := step_entry h key
      · exact .ended bursts hcount (hsame.trans hentry) htime (hstored.trans hnow)
      · exact .ended bursts hcount hentry' (htime.trans hstored) hnow
  | ongoing bursts before hcount hsplit htime =>
    by_cases hstore : ∃ i, action = .store i ∧ i ∈ inFlightCalls σ key s
    · -- the first verdict that is stored ends the burst
      obtain ⟨i, rfl, hi⟩ := hstore
      obtain ⟨verdict, hentry⟩ := store_entry h hi
      refine .ended bursts (encard_burst hcount hflight fun j hj => ?_) hentry htime hnow
      apply hsplit
      refine (hnew j hj).resolve_right ?_
      rintro ⟨⟨-, request, hlookup⟩, -⟩
      contradiction
    · refine .ongoing bursts before hcount (fun j hj => ?_) (htime.trans hnow)
      rcases hnew j hj with hold | hsent
      · refine (hsplit hold).imp id fun hbefore => ?_
        refine (step_inFlight_reviewer h hbefore hj).resolve_right fun haction => ?_
        exact hstore ⟨j, haction, hbefore⟩
      · exact Or.inr hsent.1.1

omit [DecidableEq Key] in
theorem Bursts.encard_le {n : Nat} (hbursts : Bursts σ key start n s) (httl : 0 < σ.ttl)
    (hflight : (inFlightCalls σ key s).encard ≤ n) :
    (reviewers σ key start s).encard ≤ (n * ((s.now - start) / σ.ttl + 1) : Nat) := by
  have bound : ∀ {bursts}, start + bursts * σ.ttl ≤ s.now →
      (reviewers σ key start s).encard ≤ (n * (bursts + 1) : Nat) →
      (reviewers σ key start s).encard ≤ (n * ((s.now - start) / σ.ttl + 1) : Nat) := by
    intro bursts htime hcount
    have hle : bursts ≤ (s.now - start) / σ.ttl := by
      apply (Nat.le_div_iff_mul_le httl).mpr
      omega
    exact hcount.trans (Nat.cast_le.mpr (Nat.mul_le_mul_left n (by omega)))
  cases hbursts with
  | quiet hnone =>
    rw [hnone, Set.encard_empty]
    exact zero_le
  | ended bursts hcount hentry htime hstored => exact bound (htime.trans hstored) hcount
  | ongoing bursts before hcount hsplit htime =>
    exact bound htime (encard_burst hcount hflight hsplit)

/-- Where at most `n` calls for a key are in flight at a time, the calls that sent a review for it
since `start`, those that failed apart, are at most `n` in every `ttl` begun. -/
theorem run_reviewers {now n : Nat} {actions : List (Action Req Answer)} (httl : 0 < σ.ttl)
    (h : runFrom (step σ) (State.init now) actions = some s)
    (hflight : ∀ mid, Passes (step σ) (State.init now) actions mid →
      (inFlightCalls σ key mid).encard ≤ n) :
    (reviewers σ key start s).encard ≤ (n * ((s.now - start) / σ.ttl + 1) : Nat) := by
  have hrun : Owned s ∧ ((∀ mid, Passes (step σ) (State.init now) actions mid →
      (inFlightCalls σ key mid).encard ≤ n) → Bursts σ key start n s) := by
    refine runFrom_induction (Q := fun actions s => Owned s ∧
      ((∀ mid, Passes (step σ) (State.init now) actions mid →
        (inFlightCalls σ key mid).encard ≤ n) → Bursts σ key start n s)) ?_ ?_ h
    · exact ⟨init_owned now, fun _ => .quiet (Set.eq_empty_of_forall_notMem fun _ hi => hi)⟩
    · rintro actions mid action next hbefore ⟨howned, hmid⟩ hstep
      refine ⟨step_owned howned hstep, fun hflight => ?_⟩
      have hearlier := fun s hs => hflight s (Passes.append hs [action])
      exact step_bursts howned (hearlier mid (.of_run hbefore)) (hmid hearlier) hstep
  exact (hrun.2 hflight).encard_le httl (hflight s (.of_run h))

end Library.ReviewCache
