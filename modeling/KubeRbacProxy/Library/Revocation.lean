import KubeRbacProxy.Library.Occupancy
import KubeRbacProxy.Library.ReviewLoad

/-! When a verdict that the reviewer takes back is served for the last time.  A reply that was on
its way may still be stored after that; from then on the table forgets it within `ttl`, so a call
that begins later rests on no review that gave the verdict. -/

namespace Library.ReviewCache

variable {Req Key Spec Answer Verdict Error : Type}
variable {s s' : State Req Key Spec Answer Verdict Error} {c time : Nat}

/-- The good answers to what is asked were given before `since`, and are stored by `settled` if at
all. -/
def Withdrawn (s : State Req Key Spec Answer Verdict Error) (asks : Spec → Prop)
    (good : Answer → Prop) (since settled : Nat) : Prop :=
  ∀ review ∈ s.reviews, asks review.spec → good review.answer → review.answeredAt < since ∧
    ∀ storedAt, (storedAt, review) ∈ s.stored → storedAt ≤ settled

/-- Call `c` has left a trace. -/
def Touched (s : State Req Key Spec Answer Verdict Error) (c : Nat) : Prop :=
  s.calls c ≠ .idle ∨ ∃ review ∈ s.reviews, review.caller = c

/-- Call `c` begins at `time` or later. -/
structure Begins (s : State Req Key Spec Answer Verdict Error) (c time : Nat) : Prop where
  now : time ≤ s.now
  answered : ∀ review ∈ s.reviews, review.caller = c → time ≤ review.answeredAt
  returned : ∀ request result returnedAt, s.calls c = .returned request result returnedAt →
    time ≤ returnedAt

theorem Begins.of_untouched (h : ¬Touched s c) : Begins s c s.now where
  now := le_rfl
  answered review hmem hcaller := absurd (Or.inr ⟨review, hmem, hcaller⟩) h
  returned request result returnedAt hcall := absurd (Or.inl (by simp [hcall])) h

theorem Begins.mono {before : Nat} (h : Begins s c time) (hle : before ≤ time) :
    Begins s c before where
  now := hle.trans h.now
  answered review hmem hcaller := hle.trans (h.answered review hmem hcaller)
  returned request result returnedAt hcall :=
    hle.trans (h.returned request result returnedAt hcall)

theorem init_untouched (now : Nat) :
    ¬Touched (State.init now : State Req Key Spec Answer Verdict Error) c := by
  rintro (hcall | ⟨review, hmem, -⟩)
  · exact hcall rfl
  · exact List.not_mem_nil hmem

section Steps

variable [DecidableEq Key] {σ : Scheme Req Key Spec Answer Verdict Error}
  {action : Action Req Answer}

/-- A review comes from a call that was under way. -/
theorem step_answers (h : step σ s action = some s') {review : Review Spec Answer}
    (hmem : review ∈ s'.reviews) : review ∈ s.reviews ∨
      s.calls review.caller ≠ .idle ∧ review.answeredAt = s.now := by
  cases action with
  | tick time =>
    obtain rfl := Option.some.inj h
    exact Or.inl hmem
  | lookup i request =>
    obtain ⟨-, ⟨verdict, -, rfl⟩ | ⟨-, rfl⟩⟩ := step_lookup h <;> exact Or.inl hmem
  | answer i answer =>
    obtain ⟨request, sentAt, hcall, ⟨verdict, -, rfl⟩ | ⟨error, -, rfl⟩⟩ := step_answer h
    · refine (List.mem_cons.mp hmem).symm.imp id ?_
      rintro rfl
      exact ⟨by simp [hcall], rfl⟩
    · refine (List.mem_cons.mp hmem).symm.imp id ?_
      rintro rfl
      exact ⟨by simp [hcall], rfl⟩
  | store i =>
    obtain ⟨request, review', verdict, -, rfl⟩ := step_store h
    exact Or.inl hmem

theorem step_touched (h : step σ s action = some s') (hc : Touched s' c) :
    Touched s c ∨ ∃ request, action = .lookup c request := by
  rcases hc with hcall | ⟨review, hmem, rfl⟩
  · have hstep := step_call h c
    generalize s'.calls c = call at hcall hstep
    cases hstep with
    | stay => exact Or.inl (Or.inl hcall)
    | @hit request | @send request => exact Or.inr ⟨request, rfl⟩
    | judged hbefore | failed hbefore | stored hbefore =>
      exact Or.inl (Or.inl (by simp [hbefore]))
  · rcases step_answers h hmem with hold | ⟨hcall, -⟩
    · exact Or.inl (Or.inr ⟨review, hold, rfl⟩)
    · exact Or.inl (Or.inl hcall)

theorem step_begins (h : step σ s action = some s') (hc : Begins s c time) :
    Begins s' c time where
  now := hc.now.trans (step_now h)
  answered review hmem hcaller := by
    rcases step_answers h hmem with hold | ⟨-, hnow⟩
    · exact hc.answered review hold hcaller
    · rw [hnow]
      exact hc.now
  returned request result returnedAt hcall := by
    have hstep := step_call h c
    rw [hcall] at hstep
    generalize hafter : Call.returned request result returnedAt = call at hstep
    cases hstep with
    | stay => exact hc.returned request result returnedAt hafter.symm
    | hit | failed | stored =>
      obtain ⟨-, -, rfl⟩ := Call.returned.inj hafter
      exact hc.now
    | send | judged => contradiction

end Steps

/-- A call that begins when the verdict has been withdrawn, and is out of the table, rests on no
review that gave it. -/
theorem Withdrawn.not_good {asks : Spec → Prop} {good : Answer → Prop} {since settled ttl : Nat}
    (h : Withdrawn s asks good since settled) (hc : Begins s c time) (hsince : since ≤ time)
    (helapsed : settled + ttl ≤ time) {review : Review Spec Answer} (hmem : review ∈ s.reviews)
    (hasks : asks review.spec) (hcurrent : review.caller = c ∨
      ∃ request result returnedAt storedAt, s.calls c = .returned request result returnedAt ∧
        (storedAt, review) ∈ s.stored ∧ storedAt ≤ returnedAt ∧ returnedAt - storedAt < ttl) :
    ¬good review.answer := by
  intro hgood
  obtain ⟨hbefore, hsettled⟩ := h review hmem hasks hgood
  rcases hcurrent with hcaller | ⟨request, result, returnedAt, storedAt, hcall, hstored, -, hage⟩
  · have hanswered := hc.answered review hmem hcaller
    omega
  · have hreturned := hc.returned request result returnedAt hcall
    have hby := hsettled storedAt hstored
    omega

end Library.ReviewCache

/-! ### A cache that the requests of a pool call -/

namespace Library.Pool

open ReviewCache

variable {Front Request Op : Type} {Res : Op → Type} {α : Type}
variable {pool : Pool Front Request Op Res α} {s s' : pool.State}
variable {Req Key Spec Answer Verdict Error : Type} [DecidableEq Key]
variable {σ : Scheme Req Key Spec Answer Verdict Error}

variable (pool σ) in
/-- A part of the service that is a cache, where only what requests call looks anything up. -/
structure Cached where
  calls : pool.service.State → ReviewCache.State Req Key Spec Answer Verdict Error
  start : ∀ {b c op b'}, pool.service.start b c op = some b' → calls b' = calls b ∨
    ∃ request, ReviewCache.step σ (calls b) (.lookup c request) = some (calls b')
  work : ∀ {b event b'}, pool.service.work b event = some b' → calls b' = calls b ∨
    ∃ action, (∀ c request, action ≠ .lookup c request) ∧
      ReviewCache.step σ (calls b) action = some (calls b')

variable (cached : pool.Cached σ)

theorem Cached.untouched {front : Front} {backend : pool.service.State} {now : Nat}
    (hinit : cached.calls backend = .init now) {actions : List pool.Action}
    (h : run (State.init front backend) actions = some s) {i : Nat} (hi : s.tasks i = none)
    (k : Nat) : ¬Touched (cached.calls s.backend) (Nat.pair i k) := by
  refine run_untouched (fun b c => Touched (cached.calls b) c) ?_ ?_ ?_ h hi k
  · intro b c op b' hstart c' hc
    rcases cached.start hstart with hsame | ⟨request, hstep⟩
    · rw [hsame] at hc
      exact Or.inl hc
    · refine (step_touched hstep hc).imp id ?_
      rintro ⟨request', haction⟩
      exact (Action.lookup.inj haction).1.symm
  · intro b event b' hwork c hc
    rcases cached.work hwork with hsame | ⟨action, hother, hstep⟩
    · rwa [hsame] at hc
    · refine (step_touched hstep hc).resolve_right ?_
      rintro ⟨request, haction⟩
      exact hother c request haction
  · intro c
    rw [hinit]
    exact init_untouched now

theorem Cached.begins {actions : List pool.Action} (h : run s actions = some s') {c time : Nat}
    (hc : Begins (cached.calls s.backend) c time) : Begins (cached.calls s'.backend) c time := by
  refine run_backend (I := fun b => Begins (cached.calls b) c time) ?_ ?_ hc h
  · intro b c' op b' hb hstart
    rcases cached.start hstart with hsame | ⟨request, hstep⟩
    · rwa [hsame]
    · exact step_begins hstep hb
  · intro b event b' hb hwork
    rcases cached.work hwork with hsame | ⟨action, -, hstep⟩
    · rwa [hsame]
    · exact step_begins hstep hb

/-- The calls of a request that has not arrived begin when it does or later. -/
theorem Cached.begins_later {front : Front} {backend : pool.service.State} {now : Nat}
    (hinit : cached.calls backend = .init now) {earlier later : List pool.Action}
    (hearlier : run (State.init front backend) earlier = some s) (hlater : run s later = some s')
    {i : Nat} (hi : s.tasks i = none) (k : Nat) :
    Begins (cached.calls s'.backend) (Nat.pair i k) (cached.calls s.backend).now :=
  cached.begins hlater (.of_untouched (cached.untouched hinit hearlier hi k))

end Library.Pool
