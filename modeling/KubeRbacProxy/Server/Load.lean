import KubeRbacProxy.Library.Occupancy
import KubeRbacProxy.Library.ReviewLoad
import KubeRbacProxy.Server.Sequential

/-! The load that the server puts on the API server.  However many requests come in, a record or a
token is reviewed only so often: at most once every 30 seconds for each request that is served at
the same time, reviews that fail apart. -/

namespace KubeRbacProxy

open Library ReviewCache

variable {d : Deployment} {lib : Jwt}

section ReviewCalls

variable {Req Key Spec Answer Verdict Error : Type} [DecidableEq Key]
variable {σ : Scheme Req Key Spec Answer Verdict Error} {key : Key}
variable {s s' : ReviewCache.State Req Key Spec Answer Verdict Error}

theorem step_comes_inFlight {action : Action Req Answer}
    (h : ReviewCache.step σ s action = some s') {c : Nat} (hc : c ∈ inFlightCalls σ key s') :
    c ∈ inFlightCalls σ key s ∨ ∃ request, action = .lookup c request := by
  refine ((step_call h c).inFlight hc).imp id ?_
  rintro ⟨-, request, haction, -⟩
  exact ⟨request, haction⟩

omit [DecidableEq Key] in
theorem result_not_inFlight [DecidableEq Req] {c : Nat} {request : Req}
    {result : Except Error Verdict} (h : resultOf request (s.calls c) = some result) :
    c ∉ inFlightCalls σ key s := by
  obtain ⟨time, hcall⟩ := resultOf_eq_some.mp h
  intro hc
  change (s.calls c).InFlight σ key at hc
  rw [hcall] at hc
  exact hc

end ReviewCalls

/-! ### The calls on each cache -/

variable {b b' : Backend lib}

theorem startCall_tokens {c : Nat} {call : ApiCall} (h : startCall d b c call = some b') :
    b'.tokens = b.tokens ∨ ∃ request, call = .token request ∧
      ReviewCache.step (tokenScheme d.args.authTokenAudiences) b.tokens (.lookup c request) =
        some b'.tokens := by
  cases call with
  | oidc token =>
    cases hauth : d.oidc with
    | none =>
      simp only [startCall, hauth, Option.some.injEq] at h
      exact Or.inl (by rw [h])
    | some auth =>
      simp only [startCall, hauth] at h
      obtain ⟨calls, -, rfl⟩ := Option.map_eq_some_iff.mp h
      exact Or.inl rfl
  | token request =>
    obtain ⟨tokens, hstep, rfl⟩ := Option.map_eq_some_iff.mp h
    exact Or.inr ⟨request, rfl, hstep⟩
  | access n attrs =>
    obtain ⟨access, -, rfl⟩ := Option.map_eq_some_iff.mp h
    exact Or.inl rfl

theorem startCall_access {c : Nat} {call : ApiCall} (h : startCall d b c call = some b') :
    b'.access = b.access ∨ ∃ n attrs, call = .access n attrs ∧
      ReviewCache.step accessScheme b.access (.lookup c attrs) = some b'.access := by
  cases call with
  | oidc token =>
    cases hauth : d.oidc with
    | none =>
      simp only [startCall, hauth, Option.some.injEq] at h
      exact Or.inl (by rw [h])
    | some auth =>
      simp only [startCall, hauth] at h
      obtain ⟨calls, -, rfl⟩ := Option.map_eq_some_iff.mp h
      exact Or.inl rfl
  | token request =>
    obtain ⟨tokens, -, rfl⟩ := Option.map_eq_some_iff.mp h
    exact Or.inl rfl
  | access n attrs =>
    obtain ⟨access, hstep, rfl⟩ := Option.map_eq_some_iff.mp h
    exact Or.inr ⟨n, attrs, rfl, hstep⟩

/-! What the backend does on its own looks nothing up. -/

theorem workCalls_tokens {event : BackendEvent} (h : workCalls d b event = some b') :
    b'.tokens = b.tokens ∨ ∃ action, (∀ c request, action ≠ .lookup c request) ∧
      ReviewCache.step (tokenScheme d.args.authTokenAudiences) b.tokens action =
        some b'.tokens := by
  cases event with
  | tick time =>
    obtain rfl := Option.some.inj h
    exact Or.inr ⟨.tick time, by simp, rfl⟩
  | acquire i =>
    obtain ⟨sent, -, rfl⟩ := acquireCall_eq h
    exact Or.inl rfl
  | oidcAnswer auth i answers | oidcStore auth i | oidcJudge auth i decodedAt =>
    obtain ⟨calls, -, rfl⟩ := Option.map_eq_some_iff.mp h
    exact Or.inl rfl
  | tokenAnswer i send =>
    obtain ⟨-, h⟩ := Option.ite_none_right_eq_some.mp h
    obtain ⟨tokens, hstep, rfl⟩ := Option.map_eq_some_iff.mp h
    exact Or.inr ⟨.answer i send, by simp, hstep⟩
  | tokenStore i =>
    obtain ⟨tokens, hstep, rfl⟩ := Option.map_eq_some_iff.mp h
    exact Or.inr ⟨.store i, by simp, hstep⟩
  | accessAnswer i send =>
    obtain ⟨-, h⟩ := Option.ite_none_right_eq_some.mp h
    obtain ⟨access, -, rfl⟩ := Option.map_eq_some_iff.mp h
    exact Or.inl rfl
  | accessStore i =>
    obtain ⟨access, -, rfl⟩ := Option.map_eq_some_iff.mp h
    exact Or.inl rfl

theorem workCalls_access {event : BackendEvent} (h : workCalls d b event = some b') :
    b'.access = b.access ∨ ∃ action, (∀ c attrs, action ≠ .lookup c attrs) ∧
      ReviewCache.step accessScheme b.access action = some b'.access := by
  cases event with
  | tick time =>
    obtain rfl := Option.some.inj h
    exact Or.inr ⟨.tick time, by simp, rfl⟩
  | acquire i =>
    obtain ⟨sent, -, rfl⟩ := acquireCall_eq h
    exact Or.inl rfl
  | oidcAnswer auth i answers | oidcStore auth i | oidcJudge auth i decodedAt =>
    obtain ⟨calls, -, rfl⟩ := Option.map_eq_some_iff.mp h
    exact Or.inl rfl
  | tokenAnswer i send =>
    obtain ⟨-, h⟩ := Option.ite_none_right_eq_some.mp h
    obtain ⟨tokens, -, rfl⟩ := Option.map_eq_some_iff.mp h
    exact Or.inl rfl
  | tokenStore i =>
    obtain ⟨tokens, -, rfl⟩ := Option.map_eq_some_iff.mp h
    exact Or.inl rfl
  | accessAnswer i send =>
    obtain ⟨-, h⟩ := Option.ite_none_right_eq_some.mp h
    obtain ⟨access, hstep, rfl⟩ := Option.map_eq_some_iff.mp h
    exact Or.inr ⟨.answer i send, by simp, hstep⟩
  | accessStore i =>
    obtain ⟨access, hstep, rfl⟩ := Option.map_eq_some_iff.mp h
    exact Or.inr ⟨.store i, by simp, hstep⟩

def tokenPart (d : Deployment) (lib : Jwt) (token : Text) : (server d lib).Part where
  kind call := ∃ request, call = .token request
  busy b c := c ∈ inFlightCalls (tokenScheme d.args.authTokenAudiences) token b.tokens
  start := by
    intro b c call b' hstart c' hbusy
    rcases startCall_tokens hstart with hsame | ⟨request, rfl, hstep⟩
    · rw [hsame] at hbusy
      exact Or.inl hbusy
    · refine (step_comes_inFlight hstep hbusy).imp id ?_
      rintro ⟨request', haction⟩
      exact ⟨(Action.lookup.inj haction).1.symm, request, rfl⟩
  work := by
    intro b event b' hwork c hbusy
    rcases workCalls_tokens hwork with hsame | ⟨action, hother, hstep⟩
    · rwa [hsame] at hbusy
    · refine (step_comes_inFlight hstep hbusy).resolve_right ?_
      rintro ⟨request, haction⟩
      exact hother c request haction
  result := by
    rintro b c - res hres ⟨request, rfl⟩
    exact result_not_inFlight hres

def accessPart (d : Deployment) (lib : Jwt) (key : Text) : (server d lib).Part where
  kind call := ∃ n attrs, call = .access n attrs
  busy b c := c ∈ inFlightCalls accessScheme key b.access
  start := by
    intro b c call b' hstart c' hbusy
    rcases startCall_access hstart with hsame | ⟨n, attrs, rfl, hstep⟩
    · rw [hsame] at hbusy
      exact Or.inl hbusy
    · refine (step_comes_inFlight hstep hbusy).imp id ?_
      rintro ⟨attrs', haction⟩
      exact ⟨(Action.lookup.inj haction).1.symm, n, attrs, rfl⟩
  work := by
    intro b event b' hwork c hbusy
    rcases workCalls_access hwork with hsame | ⟨action, hother, hstep⟩
    · rwa [hsame] at hbusy
    · refine (step_comes_inFlight hstep hbusy).resolve_right ?_
      rintro ⟨attrs, haction⟩
      exact hother c attrs haction
  result := by
    rintro b c - res hres ⟨n, attrs, rfl⟩
    exact result_not_inFlight hres

/-! ### How many reviews are sent -/

/-- Where at most `n` requests are served at a time, the calls that sent a review of one token, or
of records with one key, since `start`, those that failed apart, are at most `n` in every 30 seconds
begun. -/
theorem reviews_limited {now n : Nat} {actions : List (server d lib).Action}
    {s : (server d lib).State} (hrun : ServerRun d lib now actions s)
    (hload : ∀ s0, ServerPasses now actions s0 → ((server d lib).serving s0).encard ≤ n)
    (start : Nat) :
    (∀ token, (reviewers (tokenScheme d.args.authTokenAudiences) token start
      s.backend.tokens).encard ≤ (n * ((s.backend.tokens.now - start) / cacheTtl + 1) : Nat)) ∧
    ∀ key, (reviewers accessScheme key start s.backend.access).encard ≤
      (n * ((s.backend.access.now - start) / cacheTtl + 1) : Nat) := by
  have httl : 0 < cacheTtl := by decide
  have busy : ∀ part : (server d lib).Part, (∀ c, ¬part.busy (Backend.init d now) c) →
      ∀ s0, ServerPasses now actions s0 → {c | part.busy s0.backend c}.encard ≤ n := by
    rintro part hidle s0 ⟨before, after, rfl, hbefore⟩
    exact (Pool.run_busy part hidle hbefore).trans (hload s0 ⟨before, after, rfl, hbefore⟩)
  constructor
  · intro token
    obtain ⟨calls, hcalls, hthrough⟩ := serverRun_tokens hrun
    refine run_reviewers httl hcalls fun mid hmid => ?_
    obtain ⟨s0, h0, rfl⟩ := hthrough mid hmid
    exact busy (tokenPart d lib token) (fun c hc => hc) s0 h0
  · intro key
    obtain ⟨calls, hcalls, hthrough⟩ := serverRun_access hrun
    refine run_reviewers httl hcalls fun mid hmid => ?_
    obtain ⟨s0, h0, rfl⟩ := hthrough mid hmid
    exact busy (accessPart d lib key) (fun c hc => hc) s0 h0

theorem reviews_limited_pods : ∃ s, ServerRun podDeployment foreignLib 0 podActions s ∧
    (∀ token, (reviewers (tokenScheme podDeployment.args.authTokenAudiences) token 0
      s.backend.tokens).encard ≤ (1 * ((s.backend.tokens.now - 0) / cacheTtl + 1) : Nat)) ∧
    ∀ key, (reviewers accessScheme key 0 s.backend.access).encard ≤
      (1 * ((s.backend.access.now - 0) / cacheTtl + 1) : Nat) := by
  obtain ⟨s, -, -, hrun, -⟩ := podActions_forward
  refine ⟨s, hrun, reviews_limited hrun ?_ 0⟩
  rintro s0 ⟨before, after, hactions, hbefore⟩
  have hone : (server podDeployment foreignLib).serving s0 ⊆ {0} := by
    rintro i ⟨task, htask, -⟩
    obtain ⟨request, harrived⟩ := Pool.run_arrived hbefore (i := i) (by simp [htask])
    have hmem : Pool.Action.arrive i request ∈ podActions := by
      rw [hactions]
      exact List.mem_append_left _ harrived
    have harrival : i = 0 ∧ request = podIncoming := by simpa [podActions] using hmem
    exact harrival.1
  exact (Set.encard_le_encard hone).trans (by simp)

end KubeRbacProxy
