import KubeRbacProxy.Kube.AccessCache
import KubeRbacProxy.Kube.Limiter
import KubeRbacProxy.Library.Pool
import KubeRbacProxy.Library.ReviewHistory
import KubeRbacProxy.Oidc.TokenHistory
import KubeRbacProxy.Proxy.Calls

/-! The server while it runs.  Its two listeners hand requests to proxies that share the counter,
the authenticators, and the Kubernetes client; each request runs the filter, and the calls of all
requests work on the same caches and take their grants from the same limiter in any order. -/

namespace KubeRbacProxy

open Library ReviewCache

deriving instance DecidableEq for Request, BearerRequest, OidcAuthenticator

structure ServerArgs extends ProxyArgs where
  authHeaderGroupsFieldSeparator : Text := "|".toList

/-- What `main` has made of its arguments when it starts the server: the configuration loaded, and
the OIDC authenticator and the Kubernetes client where there are any. -/
structure Deployment where
  args : ServerArgs
  authz : AuthorizationConfig
  oidc : Option OidcAuthenticator
  kubeClient : Bool

/-- The fields of `build_proxy` that the filters read. -/
def buildProxy (a : ServerArgs) (authz : AuthorizationConfig) (authenticators : List Authenticator)
    (kubeClient : Option Client) (operationalEndpoints : Bool) : Proxy where
  authz := authz
  allow := a.allowPaths
  ignore := a.ignorePaths
  authHeaders := a.authHeaderFieldsEnabled
  userHeader := a.authHeaderUserFieldName
  groupsHeader := a.authHeaderGroupsFieldName
  groupSeparator := a.authHeaderGroupsFieldSeparator
  authenticators := authenticators
  kubeClient := kubeClient
  operationalEndpoints := operationalEndpoints

/-! ### What the calls work on -/

abbrev TokenCalls :=
  ReviewCache.State BearerRequest Text TokenSpec (Attempts TokenResponse) (Option Identity) Text

abbrev AccessCalls :=
  ReviewCache.State Attributes Text AccessSpec (Attempts AccessResponse) Bool Text

/-- A call of `requestWithRetry`: it asks for a grant, from `wake` on, after so many requests; or it
waits for the answer to the last of them, after which it would sleep until `wake`; or a pass of
`acquire` panicked, and it never goes on. -/
inductive Sender where
  | asking (sent wake : Nat)
  | awaiting (sent wake : Nat)
  | panicked

/-- The requests sent so far, where the call may ask for the next now. -/
def Sender.asks (now : Nat) : Sender → Option Nat
  | .asking sent wake | .awaiting sent wake => if sent < 3 ∧ wake ≤ now then some sent else none
  | .panicked => none

def Sender.awaits (n : Nat) : Sender → Bool
  | .awaiting sent _ => sent == n
  | _ => false

/-- A call that has sent so many requests, after a pass at `now`. -/
def Pass.sender (now sent : Nat) : Pass → Sender
  | .granted => .awaiting (sent + 1) (now + 50 * (sent + 1) * 10 ^ 6)
  | .sleeps nanos => .asking sent (now + nanos)
  | .panicked => .panicked

/-- The caches with the calls on them, and the limiter that the calls which are at a review share.
An OIDC authenticator has its own keys.  The clocks of the caches show the same time. -/
structure Backend (lib : Jwt) where
  oidc : (auth : OidcAuthenticator) → OidcState lib auth
  tokens : TokenCalls
  access : AccessCalls
  rate : Limiter
  senders : Nat → Sender

variable {lib : Jwt} (d : Deployment)

def Backend.init (now : Nat) : Backend lib where
  oidc auth := OidcState.init lib auth now
  tokens := ReviewCache.State.init now
  access := ReviewCache.State.init now
  rate := limiterInit d.args.kubeApiBurst now
  senders _ := .asking 0 now

def Backend.setOidc (s : Backend lib) (auth : OidcAuthenticator) (calls : OidcState lib auth) :
    Backend lib :=
  { s with oidc := Function.update s.oidc auth calls }

def reviewing {Req Spec Answer Verdict Error : Type} : Call Req Spec Answer Verdict Error → Bool
  | .reviewing _ _ => true
  | _ => false

/-- What happens to calls after they were started: time passes, a pass of `acquire` is made, an
answer comes in, a result is stored, or a token is decoded.  The answer to a review has the outcomes
of all its attempts. -/
inductive BackendEvent where
  | tick (time : Nat)
  | acquire (call : Nat)
  | oidcAnswer (auth : OidcAuthenticator) (call : Nat) (answers : Answers)
  | oidcStore (auth : OidcAuthenticator) (call : Nat)
  | oidcJudge (auth : OidcAuthenticator) (call : Nat) (decodedAt : Nat)
  | tokenAnswer (call : Nat) (send : Attempts TokenResponse)
  | tokenStore (call : Nat)
  | accessAnswer (call : Nat) (send : Attempts AccessResponse)
  | accessStore (call : Nat)

/-- Without an OIDC authenticator a call to one finds nothing. -/
def startCall (s : Backend lib) (i : Nat) : ApiCall → Option (Backend lib)
  | .oidc token =>
    match d.oidc with
    | none => some s
    | some auth => (oidcStep (s.oidc auth) (.begin i token)).map (s.setOidc auth)
  | .token request =>
    (ReviewCache.step (tokenScheme d.args.authTokenAudiences) s.tokens (.lookup i request)).map
      fun tokens => { s with tokens := tokens }
  | .access _ attrs =>
    (ReviewCache.step accessScheme s.access (.lookup i attrs)).map
      fun access => { s with access := access }

/-- A pass of `acquire` for call `i`, if that is at a review and has not fallen asleep. -/
def acquireCall (s : Backend lib) (i : Nat) : Option (Backend lib) :=
  let now := s.tokens.now
  if reviewing (s.tokens.calls i) || reviewing (s.access.calls i) then
    ((s.senders i).asks now).map fun sent =>
      let (pass, rate) := acquireOnce (.nearest binary64) d.args.kubeApiQps d.args.kubeApiBurst now
        s.rate
      { s with rate := rate, senders := Function.update s.senders i (pass.sender now sent) }
  else none

def workCalls (s : Backend lib) : BackendEvent → Option (Backend lib)
  | .tick time => some
    { s with
      oidc := fun auth => { s.oidc auth with now := (s.oidc auth).now + time }
      tokens := { s.tokens with now := s.tokens.now + time }
      access := { s.access with now := s.access.now + time } }
  | .acquire i => acquireCall d s i
  | .oidcAnswer auth i answers =>
    (oidcStep (s.oidc auth) (.answer i answers)).map (s.setOidc auth)
  | .oidcStore auth i => (oidcStep (s.oidc auth) (.store i)).map (s.setOidc auth)
  | .oidcJudge auth i decodedAt =>
    (oidcStep (s.oidc auth) (.judge i decodedAt)).map (s.setOidc auth)
  | .tokenAnswer i send =>
    if (s.senders i).awaits (requestsSent send 0 2) then
      (ReviewCache.step (tokenScheme d.args.authTokenAudiences) s.tokens (.answer i send)).map
        fun tokens => { s with tokens := tokens }
    else none
  | .tokenStore i =>
    (ReviewCache.step (tokenScheme d.args.authTokenAudiences) s.tokens (.store i)).map
      fun tokens => { s with tokens := tokens }
  | .accessAnswer i send =>
    if (s.senders i).awaits (requestsSent send 0 2) then
      (ReviewCache.step accessScheme s.access (.answer i send)).map
        fun access => { s with access := access }
    else none
  | .accessStore i =>
    (ReviewCache.step accessScheme s.access (.store i)).map
      fun access => { s with access := access }

def OidcCall.resultFor {auth : OidcAuthenticator} (token : Text) :
    OidcCall lib auth → Option (Except Text (Option Identity))
  | .dismissed token' result => if token' = token then some result else none
  | .returned read result => if read.token = token then some result else none
  | _ => none

def resultOf {Req Spec Answer Verdict Error : Type} [DecidableEq Req] (request : Req) :
    Call Req Spec Answer Verdict Error → Option (Except Error Verdict)
  | .returned request' result _ => if request' = request then some result else none
  | _ => none

/-- The result of call `i`, once it has returned. -/
def callResult (s : Backend lib) (i : Nat) : (call : ApiCall) → Option call.Res
  | .oidc token =>
    match d.oidc with
    | none => some (.ok none)
    | some auth => ((s.oidc auth).calls i).resultFor token
  | .token request => resultOf request (s.tokens.calls i)
  | .access _ attrs => resultOf attrs (s.access.calls i)

/-! ### Results stay -/

theorem resultFor_eq_some {auth : OidcAuthenticator} {token : Text} {call : OidcCall lib auth}
    {result : Except Text (Option Identity)} : call.resultFor token = some result ↔
      call = .dismissed token result ∨
        ∃ read, read.token = token ∧ call = .returned read result := by
  cases call with
  | dismissed token' result' => simp [OidcCall.resultFor]
  | returned read result' =>
    simp only [OidcCall.resultFor, Option.ite_none_right_eq_some, Option.some.injEq, reduceCtorEq,
      OidcCall.returned.injEq, false_or]
    constructor
    · rintro ⟨htoken, rfl⟩
      exact ⟨read, htoken, rfl, rfl⟩
    · rintro ⟨read', htoken, rfl, rfl⟩
      exact ⟨htoken, rfl⟩
  | idle | fetching _ _ | storing _ _ _ | judging _ _ => simp [OidcCall.resultFor]

theorem resultOf_eq_some {Req Spec Answer Verdict Error : Type} [DecidableEq Req] {request : Req}
    {call : Call Req Spec Answer Verdict Error} {result : Except Error Verdict} :
    resultOf request call = some result ↔ ∃ time, call = .returned request result time := by
  cases call with
  | returned request' result' time =>
    simp only [resultOf, Option.ite_none_right_eq_some, Option.some.injEq, Call.returned.injEq]
    constructor
    · rintro ⟨rfl, rfl⟩
      exact ⟨time, rfl, rfl, rfl⟩
    · rintro ⟨time', rfl, rfl, -⟩
      exact ⟨rfl, rfl⟩
  | idle | reviewing _ _ | storing _ _ _ => simp [resultOf]

theorem oidcStep_resultFor {auth : OidcAuthenticator} {s s' : OidcState lib auth}
    {action : OidcAction} (h : oidcStep s action = some s') {i : Nat} {token : Text}
    {result : Except Text (Option Identity)} (hres : (s.calls i).resultFor token = some result) :
    (s'.calls i).resultFor token = some result := by
  -- a step moves a call that has not returned
  have kept : ∀ {j call} {s'' : OidcState lib auth}, s''.calls = Function.update s.calls j call →
      (s.calls j).resultFor token = none → (s''.calls i).resultFor token = some result := by
    intro j call s'' hcalls hnone
    rw [hcalls, Function.update_of_ne, hres]
    rintro rfl
    rw [hnone] at hres
    contradiction
  cases oidcStep_moves h with
  | tick time => exact hres
  | dismiss hcall | hit hcall | miss hcall | fail hcall | serve set hcall | store hcall
  | judge decodedAt hcall =>
    refine kept rfl ?_
    rw [hcall]
    rfl

theorem step_resultOf {Req Key Spec Answer Verdict Error : Type} [DecidableEq Req] [DecidableEq Key]
    {σ : Scheme Req Key Spec Answer Verdict Error}
    {s s' : ReviewCache.State Req Key Spec Answer Verdict Error} {action : Action Req Answer}
    (h : ReviewCache.step σ s action = some s') {i : Nat} {request : Req}
    {result : Except Error Verdict} (hres : resultOf request (s.calls i) = some result) :
    resultOf request (s'.calls i) = some result := by
  obtain ⟨time, hcall⟩ := resultOf_eq_some.mp hres
  exact resultOf_eq_some.mpr ⟨time, step_returned h hcall⟩

/-! ### What a step of the backend is for each of the caches -/

/-- A step of the backend: of the calls on each cache, it is a step or none. -/
structure BackendStep (s s' : Backend lib) : Prop where
  oidc : ∀ auth, s'.oidc auth = s.oidc auth ∨
    ∃ action, oidcStep (s.oidc auth) action = some (s'.oidc auth)
  tokens : s'.tokens = s.tokens ∨
    ∃ action, ReviewCache.step (tokenScheme d.args.authTokenAudiences) s.tokens action =
      some s'.tokens
  access : s'.access = s.access ∨
    ∃ action, ReviewCache.step accessScheme s.access action = some s'.access

variable {d} {s s' : Backend lib}

/-- A pass of `acquire` moves the limiter and its own call, and no cache. -/
theorem acquireCall_eq {i : Nat} (h : acquireCall d s i = some s') :
    ∃ sent, (s.senders i).asks s.tokens.now = some sent ∧
      s' = { s with
        rate := (acquireOnce (.nearest binary64) d.args.kubeApiQps d.args.kubeApiBurst s.tokens.now
          s.rate).2
        senders := Function.update s.senders i ((acquireOnce (.nearest binary64) d.args.kubeApiQps
          d.args.kubeApiBurst s.tokens.now s.rate).1.sender s.tokens.now sent) } := by
  simp only [acquireCall, Option.ite_none_right_eq_some, Option.map_eq_some_iff] at h
  obtain ⟨-, sent, hsent, rfl⟩ := h
  exact ⟨sent, hsent, rfl⟩

theorem BackendStep.of_oidc {auth : OidcAuthenticator} {action : OidcAction}
    (h : (oidcStep (s.oidc auth) action).map (s.setOidc auth) = some s') : BackendStep d s s' := by
  obtain ⟨calls, hstep, rfl⟩ := Option.map_eq_some_iff.mp h
  refine ⟨fun other => ?_, Or.inl rfl, Or.inl rfl⟩
  by_cases hother : other = auth
  · subst hother
    refine Or.inr ⟨action, hstep.trans (congrArg some ?_)⟩
    exact (Function.update_self ..).symm
  · exact Or.inl (Function.update_of_ne hother ..)

theorem BackendStep.of_tokens {action : Action BearerRequest (Attempts TokenResponse)}
    (h : (ReviewCache.step (tokenScheme d.args.authTokenAudiences) s.tokens action).map
      (fun tokens => { s with tokens := tokens }) = some s') : BackendStep d s s' := by
  obtain ⟨tokens, hstep, rfl⟩ := Option.map_eq_some_iff.mp h
  exact ⟨fun _ => Or.inl rfl, Or.inr ⟨action, hstep⟩, Or.inl rfl⟩

theorem BackendStep.of_access {action : Action Attributes (Attempts AccessResponse)}
    (h : (ReviewCache.step accessScheme s.access action).map
      (fun access => { s with access := access }) = some s') : BackendStep d s s' := by
  obtain ⟨access, hstep, rfl⟩ := Option.map_eq_some_iff.mp h
  exact ⟨fun _ => Or.inl rfl, Or.inl rfl, Or.inr ⟨action, hstep⟩⟩

theorem startCall_step {i : Nat} {call : ApiCall} (h : startCall d s i call = some s') :
    BackendStep d s s' := by
  cases call with
  | oidc token =>
    cases hauth : d.oidc with
    | none =>
      simp only [startCall, hauth, Option.some.injEq] at h
      subst h
      exact ⟨fun _ => Or.inl rfl, Or.inl rfl, Or.inl rfl⟩
    | some auth =>
      simp only [startCall, hauth] at h
      exact .of_oidc h
  | token request => exact .of_tokens h
  | access n attrs => exact .of_access h

theorem workCalls_step {event : BackendEvent} (h : workCalls d s event = some s') :
    BackendStep d s s' := by
  cases event with
  | tick time =>
    obtain rfl := Option.some.inj h
    exact ⟨fun _ => Or.inr ⟨.tick time, rfl⟩, Or.inr ⟨.tick time, rfl⟩, Or.inr ⟨.tick time, rfl⟩⟩
  | acquire i =>
    obtain ⟨sent, -, rfl⟩ := acquireCall_eq h
    exact ⟨fun _ => Or.inl rfl, Or.inl rfl, Or.inl rfl⟩
  | oidcAnswer auth i answers => exact .of_oidc h
  | oidcStore auth i => exact .of_oidc h
  | oidcJudge auth i decodedAt => exact .of_oidc h
  | tokenAnswer i send => exact .of_tokens (Option.ite_none_right_eq_some.mp h).2
  | tokenStore i => exact .of_tokens h
  | accessAnswer i send => exact .of_access (Option.ite_none_right_eq_some.mp h).2
  | accessStore i => exact .of_access h

theorem callResult_oidc {i : Nat} {token : Text} {res : Except Text (Option Identity)}
    (hres : callResult d s i (.oidc token) = some res) : (d.oidc = none ∧ res = .ok none) ∨
      ∃ auth, d.oidc = some auth ∧ ((s.oidc auth).calls i).resultFor token = some res := by
  cases hauth : d.oidc with
  | none =>
    simp only [callResult, hauth, Option.some.injEq] at hres
    exact Or.inl ⟨rfl, hres.symm⟩
  | some auth =>
    simp only [callResult, hauth] at hres
    exact Or.inr ⟨auth, rfl, hres⟩

theorem BackendStep.result (h : BackendStep d s s') {i : Nat} {call : ApiCall} {res : call.Res}
    (hres : callResult d s i call = some res) : callResult d s' i call = some res := by
  cases call with
  | oidc token =>
    cases hauth : d.oidc with
    | none =>
      simp only [callResult, hauth] at hres ⊢
      exact hres
    | some auth =>
      simp only [callResult, hauth] at hres ⊢
      rcases h.oidc auth with hsame | ⟨action, hstep⟩
      · rwa [hsame]
      · exact oidcStep_resultFor hstep hres
  | token request =>
    rcases h.tokens with hsame | ⟨action, hstep⟩
    · rw [callResult, hsame]
      exact hres
    · exact step_resultOf hstep hres
  | access n attrs =>
    rcases h.access with hsame | ⟨action, hstep⟩
    · rw [callResult, hsame]
      exact hres
    · exact step_resultOf hstep hres

/-! ### The server -/

variable (d)

/-- A request with the listener that it arrived at, the order in which its headers are met, and the
fate of the reply. -/
structure Incoming where
  operational : Bool
  iter : Iteration
  respond : Reply → Except Text Unit
  session : Session

/-- The proxy of a listener, of which only the settings are read. -/
def Deployment.settings (operational : Bool) : Proxy :=
  buildProxy d.args d.authz [] none operational

def Deployment.counts (incoming : Incoming) : Bool :=
  !operational (d.settings incoming.operational) incoming.session.reqHeader.path

def Deployment.filter (requestsTotal : UInt64) (incoming : Incoming) : Calling Filtered :=
  filterCalls incoming.respond newCtx requestsTotal (d.settings incoming.operational)
    (callingAuthenticators d.args.toArgs d.oidc d.kubeClient) d.kubeClient incoming.iter
    incoming.session

def server (lib : Jwt) : Pool UInt64 Incoming ApiCall ApiCall.Res Filtered where
  service :=
    { State := Backend lib
      Event := BackendEvent
      start := startCall d
      work := workCalls d
      result := callResult d
      start_result := fun h _ _ _ => (startCall_step h).result
      work_result := fun h _ _ _ => (workCalls_step h).result }
  arrive requestsTotal incoming :=
    (if d.counts incoming then requestsTotal + 1 else requestsTotal,
      d.filter requestsTotal incoming)

def started (lib : Jwt) (now : Nat) : (server d lib).State := Pool.State.init 0 (Backend.init d now)

/-- The server comes to `s` from its start by these steps. -/
def ServerRun (lib : Jwt) (now : Nat) (actions : List (server d lib).Action)
    (s : (server d lib).State) : Prop :=
  Pool.run (started d lib now) actions = some s

end KubeRbacProxy
