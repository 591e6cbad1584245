import KubeRbacProxy.Kube.TokenCache
import KubeRbacProxy.Library.Program
import KubeRbacProxy.Main
import KubeRbacProxy.Proxy.Filter

/-! The request filter with its calls left open: to the OIDC authenticator, to the authenticator of
token reviews, and to `authorize`.  Answered, it is `requestFilter`, and no request makes a call
twice. -/

namespace KubeRbacProxy

open Library

/-- What a request is waiting for; `authorize` is called for the record with this index. -/
inductive ApiCall where
  | oidc (token : Text)
  | token (request : BearerRequest)
  | access (n : Nat) (attrs : Attributes)

abbrev ApiCall.Res : ApiCall → Type
  | .oidc _ => Except Text (Option Identity)
  | .token _ => Except Text (Option Identity)
  | .access _ _ => Except Text Bool

abbrev Calling (α : Type) := Program ApiCall ApiCall.Res α

abbrev CallingAuthenticator := Request → Calling (Except Text (Option Identity))

def certCalls : CallingAuthenticator := fun request => .done (certAuthenticate [] request)

def oidcCalls : CallingAuthenticator := fun request =>
  match bearerToken request with
  | none => .done (.ok none)
  | some token => .call (.oidc token) .done

def tokenCalls : CallingAuthenticator := fun request =>
  match h : bearerToken request with
  | none => .done (.ok none)
  | some token => .call (.token ⟨request, token, h⟩) .done

def callingAuthenticators (args : Args) (oidc : Option OidcAuthenticator) (kubeClient : Bool) :
    List CallingAuthenticator :=
  (if args.clientCaFile.isSome then [certCalls] else []) ++ (oidc.toList.map fun _ => oidcCalls) ++
    (if kubeClient then [tokenCalls] else [])

def chainCalls : List CallingAuthenticator → CallingAuthenticator
  | [], _ => .done (.ok none)
  | authenticator :: rest, request => (authenticator request).bind fun
    | .error e => .done (.error e)
    | .ok (some identity) => .done (.ok (some identity))
    | .ok none => chainCalls rest request

def authorizeCalls (rules : List StaticRule) (kubeClient : Bool) :
    Nat → List Attributes → Calling (Except Text Bool)
  | _, [] => .done (.ok true)
  | n, attr :: rest =>
    if staticAllows rules attr then authorizeCalls rules kubeClient (n + 1) rest
    else if kubeClient then
      .call (.access n attr) fun
        | .error e => .done (.error e)
        | .ok false => .done (.ok false)
        | .ok true => authorizeCalls rules kubeClient (n + 1) rest
    else .done (.ok false)

section FilterCalls

variable (respond : Reply → Except Text Unit) (ctx : RequestContext) (requestsTotal : UInt64)
  (proxy : Proxy) (chain : List CallingAuthenticator) (kubeClient : Bool) (iter : Iteration)

def authorizeUserCalls (request : Request) (user : Identity) : Calling Filtered :=
  match attributes iter proxy.authz request user with
  | .error e => .done (failed ctx requestsTotal (.internal e))
  | .ok attrs =>
    if attrs.isEmpty then .done (answered respond ctx requestsTotal ⟨403, []⟩)
    else (authorizeCalls proxy.authz.staticRules kubeClient 0 attrs).bind fun
      | .error e => .done (failed ctx requestsTotal (.internal e))
      | .ok false => .done (answered respond ctx requestsTotal ⟨403, []⟩)
      | .ok true => .done (forwarded requestsTotal ⟨some user⟩)

def authenticateRequestCalls (session : Session) : Calling Filtered :=
  match requestFromSession session with
  | none => .done (failed ctx requestsTotal .panic)
  | some request => (chainCalls chain request).bind fun
    | .error e => .done (failed ctx requestsTotal (.internal e))
    | .ok none => .done (answered respond ctx requestsTotal ⟨401, []⟩)
    | .ok (some user) =>
      authorizeUserCalls respond ctx requestsTotal proxy kubeClient iter request user

/-- `requestFilter`, of whose proxy the authenticators and the client are not read. -/
def filterCalls (session : Session) : Calling Filtered :=
  let path := session.reqHeader.path
  if proxy.operationalEndpoints ∧ path = "/healthz".toList then
    .done (answered respond ctx requestsTotal ⟨200, "ok\n".toList⟩)
  else if proxy.operationalEndpoints ∧ path = "/metrics".toList then
    .done (answered respond ctx requestsTotal ⟨200, metricsBody requestsTotal⟩)
  else if ¬allowed proxy path then .done (answered respond ctx (requestsTotal + 1) ⟨404, []⟩)
  else if ignored proxy path then .done (forwarded (requestsTotal + 1) ctx)
  else
    authenticateRequestCalls respond ctx (requestsTotal + 1) proxy chain kubeClient iter session

end FilterCalls

/-! ### The calls answered -/

variable (answer : (call : ApiCall) → call.Res)

def answeredAuthenticator (authenticator : CallingAuthenticator) : Authenticator := fun request =>
  (authenticator request).eval answer

def answeredClient (kubeClient : Bool) : Option Client :=
  if kubeClient then some fun n attrs => answer (.access n attrs) else none

/-- The proxy whose authenticators and client answer as `answer` does. -/
abbrev Proxy.answeredBy (proxy : Proxy) (chain : List CallingAuthenticator) (kubeClient : Bool) :
    Proxy :=
  { proxy with
    authenticators := chain.map (answeredAuthenticator answer)
    kubeClient := answeredClient answer kubeClient }

theorem chainCalls_eval (chain : List CallingAuthenticator) (request : Request) :
    (chainCalls chain request).eval answer =
      authenticateChain (chain.map (answeredAuthenticator answer)) request := by
  induction chain with
  | nil => rfl
  | cons authenticator rest ih =>
    rw [chainCalls, Program.eval_bind, List.map_cons, authenticateChain, answeredAuthenticator]
    cases (authenticator request).eval answer with
    | error e => rfl
    | ok found =>
      cases found with
      | none => exact ih
      | some identity => rfl

theorem authorizeCalls_eval (rules : List StaticRule) (kubeClient : Bool) (n : Nat)
    (attrs : List Attributes) : (authorizeCalls rules kubeClient n attrs).eval answer =
      authorizeAll rules (answeredClient answer kubeClient) n attrs := by
  induction attrs generalizing n with
  | nil => rfl
  | cons attr rest ih =>
    unfold authorizeCalls authorizeAll
    by_cases hstatic : staticAllows rules attr
    · rw [if_pos hstatic, if_pos hstatic, ih]
    rw [if_neg hstatic, if_neg hstatic]
    cases kubeClient with
    | false => rfl
    | true =>
      simp only [if_true, Program.eval, answeredClient]
      cases answer (.access n attr) with
      | error e => rfl
      | ok allowed =>
        cases allowed with
        | false => rfl
        | true => exact ih (n + 1)

/-- Answered, the filter with open calls is the filter. -/
theorem filterCalls_eval (respond : Reply → Except Text Unit) (ctx : RequestContext)
    (requestsTotal : UInt64) (proxy : Proxy) (chain : List CallingAuthenticator)
    (kubeClient : Bool) (iter : Iteration) (session : Session) :
    (filterCalls respond ctx requestsTotal proxy chain kubeClient iter session).eval answer =
      requestFilter respond ctx requestsTotal (proxy.answeredBy answer chain kubeClient) iter
        session := by
  simp only [filterCalls, requestFilter]
  by_cases hhealth : proxy.operationalEndpoints ∧ session.reqHeader.path = "/healthz".toList
  · rw [if_pos hhealth, if_pos hhealth]
    rfl
  rw [if_neg hhealth, if_neg hhealth]
  by_cases hmetrics : proxy.operationalEndpoints ∧ session.reqHeader.path = "/metrics".toList
  · rw [if_pos hmetrics, if_pos hmetrics]
    rfl
  rw [if_neg hmetrics, if_neg hmetrics]
  have hallowed : allowed (proxy.answeredBy answer chain kubeClient) session.reqHeader.path =
    allowed proxy session.reqHeader.path := rfl
  have hignored : ignored (proxy.answeredBy answer chain kubeClient) session.reqHeader.path =
    ignored proxy session.reqHeader.path := rfl
  rw [hallowed, hignored]
  split
  · rfl
  split
  · rfl
  simp only [authenticateRequestCalls, authenticateRequest]
  cases requestFromSession session with
  | none => rfl
  | some request =>
    simp only [Program.eval_bind, chainCalls_eval]
    cases authenticateChain (chain.map (answeredAuthenticator answer)) request with
    | error e => rfl
    | ok found =>
      cases found with
      | none => rfl
      | some user =>
        simp only [authorizeUserCalls, authorizeUser]
        cases attributes iter proxy.authz request user with
        | error e => rfl
        | ok attrs =>
          dsimp only
          split
          · rfl
          simp only [Program.eval_bind, authorizeCalls_eval]
          cases authorizeAll proxy.authz.staticRules (answeredClient answer kubeClient) 0 attrs with
          | error e => rfl
          | ok accepted => cases accepted <;> rfl

/-! ### The order of the calls -/

/-- Calls to authenticators come before those to `authorize`, which come in the order of the
records. -/
def ApiCall.stage : ApiCall → Nat
  | .oidc _ => 0
  | .token _ => 1
  | .access n _ => n + 2

variable {α : Type}

abbrev InStages (post : Nat → α → Prop) (from_ : Nat) (p : Calling α) : Prop :=
  p.Staged ApiCall.stage post from_

def AtMost (bound : Nat) : Nat → α → Prop := fun n _ => n ≤ bound

theorem oidcCalls_staged (request : Request) : InStages (AtMost 1) 0 (oidcCalls request) := by
  unfold oidcCalls
  split
  · exact Nat.zero_le 1
  · exact ⟨le_rfl, fun _ => le_rfl⟩

theorem tokenCalls_staged {n : Nat} (hn : n ≤ 1) (request : Request) :
    InStages (AtMost 2) n (tokenCalls request) := by
  unfold tokenCalls
  split
  · exact Nat.le_succ_of_le hn
  · exact ⟨hn, fun _ => le_rfl⟩

/-- A chain of an authenticator in the stages from `n` to `mid` and others in those after it. -/
theorem chainCalls_cons_staged {authenticator : CallingAuthenticator}
    {rest : List CallingAuthenticator} {request : Request} {n mid : Nat}
    (hfirst : InStages (AtMost mid) n (authenticator request)) (hmid : mid ≤ 2)
    (hrest : ∀ m ≤ mid, InStages (AtMost 2) m (chainCalls rest request)) :
    InStages (AtMost 2) n (chainCalls (authenticator :: rest) request) := by
  refine hfirst.bind fun m result (hm : m ≤ mid) => ?_
  split
  · exact hm.trans hmid
  · exact hm.trans hmid
  · exact hrest m hm

theorem callingAuthenticators_staged (args : Args) (oidc : Option OidcAuthenticator)
    (kubeClient : Bool) (request : Request) :
    InStages (AtMost 2) 0 (chainCalls (callingAuthenticators args oidc kubeClient) request) := by
  have hreviews : ∀ n ≤ 1, InStages (AtMost 2) n
      (chainCalls (if kubeClient then [tokenCalls] else []) request) := by
    intro n hn
    cases kubeClient with
    | false => exact Nat.le_succ_of_le hn
    | true =>
      apply chainCalls_cons_staged (tokenCalls_staged hn request) le_rfl
      exact fun m hm => hm
  have hbearer : InStages (AtMost 2) 0 (chainCalls
      ((oidc.toList.map fun _ => oidcCalls) ++
        (if kubeClient then [tokenCalls] else [])) request) := by
    cases oidc with
    | none => exact hreviews 0 (Nat.zero_le 1)
    | some auth =>
      exact chainCalls_cons_staged (oidcCalls_staged request) one_le_two hreviews
  rw [callingAuthenticators, List.append_assoc]
  split
  · have hcert : InStages (AtMost 0) 0 (certCalls request) := Nat.le_refl 0
    refine chainCalls_cons_staged hcert (Nat.zero_le 2) fun m hm => ?_
    obtain rfl := Nat.le_zero.mp hm
    exact hbearer
  · exact hbearer

theorem authorizeCalls_staged (rules : List StaticRule) (kubeClient : Bool) {m n : Nat}
    (hm : m ≤ n + 2) (attrs : List Attributes) :
    InStages (fun _ _ => True) m (authorizeCalls rules kubeClient n attrs) := by
  induction attrs generalizing m n with
  | nil => trivial
  | cons attr rest ih =>
    unfold authorizeCalls
    split
    · exact ih (hm.trans (Nat.le_succ _))
    split
    · refine ⟨hm, fun res => ?_⟩
      rcases res with e | ⟨_ | _⟩
      · trivial
      · trivial
      · exact ih le_rfl
    · trivial

theorem filterCalls_staged (respond : Reply → Except Text Unit) (ctx : RequestContext)
    (requestsTotal : UInt64) (proxy : Proxy) (args : Args) (oidc : Option OidcAuthenticator)
    (kubeClient : Bool) (iter : Iteration) (session : Session) :
    InStages (fun _ _ => True) 0 (filterCalls respond ctx requestsTotal proxy
      (callingAuthenticators args oidc kubeClient) kubeClient iter session) := by
  simp only [filterCalls]
  split
  · trivial
  split
  · trivial
  split
  · trivial
  split
  · trivial
  unfold authenticateRequestCalls
  split
  · trivial
  rename_i request _
  refine (callingAuthenticators_staged args oidc kubeClient request).bind fun n found hn => ?_
  split
  · trivial
  · trivial
  unfold authorizeUserCalls
  split
  · trivial
  split
  · trivial
  apply (authorizeCalls_staged proxy.authz.staticRules kubeClient hn _).bind
  intro m accepted _
  split <;> trivial

end KubeRbacProxy
