import KubeRbacProxy.Authorization.Validate
import KubeRbacProxy.Proxy.Session

/-! The proxy: what becomes of a request before it is sent upstream, and the headers that it is sent
with.  The calls that one request makes to the Kubernetes client are numbered, and a session write
may fail. -/

namespace KubeRbacProxy

open Library

/-- The answers of the Kubernetes client to the calls that a request makes. -/
abbrev Client := Nat → Attributes → Except Text Bool

structure Proxy where
  authz : AuthorizationConfig
  allow : List Text
  ignore : List Text
  authHeaders : Bool
  userHeader : Text
  groupsHeader : Text
  groupSeparator : Text
  authenticators : List Authenticator
  kubeClient : Option Client
  operationalEndpoints : Bool

structure RequestContext where
  identity : Option Identity

def newCtx : RequestContext := ⟨none⟩

structure Reply where
  status : Nat
  body : Text
  deriving DecidableEq

/-- How a request can fail: with an internal error, in writing a reply, or with a panic. -/
inductive Failure where
  | internal (message : Text)
  | respond (message : Text)
  | panic
  deriving DecidableEq

structure Filtered where
  result : Except Failure Bool
  ctx : RequestContext
  reply : Option Reply
  requestsTotal : UInt64

/-- A pattern with one star stands for the paths with its two ends. -/
def pathMatches (pattern path : Text) : Bool :=
  if pattern = path ∨ pattern = ['*'] then true
  else
    match pattern.splitOn '*' with
    | [front, back] => front.isPrefixOf path && back.isSuffixOf path
    | _ => false

/-- The loop over the attributes of a request, from the one with index `n`. -/
def authorizeAll (rules : List StaticRule) (client : Option Client) :
    Nat → List Attributes → Except Text Bool
  | _, [] => .ok true
  | n, attr :: rest =>
    if staticAllows rules attr then authorizeAll rules client (n + 1) rest
    else
      match client with
      | none => .ok false
      | some authorize =>
        match authorize n attr with
        | .error e => .error e
        | .ok false => .ok false
        | .ok true => authorizeAll rules client (n + 1) rest

def metricsBody (count : UInt64) : Text :=
  "# HELP kube_rbac_proxy_requests_total Proxy requests\n".toList ++
    "# TYPE kube_rbac_proxy_requests_total counter\n".toList ++
    "kube_rbac_proxy_requests_total ".toList ++ decimal count.toNat ++ "\n".toList

section RequestFilter

variable (respond : Reply → Except Text Unit) (ctx : RequestContext) (requestsTotal : UInt64)

def answered (reply : Reply) : Filtered where
  result :=
    match respond reply with
    | .ok () => .ok true
    | .error e => .error (.respond e)
  ctx := ctx
  reply := some reply
  requestsTotal := requestsTotal

def failed (failure : Failure) : Filtered := ⟨.error failure, ctx, none, requestsTotal⟩

def forwarded (ctx : RequestContext) : Filtered := ⟨.ok false, ctx, none, requestsTotal⟩

/-- `request_filter` from the authorization of an authenticated user on. -/
def authorizeUser (proxy : Proxy) (iter : Iteration) (request : Request) (user : Identity) :
    Filtered :=
  match attributes iter proxy.authz request user with
  | .error e => failed ctx requestsTotal (.internal e)
  | .ok attrs =>
    if attrs.isEmpty then answered respond ctx requestsTotal ⟨403, []⟩
    else
      match authorizeAll proxy.authz.staticRules proxy.kubeClient 0 attrs with
      | .error e => failed ctx requestsTotal (.internal e)
      | .ok false => answered respond ctx requestsTotal ⟨403, []⟩
      | .ok true => forwarded requestsTotal ⟨some user⟩

/-- `request_filter` from the authentication of the request on. -/
def authenticateRequest (proxy : Proxy) (iter : Iteration) (session : Session) : Filtered :=
  match requestFromSession session with
  | none => failed ctx requestsTotal .panic
  | some request =>
    match authenticateChain proxy.authenticators request with
    | .error e => failed ctx requestsTotal (.internal e)
    | .ok none => answered respond ctx requestsTotal ⟨401, []⟩
    | .ok (some user) => authorizeUser respond ctx requestsTotal proxy iter request user

def operational (proxy : Proxy) (path : Text) : Bool :=
  proxy.operationalEndpoints && (path == "/healthz".toList || path == "/metrics".toList)

def allowed (proxy : Proxy) (path : Text) : Bool :=
  proxy.allow.isEmpty || proxy.allow.any (pathMatches · path)

def ignored (proxy : Proxy) (path : Text) : Bool := proxy.ignore.any (pathMatches · path)

def requestFilter (proxy : Proxy) (iter : Iteration) (session : Session) : Filtered :=
  let path := session.reqHeader.path
  if proxy.operationalEndpoints ∧ path = "/healthz".toList then
    answered respond ctx requestsTotal ⟨200, "ok\n".toList⟩
  else if proxy.operationalEndpoints ∧ path = "/metrics".toList then
    answered respond ctx requestsTotal ⟨200, metricsBody requestsTotal⟩
  else if ¬allowed proxy path then answered respond ctx (requestsTotal + 1) ⟨404, []⟩
  else if ignored proxy path then forwarded (requestsTotal + 1) ctx
  else authenticateRequest respond ctx (requestsTotal + 1) proxy iter session

end RequestFilter

def upstreamRequestFilter (proxy : Proxy) (headers : HeaderMap) (ctx : RequestContext) :
    Except Text HeaderMap :=
  match proxy.authHeaders, ctx.identity with
  | true, some user =>
    match insertHeader headers proxy.userHeader user.name with
    | .error e => .error e
    | .ok headers =>
      insertHeader headers proxy.groupsHeader (proxy.groupSeparator.intercalate user.groups)
  | _, _ => .ok headers
where
  /-- A header from two texts, in the place of all headers of its name. -/
  insertHeader (headers : HeaderMap) (name value : Text) : Except Text HeaderMap :=
    match headerValue value with
    | none => .error "invalid header value".toList
    | some value =>
      match HeaderName.parse name with
      | none => .error "invalid header name".toList
      | some name => .ok (headers.insert name value)

/-! ### When a request is forwarded -/

theorem answered_ne_forwarded {respond : Reply → Except Text Unit} {ctx : RequestContext}
    {requestsTotal : UInt64} {reply : Reply} :
    (answered respond ctx requestsTotal reply).result ≠ .ok false := by
  unfold answered
  cases respond reply <;> simp

theorem operational_eq_false {proxy : Proxy} {path : Text} :
    operational proxy path = false ↔
      ¬(proxy.operationalEndpoints = true ∧ path = "/healthz".toList) ∧
      ¬(proxy.operationalEndpoints = true ∧ path = "/metrics".toList) := by
  unfold operational
  cases proxy.operationalEndpoints <;> simp

theorem authorizeAll_true {rules : List StaticRule} {client : Option Client} {n : Nat}
    {attrs : List Attributes} (h : authorizeAll rules client n attrs = .ok true) :
    ∀ attr ∈ attrs, staticAllows rules attr = true ∨
      ∃ authorize call, client = some authorize ∧ authorize call attr = .ok true := by
  induction attrs generalizing n with
  | nil => simp
  | cons first rest ih =>
    intro attr hattr
    unfold authorizeAll at h
    split at h
    · rename_i hstatic
      rcases List.mem_cons.mp hattr with rfl | hattr
      · exact Or.inl hstatic
      · exact ih h attr hattr
    · split at h
      · simp at h
      rename_i authorize
      split at h
      · contradiction
      · simp at h
      rename_i hcall
      rcases List.mem_cons.mp hattr with rfl | hattr
      · exact Or.inr ⟨authorize, n, rfl, hcall⟩
      · exact ih h attr hattr

/-- What has happened when an authenticated request is forwarded. -/
structure Authorized (proxy : Proxy) (iter : Iteration) (request : Request) (user : Identity)
    (attrs : List Attributes) : Prop where
  attributes : attributes iter proxy.authz request user = .ok attrs
  nonempty : attrs ≠ []
  accepted : ∀ attr ∈ attrs, staticAllows proxy.authz.staticRules attr = true ∨
    ∃ authorize call, proxy.kubeClient = some authorize ∧ authorize call attr = .ok true

theorem authorizeUser_forwards {respond : Reply → Except Text Unit} {ctx : RequestContext}
    {requestsTotal : UInt64} {proxy : Proxy} {iter : Iteration} {request : Request}
    {user : Identity}
    (h : (authorizeUser respond ctx requestsTotal proxy iter request user).result = .ok false) :
    (authorizeUser respond ctx requestsTotal proxy iter request user).ctx = ⟨some user⟩ ∧
      ∃ attrs, Authorized proxy iter request user attrs := by
  unfold authorizeUser at h ⊢
  cases hattrs : attributes iter proxy.authz request user with
  | error e => simp [hattrs, failed] at h
  | ok attrs =>
    simp only [hattrs] at h ⊢
    by_cases hempty : attrs.isEmpty = true
    · rw [if_pos hempty] at h
      exact absurd h answered_ne_forwarded
    rw [if_neg hempty] at h ⊢
    cases hall : authorizeAll proxy.authz.staticRules proxy.kubeClient 0 attrs with
    | error e => simp [hall, failed] at h
    | ok accepted =>
      cases accepted with
      | false =>
        simp only [hall] at h
        exact absurd h answered_ne_forwarded
      | true => exact ⟨rfl, attrs, hattrs, by simpa using hempty, authorizeAll_true hall⟩

/-- A request is forwarded past the allow list, and then as an ignored path or as authorized. -/
theorem requestFilter_forwards {respond : Reply → Except Text Unit} {ctx : RequestContext}
    {requestsTotal : UInt64} {proxy : Proxy} {iter : Iteration} {session : Session}
    (h : (requestFilter respond ctx requestsTotal proxy iter session).result = .ok false) :
    allowed proxy session.reqHeader.path = true ∧
    ((ignored proxy session.reqHeader.path = true ∧
        (requestFilter respond ctx requestsTotal proxy iter session).ctx = ctx) ∨
      ∃ request user attrs, requestFromSession session = some request ∧
        authenticateChain proxy.authenticators request = .ok (some user) ∧
        Authorized proxy iter request user attrs ∧
        (requestFilter respond ctx requestsTotal proxy iter session).ctx = ⟨some user⟩) := by
  unfold requestFilter at h ⊢
  simp only at h ⊢
  split at h
  · exact absurd h answered_ne_forwarded
  rename_i hhealth
  split at h
  · exact absurd h answered_ne_forwarded
  rename_i hmetrics
  rw [if_neg hhealth, if_neg hmetrics]
  split at h
  · exact absurd h answered_ne_forwarded
  rename_i hallow
  rw [if_neg hallow]
  refine ⟨by simpa using hallow, ?_⟩
  split at h
  · rename_i hignored
    rw [if_pos hignored]
    exact Or.inl ⟨hignored, rfl⟩
  rename_i hignored
  rw [if_neg hignored]
  right
  unfold authenticateRequest at h ⊢
  cases hrequest : requestFromSession session with
  | none => simp [hrequest, failed] at h
  | some request =>
    simp only [hrequest] at h ⊢
    cases hchain : authenticateChain proxy.authenticators request with
    | error e => simp [hchain, failed] at h
    | ok found =>
      cases found with
      | none =>
        simp only [hchain] at h
        exact absurd h answered_ne_forwarded
      | some user =>
        simp only [hchain] at h ⊢
        obtain ⟨hctx, attrs, hauthorized⟩ := authorizeUser_forwards h
        exact ⟨request, user, attrs, rfl, hchain, hauthorized, hctx⟩

theorem requestFilter_ignored (respond : Reply → Except Text Unit) (ctx : RequestContext)
    (requestsTotal : UInt64) {proxy : Proxy} (iter : Iteration) {session : Session}
    (hop : operational proxy session.reqHeader.path = false)
    (hallow : allowed proxy session.reqHeader.path = true)
    (hignored : ignored proxy session.reqHeader.path = true) :
    requestFilter respond ctx requestsTotal proxy iter session =
      forwarded (requestsTotal + 1) ctx := by
  obtain ⟨hhealth, hmetrics⟩ := operational_eq_false.mp hop
  simp only [requestFilter, if_neg hhealth, if_neg hmetrics, hallow, hignored]
  rfl

end KubeRbacProxy
