import KubeRbacProxy.Authorization.Rewriting
import KubeRbacProxy.Proxy.Mediation

/-! The requests that the proxy fails on.  With authenticators and an authorizer that answer, a
request fails only where no attributes can be made of it: by a method that the matched endpoint does
not map, or by a header or query parameter that is not there. -/

namespace KubeRbacProxy

open Library

/-- The request is forwarded, or answered: with success when it is operational, and as the client's
error otherwise. -/
def Served (proxy : Proxy) (session : Session) (filtered : Filtered) : Prop :=
  filtered.result = .ok false ∨ filtered.result = .ok true ∧ ∃ reply, filtered.reply = some reply ∧
    if operational proxy session.reqHeader.path then 200 ≤ reply.status ∧ reply.status < 300
    else 400 ≤ reply.status ∧ reply.status < 500

/-- The first endpoint that matches the request has no mapping for its method, or the first mapping
for its method has a rule with a rewrite that the request lacks the value for. -/
def NoAttributes (cfg : AuthorizationConfig) (req : Request) : Prop :=
  ∃ endpoint captures, matchedEndpoint req.path cfg.endpoints = some (endpoint, captures) ∧
    ((∀ m ∈ endpoint.mappings, m.accepts req.method = false) ∨
      ∃ mapping, endpoint.mappings.find? (·.accepts req.method) = some mapping ∧
        ∃ rule ∈ mapping.resources, ¬RewritesPresent req rule.rewrites)

/-- The session gets as far as its attributes, and there are none; or the identity that was recorded
for its connection is no header value. -/
def Unserved (proxy : Proxy) (session : Session) : Prop :=
  operational proxy session.reqHeader.path = false ∧
  allowed proxy session.reqHeader.path = true ∧
  ignored proxy session.reqHeader.path = false ∧
  (requestFromSession session = none ∨ ∃ request user,
    requestFromSession session = some request ∧
    authenticateChain proxy.authenticators request = .ok (some user) ∧
    NoAttributes proxy.authz request)

/-! ### When there are attributes -/

theorem endpointRewrites_ok_iff {req : Request} {r : Rewrites} :
    (∃ rewrite, endpointRewrites req r = .ok rewrite) ↔ RewritesPresent req r := by
  constructor
  · rintro ⟨rewrite, h⟩
    exact endpointRewrites_present h
  · rintro ⟨hheader, hquery⟩
    obtain ⟨byQuery, byHeader⟩ := r
    cases byHeader with
    | none =>
      cases byQuery with
      | none => exact ⟨[], rfl⟩
      | some q =>
        obtain ⟨y, hy, hyne⟩ := hquery q rfl
        simp [endpointRewrites, hy, hyne]
    | some n =>
      obtain ⟨x, hx, hxne⟩ := hheader n rfl
      cases byQuery with
      | none => simp [endpointRewrites, hx, hxne]
      | some q =>
        obtain ⟨y, hy, hyne⟩ := hquery q rfl
        simp [endpointRewrites, hx, hxne, hy, hyne]

theorem mapM_ok_iff {α β : Type} {f : α → Except Text β} {l : List α} :
    (∃ out, l.mapM f = .ok out) ↔ ∀ a ∈ l, ∃ b, f a = .ok b := by
  simp only [mapM_eq_ok]
  constructor
  · rintro ⟨out, h⟩ a ha
    obtain ⟨b, -, hb⟩ := forall₂_mem_left h a ha
    exact ⟨b, hb⟩
  · intro h
    induction l with
    | nil => exact ⟨[], .nil⟩
    | cons a l ih =>
      obtain ⟨b, hb⟩ := h a List.mem_cons_self
      obtain ⟨out, hout⟩ := ih fun a' ha' => h a' (List.mem_cons_of_mem _ ha')
      exact ⟨b :: out, .cons hb hout⟩

theorem ruleAttributes_ok_iff {req : Request} {identity : Identity} {captures : Captures}
    {rule : Rule} :
    (∃ attr, ruleAttributes req identity captures rule = .ok attr) ↔
      RewritesPresent req rule.rewrites := by
  rw [← endpointRewrites_ok_iff, ruleAttributes]
  cases endpointRewrites req rule.rewrites with
  | error e => simp [Except.map]
  | ok rewrite => simp [Except.map]

theorem attributes_ok_iff {iter : Iteration} {cfg : AuthorizationConfig} {req : Request}
    {identity : Identity} :
    (∃ attrs, attributes iter cfg req identity = .ok attrs) ↔ ¬NoAttributes cfg req := by
  unfold attributes NoAttributes
  cases matchedEndpoint req.path cfg.endpoints with
  | none => simp
  | some found =>
    obtain ⟨endpoint, captures⟩ := found
    simp only [endpointAttributes, Option.some.injEq, Prod.mk.injEq]
    cases hfind : endpoint.mappings.find? (·.accepts req.method) with
    | none =>
      have hnot : ∀ m ∈ endpoint.mappings, m.accepts req.method = false := by
        simpa using hfind
      simp only [reduceCtorEq, exists_false, false_iff, not_not]
      exact ⟨endpoint, captures, ⟨rfl, rfl⟩, Or.inl hnot⟩
    | some mapping =>
      have haccepts := List.find?_some hfind
      have hmem := List.mem_of_find?_eq_some hfind
      simp only [mapM_ok_iff, ruleAttributes_ok_iff]
      constructor
      · rintro hpresent ⟨e, c, ⟨rfl, rfl⟩, hnot | ⟨m, hm, rule, hrule, hlacks⟩⟩
        · exact Bool.false_ne_true ((hnot mapping hmem).symm.trans haccepts)
        · rw [hfind] at hm
          obtain rfl := Option.some.inj hm
          exact hlacks (hpresent rule hrule)
      · intro h rule hrule
        by_contra hlacks
        exact h ⟨endpoint, captures, ⟨rfl, rfl⟩, Or.inr ⟨mapping, hfind, rule, hrule, hlacks⟩⟩

theorem authenticateChain_ok {chain : List Authenticator} {request : Request}
    (h : ∀ authenticator ∈ chain, ∃ found, authenticator request = .ok found) :
    ∃ found, authenticateChain chain request = .ok found := by
  induction chain with
  | nil => exact ⟨none, rfl⟩
  | cons authenticator rest ih =>
    obtain ⟨found, hfound⟩ := h authenticator List.mem_cons_self
    unfold authenticateChain
    rw [hfound]
    cases found with
    | some identity => exact ⟨some identity, rfl⟩
    | none => exact ih fun a ha => h a (List.mem_cons_of_mem _ ha)

theorem authorizeAll_ok {rules : List StaticRule} {client : Option Client}
    (h : ∀ authorize, client = some authorize → ∀ n attr, ∃ answer, authorize n attr = .ok answer)
    (n : Nat) (attrs : List Attributes) :
    ∃ accepted, authorizeAll rules client n attrs = .ok accepted := by
  induction attrs generalizing n with
  | nil => exact ⟨true, rfl⟩
  | cons attr rest ih =>
    unfold authorizeAll
    split
    · exact ih (n + 1)
    · cases client with
      | none => exact ⟨false, rfl⟩
      | some authorize =>
        obtain ⟨answer, hanswer⟩ := h authorize rfl n attr
        simp only [hanswer]
        cases answer with
        | false => exact ⟨false, rfl⟩
        | true => exact ih (n + 1)

/-! ### When a request is served -/

section

variable {respond : Reply → Except Text Unit} {ctx : RequestContext} {requestsTotal : UInt64}
  {proxy : Proxy} {session : Session}

theorem answered_result (hwrite : ∀ reply, respond reply = .ok ()) (reply : Reply) :
    (answered respond ctx requestsTotal reply).result = .ok true := by
  simp only [answered, hwrite]

theorem served_refused (hwrite : ∀ reply, respond reply = .ok ())
    (hop : operational proxy session.reqHeader.path = false) {status : Nat} (body : Text)
    (hstatus : 400 ≤ status ∧ status < 500) :
    Served proxy session (answered respond ctx requestsTotal ⟨status, body⟩) := by
  refine Or.inr ⟨answered_result hwrite _, ⟨status, body⟩, rfl, ?_⟩
  rw [if_neg (by simp [hop])]
  exact hstatus

theorem served_operational (hwrite : ∀ reply, respond reply = .ok ())
    (hop : operational proxy session.reqHeader.path = true) (body : Text) :
    Served proxy session (answered respond ctx requestsTotal ⟨200, body⟩) := by
  refine Or.inr ⟨answered_result hwrite _, ⟨200, body⟩, rfl, ?_⟩
  rw [if_pos hop]
  simp

theorem not_served_failed (failure : Failure) :
    ¬Served proxy session (failed ctx requestsTotal failure) := by
  rintro (h | ⟨h, -⟩) <;> simp [failed] at h

theorem served_authorizeUser (hwrite : ∀ reply, respond reply = .ok ())
    (hop : operational proxy session.reqHeader.path = false)
    (hauthz : ∀ authorize, proxy.kubeClient = some authorize →
      ∀ n attr, ∃ answer, authorize n attr = .ok answer)
    {iter : Iteration} {request : Request} {user : Identity} :
    Served proxy session (authorizeUser respond ctx requestsTotal proxy iter request user) ↔
      ¬NoAttributes proxy.authz request := by
  rw [← @attributes_ok_iff iter proxy.authz request user]
  unfold authorizeUser
  cases attributes iter proxy.authz request user with
  | error e => simp [not_served_failed]
  | ok attrs =>
    simp only [Except.ok.injEq, exists_eq', iff_true]
    split
    · exact served_refused hwrite hop [] (by decide)
    · obtain ⟨accepted, haccepted⟩ : ∃ accepted,
          authorizeAll proxy.authz.staticRules proxy.kubeClient 0 attrs = .ok accepted :=
        authorizeAll_ok hauthz 0 attrs
      rw [haccepted]
      cases accepted with
      | false => exact served_refused hwrite hop [] (by decide)
      | true => exact Or.inl rfl

theorem served_authenticateRequest (hwrite : ∀ reply, respond reply = .ok ())
    (hop : operational proxy session.reqHeader.path = false)
    (hauthn : ∀ request, requestFromSession session = some request →
      ∀ authenticator ∈ proxy.authenticators, ∃ found, authenticator request = .ok found)
    (hauthz : ∀ authorize, proxy.kubeClient = some authorize →
      ∀ n attr, ∃ answer, authorize n attr = .ok answer) {iter : Iteration} :
    Served proxy session (authenticateRequest respond ctx requestsTotal proxy iter session) ↔
      ¬(requestFromSession session = none ∨ ∃ request user,
        requestFromSession session = some request ∧
        authenticateChain proxy.authenticators request = .ok (some user) ∧
        NoAttributes proxy.authz request) := by
  unfold authenticateRequest
  cases hrequest : requestFromSession session with
  | none => simp [not_served_failed]
  | some request =>
    obtain ⟨found, hfound⟩ := authenticateChain_ok (hauthn request hrequest)
    simp only [hfound]
    cases found with
    | none => simpa [hfound] using served_refused hwrite hop [] (by decide)
    | some user => simp [hfound, served_authorizeUser hwrite hop hauthz]

/-- When sessions can be written to and authenticators and the authorizer answer, a request is
forwarded or answered exactly when it does not get as far as attributes that cannot be made. -/
theorem requestFilter_served_iff (hwrite : ∀ reply, respond reply = .ok ())
    (hauthn : ∀ request, requestFromSession session = some request →
      ∀ authenticator ∈ proxy.authenticators, ∃ found, authenticator request = .ok found)
    (hauthz : ∀ authorize, proxy.kubeClient = some authorize →
      ∀ n attr, ∃ answer, authorize n attr = .ok answer) (iter : Iteration) :
    Served proxy session (requestFilter respond ctx requestsTotal proxy iter session) ↔
      ¬Unserved proxy session := by
  unfold requestFilter Unserved
  simp only
  split
  · rename_i hhealth
    have hop : operational proxy session.reqHeader.path = true := by
      simp [operational, hhealth.1, hhealth.2]
    simp [hop, served_operational hwrite hop]
  rename_i hhealth
  split
  · rename_i hmetrics
    have hop : operational proxy session.reqHeader.path = true := by
      simp [operational, hmetrics.1, hmetrics.2]
    simp [hop, served_operational hwrite hop]
  rename_i hmetrics
  have hop := operational_eq_false.mpr ⟨hhealth, hmetrics⟩
  split
  · rename_i hallow
    simp [hallow, served_refused hwrite hop [] (show 400 ≤ 404 ∧ 404 < 500 by decide)]
  rename_i hallow
  rw [not_not] at hallow
  split
  · rename_i hignored
    simp only [hignored, Bool.true_eq_false, false_and, and_false, not_false_eq_true, iff_true]
    exact Or.inl rfl
  rename_i hignored
  rw [served_authenticateRequest hwrite hop hauthn hauthz]
  simp [hop, hallow, hignored]

end

theorem tenantSession_request : requestFromSession tenantSession = some tenantSession.reqHeader :=
  rfl

theorem requestFilter_served_tenant :
    Served tenantProxy tenantSession
      (requestFilter (fun _ => .ok ()) newCtx 0 tenantProxy insertionOrder tenantSession) := by
  apply (requestFilter_served_iff (fun _ => rfl) ?_ ?_ insertionOrder).mpr
  · rintro ⟨-, -, -, hnone | ⟨request, user, hrequest, -, hattrs⟩⟩
    · contradiction
    · obtain rfl := Option.some.inj (tenantSession_request.symm.trans hrequest)
      exact (@attributes_ok_iff insertionOrder _ _ user).mp ⟨_, rfl⟩ hattrs
  · intro request _ authenticator hmem
    rw [List.mem_singleton.mp hmem]
    exact ⟨_, rfl⟩
  · intro authorize hauthorize n attr
    obtain rfl := Option.some.inj hauthorize
    exact ⟨_, rfl⟩

def unmappedSession : Session where
  reqHeader := { tenantSession.reqHeader with method := "DELETE".toList }
  digest := none

def headerlessSession : Session where
  reqHeader := { tenantSession.reqHeader with headers := [] }
  digest := none

/-- A valid configuration fails a request with an unmapped method and one without a header. -/
theorem requestFilter_unserved :
    validateAuthorizationConfig tenantProxy.authz = .ok () ∧
    ¬Served tenantProxy unmappedSession
      (requestFilter (fun _ => .ok ()) newCtx 0 tenantProxy insertionOrder unmappedSession) ∧
    ¬Served tenantProxy headerlessSession
      (requestFilter (fun _ => .ok ()) newCtx 0 tenantProxy insertionOrder headerlessSession) := by
  have hunmapped : (requestFilter (fun _ => .ok ()) newCtx 0 tenantProxy insertionOrder
      unmappedSession).result = .error (.internal
        "HTTP method not allowed for matched authorization endpoint".toList) := by
    decide +kernel
  have hheaderless : (requestFilter (fun _ => .ok ()) newCtx 0 tenantProxy insertionOrder
      headerlessSession).result = .error (.internal
        "required header X-Tenant is missing".toList) := by
    decide +kernel
  refine ⟨by decide +kernel, ?_, ?_⟩
  · rintro (h | ⟨h, -⟩) <;> rw [hunmapped] at h <;> contradiction
  · rintro (h | ⟨h, -⟩) <;> rw [hheaderless] at h <;> contradiction

end KubeRbacProxy
