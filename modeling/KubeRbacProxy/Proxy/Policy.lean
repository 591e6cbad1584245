import KubeRbacProxy.Proxy.Calls
import KubeRbacProxy.Proxy.Headers
import KubeRbacProxy.Proxy.Mediation

/-! What the settings of a proxy decide.  `Passed` is the decision without the order in which the
filter comes to it: what the paths, the authenticators, the static rules, and the client say.  The
filter forwards a request exactly where this holds, and so a change of the settings has the effects
that it says it has and no others. -/

namespace KubeRbacProxy

open Library

/-- The first authenticator that does not pass the request on knows the user. -/
def KnownTo (chain : List Authenticator) (request : Request) (user : Identity) : Prop :=
  ∃ before authenticator after, chain = before ++ authenticator :: after ∧
    (∀ other ∈ before, other request = .ok none) ∧ authenticator request = .ok (some user)

/-- Each record is allowed by a static rule, or by the client in the call for it. -/
def Cleared (rules : List StaticRule) (client : Option Client) (n : Nat)
    (attrs : List Attributes) : Prop :=
  ∀ k attr, attrs[k]? = some attr → staticAllows rules attr = true ∨
    ∃ authorize, client = some authorize ∧ authorize (n + k) attr = .ok true

/-- A user is known, and every record that the request asks for is cleared. -/
def Entitled (proxy : Proxy) (iter : Iteration) (session : Session) (user : Identity) : Prop :=
  ∃ request, requestFromSession session = some request ∧
    KnownTo proxy.authenticators request user ∧ ∃ attrs,
      attributes iter proxy.authz request user = .ok attrs ∧ attrs ≠ [] ∧
        Cleared proxy.authz.staticRules proxy.kubeClient 0 attrs

/-- The decision on a request, with the user that it is made for if there is one. -/
inductive Passed (proxy : Proxy) (iter : Iteration) (session : Session) : Option Identity → Prop
  | ignored (hpath : allowed proxy session.reqHeader.path = true)
      (hignored : ignored proxy session.reqHeader.path = true) : Passed proxy iter session none
  | entitled {user : Identity} (hpath : allowed proxy session.reqHeader.path = true)
      (hnot : ignored proxy session.reqHeader.path = false)
      (hentitled : Entitled proxy iter session user) : Passed proxy iter session (some user)

theorem authenticateChain_some {chain : List Authenticator} {request : Request} {user : Identity} :
    authenticateChain chain request = .ok (some user) ↔ KnownTo chain request user := by
  induction chain with
  | nil => simp [authenticateChain, KnownTo]
  | cons first rest ih =>
    unfold authenticateChain
    constructor
    · intro h
      split at h
      · contradiction
      · rename_i identity hfirst
        obtain rfl : identity = user := by simpa using h
        exact ⟨[], first, rest, rfl, by simp, hfirst⟩
      · rename_i hfirst
        obtain ⟨before, authenticator, after, rfl, hbefore, hknown⟩ := ih.mp h
        refine ⟨first :: before, authenticator, after, rfl, ?_, hknown⟩
        intro other hother
        rcases List.mem_cons.mp hother with rfl | hother
        · exact hfirst
        · exact hbefore other hother
    · rintro ⟨before, authenticator, after, hchain, hbefore, hknown⟩
      cases before with
      | nil =>
        obtain ⟨rfl, rfl⟩ := List.cons.inj hchain
        rw [hknown]
      | cons other before =>
        obtain ⟨rfl, rfl⟩ := List.cons.inj hchain
        rw [hbefore first List.mem_cons_self]
        exact ih.mpr ⟨before, authenticator, after, rfl,
          fun other hother => hbefore other (List.mem_cons_of_mem _ hother), hknown⟩

theorem cleared_cons {rules : List StaticRule} {client : Option Client} {n : Nat}
    {attr : Attributes} {rest : List Attributes} : Cleared rules client n (attr :: rest) ↔
      (staticAllows rules attr = true ∨
        ∃ authorize, client = some authorize ∧ authorize n attr = .ok true) ∧
      Cleared rules client (n + 1) rest := by
  constructor
  · intro h
    refine ⟨h 0 attr rfl, fun k other hother => ?_⟩
    have hk := h (k + 1) other hother
    rwa [show n + (k + 1) = n + 1 + k by omega] at hk
  · rintro ⟨hfirst, hrest⟩ k other hother
    cases k with
    | zero =>
      obtain rfl : attr = other := by simpa using hother
      exact hfirst
    | succ k =>
      rw [show n + (k + 1) = n + 1 + k by omega]
      exact hrest k other (by simpa using hother)

theorem authorizeAll_eq_true {rules : List StaticRule} {client : Option Client} {n : Nat}
    {attrs : List Attributes} :
    authorizeAll rules client n attrs = .ok true ↔ Cleared rules client n attrs := by
  induction attrs generalizing n with
  | nil => simp [authorizeAll, Cleared]
  | cons attr rest ih =>
    rw [cleared_cons, ← ih]
    conv_lhs => unfold authorizeAll
    by_cases hstatic : staticAllows rules attr = true
    · simp [hstatic]
    rw [if_neg hstatic]
    cases client with
    | none => simp [hstatic]
    | some authorize =>
      cases hcall : authorize n attr with
      | error e => simp [hstatic, hcall]
      | ok accepted => cases accepted <;> simp [hstatic, hcall]

theorem authorizeUser_cleared {respond : Reply → Except Text Unit} {ctx : RequestContext}
    {requestsTotal : UInt64} {proxy : Proxy} {iter : Iteration} {request : Request}
    {user : Identity} {attrs : List Attributes}
    (hattrs : attributes iter proxy.authz request user = .ok attrs) (hne : attrs ≠ [])
    (h : (authorizeUser respond ctx requestsTotal proxy iter request user).result = .ok false) :
    Cleared proxy.authz.staticRules proxy.kubeClient 0 attrs := by
  apply authorizeAll_eq_true.mp
  simp only [authorizeUser, hattrs, List.isEmpty_iff, if_neg hne] at h
  split at h
  · contradiction
  · exact absurd h answered_ne_forwarded
  · assumption

theorem authorizeUser_eq_forwarded {respond : Reply → Except Text Unit} {ctx : RequestContext}
    {requestsTotal : UInt64} {proxy : Proxy} {iter : Iteration} {request : Request}
    {user : Identity} {attrs : List Attributes}
    (hattrs : attributes iter proxy.authz request user = .ok attrs) (hne : attrs ≠ [])
    (hcleared : Cleared proxy.authz.staticRules proxy.kubeClient 0 attrs) :
    authorizeUser respond ctx requestsTotal proxy iter request user =
      forwarded requestsTotal ⟨some user⟩ := by
  have hall := authorizeAll_eq_true.mpr hcleared
  simp only [authorizeUser, hattrs, hall, List.isEmpty_iff, if_neg hne]

section Decision

variable {respond : Reply → Except Text Unit} {requestsTotal : UInt64} {proxy : Proxy}
  {iter : Iteration} {session : Session}

theorem requestFilter_passed {user : Option Identity}
    (hop : operational proxy session.reqHeader.path = false)
    (h : Passed proxy iter session user) :
    requestFilter respond newCtx requestsTotal proxy iter session =
      forwarded (requestsTotal + 1) ⟨user⟩ := by
  cases h with
  | ignored hpath hignored => exact requestFilter_ignored respond newCtx _ iter hop hpath hignored
  | entitled hpath hnot hentitled =>
    obtain ⟨request, hrequest, hknown, attrs, hattrs, hne, hcleared⟩ := hentitled
    obtain ⟨hhealth, hmetrics⟩ := operational_eq_false.mp hop
    have hchain := authenticateChain_some.mpr hknown
    simp only [requestFilter, if_neg hhealth, if_neg hmetrics, hpath, hnot, not_true_eq_false,
      if_false, Bool.false_eq_true, authenticateRequest, hrequest, hchain]
    exact authorizeUser_eq_forwarded hattrs hne hcleared

theorem forwarded_passed {user : Option Identity}
    (hresult : (requestFilter respond newCtx requestsTotal proxy iter session).result = .ok false)
    (hctx : (requestFilter respond newCtx requestsTotal proxy iter session).ctx = ⟨user⟩) :
    operational proxy session.reqHeader.path = false ∧ Passed proxy iter session user := by
  have hop := forwarded_not_operational hresult
  refine ⟨hop, ?_⟩
  obtain ⟨hpath, ⟨hignored, hsame⟩ |
    ⟨request, user', attrs, hrequest, hchain, hauthorized, hsame⟩⟩ := requestFilter_forwards hresult
  · obtain rfl : none = user := congrArg RequestContext.identity (hsame.symm.trans hctx)
    exact .ignored hpath hignored
  · obtain rfl : some user' = user := congrArg RequestContext.identity (hsame.symm.trans hctx)
    have hnot : ignored proxy session.reqHeader.path = false := by
      by_contra hignored
      rw [requestFilter_ignored respond newCtx _ iter hop hpath (by simpa using hignored)] at hctx
      have hnobody : none = some user' := congrArg RequestContext.identity hctx
      contradiction
    refine .entitled hpath hnot ⟨request, hrequest, authenticateChain_some.mp hchain, attrs,
      hauthorized.attributes, hauthorized.nonempty, ?_⟩
    obtain ⟨hhealth, hmetrics⟩ := operational_eq_false.mp hop
    simp only [requestFilter, if_neg hhealth, if_neg hmetrics, hpath, hnot, not_true_eq_false,
      if_false, Bool.false_eq_true, authenticateRequest, hrequest, hchain] at hresult
    exact authorizeUser_cleared hauthorized.attributes hauthorized.nonempty hresult

/-- The filter forwards a request, for a user or for nobody, exactly where the settings of the proxy
pass it for that user or for nobody. -/
theorem requestFilter_forwards_iff (user : Option Identity) :
    ((requestFilter respond newCtx requestsTotal proxy iter session).result = .ok false ∧
      (requestFilter respond newCtx requestsTotal proxy iter session).ctx = ⟨user⟩) ↔
    operational proxy session.reqHeader.path = false ∧ Passed proxy iter session user := by
  constructor
  · rintro ⟨hresult, hctx⟩
    exact forwarded_passed hresult hctx
  · rintro ⟨hop, hpassed⟩
    rw [requestFilter_passed hop hpassed]
    exact ⟨rfl, rfl⟩

end Decision

/-! ### Changes of the settings -/

/-- The settings are those of `strict` with more ignored paths, more static rules, and an allow list
that is empty, so that it allows all paths, or has more patterns than one that is not. -/
structure Looser (strict loose : Proxy) : Prop where
  allow : loose.allow = [] ∨ strict.allow ≠ [] ∧ strict.allow ⊆ loose.allow
  ignore : strict.ignore ⊆ loose.ignore
  rules : strict.authz.staticRules ⊆ loose.authz.staticRules
  rest : loose = { strict with
    allow := loose.allow
    ignore := loose.ignore
    authz := { strict.authz with staticRules := loose.authz.staticRules } }

theorem staticAllows_mono {rules more : List StaticRule} (h : rules ⊆ more) {attr : Attributes}
    (hallows : staticAllows rules attr = true) : staticAllows more attr = true := by
  obtain ⟨rule, hrule, hfits⟩ := List.any_eq_true.mp hallows
  exact List.any_eq_true.mpr ⟨rule, h hrule, hfits⟩

theorem Looser.allowed {strict loose : Proxy} (h : Looser strict loose) {path : Text}
    (hpath : allowed strict path = true) : allowed loose path = true := by
  unfold KubeRbacProxy.allowed at hpath ⊢
  rcases h.allow with hall | ⟨hsome, hsub⟩
  · simp [hall]
  · simp only [Bool.or_eq_true, List.isEmpty_iff, hsome, false_or, List.any_eq_true] at hpath ⊢
    obtain ⟨pattern, hpattern, hmatch⟩ := hpath
    exact Or.inr ⟨pattern, hsub hpattern, hmatch⟩

theorem Looser.ignored {strict loose : Proxy} (h : Looser strict loose) {path : Text}
    (hpath : ignored strict path = true) : ignored loose path = true := by
  unfold KubeRbacProxy.ignored at hpath ⊢
  obtain ⟨pattern, hpattern, hmatch⟩ := List.any_eq_true.mp hpath
  exact List.any_eq_true.mpr ⟨pattern, h.ignore hpattern, hmatch⟩

/-- Static rules have no part in what a request asks for. -/
theorem Looser.attributes {strict loose : Proxy} (h : Looser strict loose) (iter : Iteration)
    (request : Request) (user : Identity) :
    attributes iter loose.authz request user = attributes iter strict.authz request user := by
  rw [h.rest]
  rfl

/-- With more static rules, records that were cleared still are, after some of the same calls. -/
theorem authorizeCalls_looser {rules more : List StaticRule} (hrules : rules ⊆ more)
    {answer : (call : ApiCall) → call.Res} {kubeClient : Bool} {n : Nat} {attrs : List Attributes}
    (h : (authorizeCalls rules kubeClient n attrs).eval answer = .ok true) :
    (authorizeCalls more kubeClient n attrs).eval answer = .ok true ∧
      ((authorizeCalls more kubeClient n attrs).callsMade answer).Sublist
        ((authorizeCalls rules kubeClient n attrs).callsMade answer) := by
  induction attrs generalizing n with
  | nil => exact ⟨rfl, .refl _⟩
  | cons attr rest ih =>
    unfold authorizeCalls at h ⊢
    by_cases hstatic : staticAllows rules attr = true
    · rw [if_pos hstatic] at h ⊢
      rw [if_pos (staticAllows_mono hrules hstatic)]
      exact ih h
    rw [if_neg hstatic] at h ⊢
    cases kubeClient with
    | false => simp [Program.eval] at h
    | true =>
      simp only [if_true, Program.eval, Program.callsMade] at h ⊢
      cases hcall : answer (.access n attr) with
      | error e => simp [hcall, Program.eval] at h
      | ok accepted =>
        cases accepted with
        | false => simp [hcall, Program.eval] at h
        | true =>
          simp only [hcall] at h ⊢
          obtain ⟨heval, hcalls⟩ := ih h
          split
          · exact ⟨heval, hcalls.cons _⟩
          · simp only [Program.eval, Program.callsMade, hcall]
            exact ⟨heval, hcalls.cons_cons _⟩

/-- What was added lets the request through: its path, or a rule for one of its records. -/
inductive Loosened (strict loose : Proxy) (iter : Iteration) (session : Session) : Prop
  | path (hstrict : allowed strict session.reqHeader.path = false)
      (hloose : allowed loose session.reqHeader.path = true)
  | ignored (hstrict : ignored strict session.reqHeader.path = false)
      (hloose : ignored loose session.reqHeader.path = true)
  | rule {request : Request} {user : Identity} {attrs : List Attributes} {attr : Attributes}
      (hrequest : requestFromSession session = some request)
      (hattrs : attributes iter strict.authz request user = .ok attrs) (hattr : attr ∈ attrs)
      (hstrict : staticAllows strict.authz.staticRules attr = false)
      (hloose : staticAllows loose.authz.staticRules attr = true)

section Looser

variable {strict loose : Proxy} {answer : (call : ApiCall) → call.Res}
  {respond : Reply → Except Text Unit} {requestsTotal : UInt64}
  {chain : List CallingAuthenticator} {kubeClient : Bool} {iter : Iteration} {session : Session}

theorem Looser.operational (h : Looser strict loose) (path : Text) :
    operational loose path = operational strict path := by
  rw [h.rest]
  rfl

theorem Looser.client (h : Looser strict loose) : loose.kubeClient = strict.kubeClient := by
  rw [h.rest]

theorem Looser.authenticators (h : Looser strict loose) :
    loose.authenticators = strict.authenticators := by
  rw [h.rest]

theorem Looser.answeredBy (h : Looser strict loose) (answer : (call : ApiCall) → call.Res)
    (chain : List CallingAuthenticator) (kubeClient : Bool) :
    Looser (strict.answeredBy answer chain kubeClient)
      (loose.answeredBy answer chain kubeClient) where
  allow := h.allow
  ignore := h.ignore
  rules := h.rules
  rest := by
    rw [h.rest]

theorem Looser.authorizeUserCalls (h : Looser strict loose) {request : Request} {user : Identity}
    (hforward : ((authorizeUserCalls respond newCtx requestsTotal strict kubeClient iter request
      user).eval answer).result = .ok false) :
    ((authorizeUserCalls respond newCtx requestsTotal loose kubeClient iter request user).eval
      answer).result = .ok false ∧
    ((authorizeUserCalls respond newCtx requestsTotal loose kubeClient iter request
      user).callsMade answer).Sublist ((authorizeUserCalls respond newCtx requestsTotal strict
        kubeClient iter request user).callsMade answer) := by
  unfold KubeRbacProxy.authorizeUserCalls at hforward ⊢
  rw [h.attributes]
  cases hattrs : KubeRbacProxy.attributes iter strict.authz request user with
  | error e => simp [hattrs, Program.eval, failed] at hforward
  | ok attrs =>
    simp only [hattrs] at hforward ⊢
    by_cases hempty : attrs.isEmpty = true
    · rw [if_pos hempty] at hforward
      exact absurd hforward answered_ne_forwarded
    rw [if_neg hempty] at hforward
    simp only [if_neg hempty, Program.eval_bind, Program.callsMade_bind] at hforward ⊢
    cases hall : (authorizeCalls strict.authz.staticRules kubeClient 0 attrs).eval answer with
    | error e => simp [hall, Program.eval, failed] at hforward
    | ok accepted =>
      cases accepted with
      | false =>
        simp only [hall] at hforward
        exact absurd hforward answered_ne_forwarded
      | true =>
        obtain ⟨heval, hcalls⟩ := authorizeCalls_looser h.rules hall
        simp only [heval, Program.eval, Program.callsMade, List.append_nil]
        exact ⟨rfl, hcalls⟩

/-- A decision of the looser settings is one of the others, or due to what was added. -/
theorem Looser.passed (h : Looser strict loose) {user : Option Identity}
    (hpassed : Passed loose iter session user) :
    Passed strict iter session user ∨ Loosened strict loose iter session := by
  cases hstrict : KubeRbacProxy.allowed strict session.reqHeader.path with
  | false =>
    refine Or.inr (.path hstrict ?_)
    cases hpassed with
    | ignored hpath hignored => exact hpath
    | entitled hpath hnot hentitled => exact hpath
  | true =>
    cases hpassed with
    | ignored hpath hignored =>
      cases hbefore : KubeRbacProxy.ignored strict session.reqHeader.path with
      | false => exact Or.inr (.ignored hbefore hignored)
      | true => exact Or.inl (.ignored hstrict hbefore)
    | entitled hpath hnot hentitled =>
      obtain ⟨request, hrequest, hknown, attrs, hattrs, hne, hcleared⟩ := hentitled
      rw [h.attributes] at hattrs
      rw [h.authenticators] at hknown
      rw [h.client] at hcleared
      by_cases hrule : ∃ attr ∈ attrs, staticAllows strict.authz.staticRules attr = false ∧
          staticAllows loose.authz.staticRules attr = true
      · obtain ⟨attr, hattr, hold, hnew⟩ := hrule
        exact Or.inr (.rule hrequest hattrs hattr hold hnew)
      · have hignored : KubeRbacProxy.ignored strict session.reqHeader.path = false := by
          by_contra hcon
          rw [h.ignored (by simpa using hcon)] at hnot
          contradiction
        refine Or.inl (.entitled hstrict hignored
          ⟨request, hrequest, hknown, attrs, hattrs, hne, fun k attr hattr => ?_⟩)
        refine (hcleared k attr hattr).imp (fun hloose => ?_) id
        by_contra hcon
        exact hrule ⟨attr, List.mem_of_getElem? hattr, by simpa using hcon, hloose⟩

/-- Looser settings forward what the others forward, after some of the same calls. -/
theorem Looser.filterCalls (h : Looser strict loose)
    (hforward : ((filterCalls respond newCtx requestsTotal strict chain kubeClient iter
      session).eval answer).result = .ok false) :
    ((filterCalls respond newCtx requestsTotal loose chain kubeClient iter session).eval
      answer).result = .ok false ∧
    ((filterCalls respond newCtx requestsTotal loose chain kubeClient iter session).callsMade
      answer).Sublist ((filterCalls respond newCtx requestsTotal strict chain kubeClient iter
        session).callsMade answer) := by
  have hop : KubeRbacProxy.operational strict session.reqHeader.path = false := by
    rw [filterCalls_eval] at hforward
    have hanswered := forwarded_not_operational hforward
    exact hanswered
  have hop' := (h.operational session.reqHeader.path).trans hop
  obtain ⟨hhealth, hmetrics⟩ := operational_eq_false.mp hop
  obtain ⟨hhealth', hmetrics'⟩ := operational_eq_false.mp hop'
  simp only [KubeRbacProxy.filterCalls, if_neg hhealth, if_neg hmetrics] at hforward ⊢
  simp only [if_neg hhealth', if_neg hmetrics']
  cases hpath : KubeRbacProxy.allowed strict session.reqHeader.path with
  | false =>
    simp only [hpath, Bool.false_eq_true, not_false_eq_true, if_true, Program.eval] at hforward
    exact absurd hforward answered_ne_forwarded
  | true =>
    simp only [hpath, h.allowed hpath, not_true_eq_false, if_false] at hforward ⊢
    by_cases hignored : KubeRbacProxy.ignored loose session.reqHeader.path = true
    · simp only [hignored, if_true]
      exact ⟨rfl, List.nil_sublist _⟩
    · have hbefore : ¬KubeRbacProxy.ignored strict session.reqHeader.path = true :=
        fun hcon => hignored (h.ignored hcon)
      rw [if_neg hbefore] at hforward ⊢
      rw [if_neg hignored]
      unfold authenticateRequestCalls at hforward ⊢
      cases hrequest : requestFromSession session with
      | none => simp [hrequest, Program.eval, failed] at hforward
      | some request =>
        simp only [hrequest, Program.eval_bind, Program.callsMade_bind] at hforward ⊢
        cases hchain : (chainCalls chain request).eval answer with
        | error e => simp [hchain, Program.eval, failed] at hforward
        | ok found =>
          cases found with
          | none =>
            simp only [hchain] at hforward
            exact absurd hforward answered_ne_forwarded
          | some user =>
            simp only [hchain] at hforward ⊢
            obtain ⟨hresult, hcalls⟩ := h.authorizeUserCalls hforward
            exact ⟨hresult, hcalls.append_left _⟩

end Looser

end KubeRbacProxy
