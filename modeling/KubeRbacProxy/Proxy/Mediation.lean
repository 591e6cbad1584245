import KubeRbacProxy.Proxy.Filter

/-! Complete mediation: a request is forwarded only on an ignored path, or when every attribute that
its path, method, and rewrites call for was accepted for the user who was authenticated. -/

namespace KubeRbacProxy

open Library

/-- The attributes of a request whose path an endpoint matches: one for each resource rule of the
first mapping that accepts the method in the first endpoint that matches, and every header and query
parameter that these rules are rewritten from is there. -/
def FirstMatch (iter : Iteration) (cfg : AuthorizationConfig) (request : Request)
    (user : Identity) (attrs : List Attributes) : Prop :=
  ∃ before endpoint after captures mbefore mapping mafter,
    cfg.endpoints = before ++ endpoint :: after ∧
    (∀ e ∈ before, endpointMatch e.path request.path = none) ∧
    endpointMatch endpoint.path request.path = some captures ∧
    endpoint.mappings = mbefore ++ mapping :: mafter ∧
    (∀ m ∈ mbefore, m.accepts request.method = false) ∧ mapping.accepts request.method = true ∧
    List.Forall₂ (fun rule attr => RewritesPresent request rule.rewrites ∧
      ∃ rewrite, endpointRewrites request rule.rewrites = .ok rewrite ∧
        attr = expandRule request user (iter.order captures) rule.resourceAttributes rewrite)
      mapping.resources attrs

theorem endpointAttributes_ok {req : Request} {identity : Identity} {endpoint : Endpoint}
    {captures : Captures} {attrs : List Attributes}
    (h : endpointAttributes req identity endpoint captures = .ok attrs) :
    ∃ mbefore mapping mafter, endpoint.mappings = mbefore ++ mapping :: mafter ∧
      (∀ m ∈ mbefore, m.accepts req.method = false) ∧ mapping.accepts req.method = true ∧
      List.Forall₂ (fun rule attr => ∃ rewrite, endpointRewrites req rule.rewrites = .ok rewrite ∧
        attr = expandRule req identity captures rule.resourceAttributes rewrite)
        mapping.resources attrs := by
  unfold endpointAttributes at h
  cases hfind : endpoint.mappings.find? (·.accepts req.method) with
  | none => simp [hfind] at h
  | some mapping =>
    simp only [hfind] at h
    obtain ⟨haccepts, mbefore, mafter, hsplit, hbefore⟩ := List.find?_eq_some_iff_append.mp hfind
    refine ⟨mbefore, mapping, mafter, hsplit, ?_, haccepts, (mapM_eq_ok.mp h).imp ?_⟩
    · intro m hm
      simpa using hbefore m hm
    · intro rule attr hrule
      unfold ruleAttributes at hrule
      cases hrewrite : endpointRewrites req rule.rewrites with
      | error e => rw [hrewrite] at hrule; contradiction
      | ok rewrite =>
        rw [hrewrite] at hrule
        exact ⟨rewrite, rfl, (Except.ok.inj hrule).symm⟩

theorem attributes_firstMatch {iter : Iteration} {cfg : AuthorizationConfig} {request : Request}
    {user : Identity} {attrs : List Attributes} (h : attributes iter cfg request user = .ok attrs)
    {e : Endpoint} (he : e ∈ cfg.endpoints) {c : Captures}
    (hmatch : endpointMatch e.path request.path = some c) :
    FirstMatch iter cfg request user attrs := by
  unfold attributes at h
  cases hfirst : matchedEndpoint request.path cfg.endpoints with
  | none =>
    have := matchedEndpoint_none.mp hfirst e he
    rw [hmatch] at this
    contradiction
  | some found =>
    obtain ⟨endpoint, captures⟩ := found
    simp only [hfirst] at h
    obtain ⟨hendpoint, before, after, hsplit, hbefore⟩ := matchedEndpoint_some.mp hfirst
    obtain ⟨mbefore, mapping, mafter, hmappings, hnot, haccepts, hrules⟩ := endpointAttributes_ok h
    refine ⟨before, endpoint, after, captures, mbefore, mapping, mafter, hsplit, hbefore, hendpoint,
      hmappings, hnot, haccepts, hrules.imp ?_⟩
    rintro rule attr ⟨rewrite, hrewrite, hattr⟩
    exact ⟨endpointRewrites_present hrewrite, rewrite, hrewrite, hattr⟩

theorem attributes_user {iter : Iteration} {cfg : AuthorizationConfig} {request : Request}
    {user : Identity} {attrs : List Attributes} (h : attributes iter cfg request user = .ok attrs) :
    ∀ attr ∈ attrs, attr.user = user := by
  unfold attributes at h
  cases hfirst : matchedEndpoint request.path cfg.endpoints with
  | some found =>
    obtain ⟨endpoint, captures⟩ := found
    simp only [hfirst] at h
    obtain ⟨-, mapping, -, -, -, -, hrules⟩ := endpointAttributes_ok h
    intro attr hattr
    obtain ⟨rule, -, rewrite, -, rfl⟩ := forall₂_mem_left hrules.flip attr hattr
    rfl
  | none =>
    simp only [hfirst] at h
    obtain rfl := Except.ok.inj h
    intro attr hattr
    unfold defaultAttributes at hattr
    split at hattr
    · obtain ⟨v, -, rfl⟩ := List.mem_map.mp hattr
      rfl
    · rw [List.mem_singleton.mp hattr]

theorem requestFromSession_path {session : Session} {request : Request}
    (h : requestFromSession session = some request) : request.path = session.reqHeader.path := by
  unfold requestFromSession at h
  split at h
  · exact Option.some.inj h ▸ rfl
  · obtain ⟨value, -, rfl⟩ := Option.map_eq_some_iff.mp h
    rfl

/-- A request that is forwarded was mediated: it has an ignored path and no identity, or its user
was found by the chain and all its attributes were accepted; and where an endpoint matches, these
are the attributes of the first match. -/
def Mediated (proxy : Proxy) (iter : Iteration) (session : Session) (filtered : Filtered) : Prop :=
  allowed proxy session.reqHeader.path = true ∧
  ((ignored proxy session.reqHeader.path = true ∧ filtered.ctx.identity = none) ∨
    ∃ request user attrs, requestFromSession session = some request ∧
      authenticateChain proxy.authenticators request = .ok (some user) ∧
      attributes iter proxy.authz request user = .ok attrs ∧ attrs ≠ [] ∧
      (∀ attr ∈ attrs, attr.user = user ∧
        (staticAllows proxy.authz.staticRules attr = true ∨ ∃ authorize call,
          proxy.kubeClient = some authorize ∧ authorize call attr = .ok true)) ∧
      filtered.ctx.identity = some user ∧
      ((∃ e ∈ proxy.authz.endpoints, (endpointMatch e.path session.reqHeader.path).isSome) →
        FirstMatch iter proxy.authz request user attrs))

theorem requestFilter_mediated {respond : Reply → Except Text Unit} {requestsTotal : UInt64}
    {proxy : Proxy} {iter : Iteration} {session : Session}
    (h : (requestFilter respond newCtx requestsTotal proxy iter session).result = .ok false) :
    Mediated proxy iter session
      (requestFilter respond newCtx requestsTotal proxy iter session) := by
  obtain ⟨hallow, ⟨hignored, hctx⟩ | ⟨request, user, attrs, hrequest, hchain, hauthorized, hctx⟩⟩ :=
    requestFilter_forwards h
  · exact ⟨hallow, Or.inl ⟨hignored, by rw [hctx]; rfl⟩⟩
  · refine ⟨hallow, Or.inr ⟨request, user, attrs, hrequest, hchain, hauthorized.attributes,
      hauthorized.nonempty, fun attr hattr => ⟨attributes_user hauthorized.attributes attr hattr,
        hauthorized.accepted attr hattr⟩, by rw [hctx], ?_⟩⟩
    rintro ⟨e, he, hmatch⟩
    obtain ⟨captures, hcaptures⟩ := Option.isSome_iff_exists.mp hmatch
    rw [← requestFromSession_path hrequest] at hcaptures
    exact attributes_firstMatch hauthorized.attributes he hcaptures

def tenantProxy : Proxy where
  authz :=
    { endpoints := [
        { path := "/api/jobs".toList
          mappings := [
            { methods := ["get".toList]
              resources := [
                { rewrites := { byHttpHeader := some ⟨"X-Tenant".toList⟩ }
                  resourceAttributes :=
                    { namespace_ := fromHeader, resource := "jobs".toList } }] }] }] }
  allow := []
  ignore := []
  authHeaders := false
  userHeader := []
  groupsHeader := []
  groupSeparator := []
  authenticators := [fun _ => .ok (some ⟨"alice".toList, []⟩)]
  kubeClient := some fun _ attr => .ok (attr.namespace_ == "acme".toList)
  operationalEndpoints := false

theorem tenantName_valid : "x-tenant".toList ≠ [] ∧ "x-tenant".toList.all isHeaderChar ∧
    "x-tenant".toList.length < 2 ^ 16 := by decide +kernel

def tenantSession : Session where
  reqHeader := ⟨"GET".toList, "/api/jobs".toList, none,
    [(⟨"x-tenant".toList, tenantName_valid⟩, encodeUtf8 "acme".toList)]⟩
  digest := none

theorem requestFilter_mediated_tenant :
    Mediated tenantProxy insertionOrder tenantSession
      (requestFilter (fun _ => .ok ()) newCtx 0 tenantProxy insertionOrder tenantSession) :=
  requestFilter_mediated (by decide +kernel)

end KubeRbacProxy
