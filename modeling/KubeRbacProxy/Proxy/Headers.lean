import KubeRbacProxy.Proxy.Filter

/-! Where the identity headers of a forwarded request come from.  The headers of an authorized
request are replaced; those of an ignored path are sent on as the client sent them. -/

namespace KubeRbacProxy

open Library

def upstreamHeaders (respond : Reply → Except Text Unit) (requestsTotal : UInt64) (proxy : Proxy)
    (iter : Iteration) (session : Session) : Option HeaderMap :=
  let filtered := requestFilter respond newCtx requestsTotal proxy iter session
  match filtered.result with
  | .ok false => (upstreamRequestFilter proxy session.reqHeader.headers filtered.ctx).toOption
  | _ => none

def IdentityHeader (proxy : Proxy) (name : HeaderName) : Prop :=
  HeaderName.parse proxy.userHeader = some name ∨ HeaderName.parse proxy.groupsHeader = some name

/-- The value of an identity header for a user; the groups come last when both have one name. -/
def identityValue (proxy : Proxy) (user : Identity) (name : HeaderName) : Text :=
  if HeaderName.parse proxy.groupsHeader = some name then
    proxy.groupSeparator.intercalate user.groups
  else user.name

/-- Each identity header sent upstream has one value, that of the identity in the context, and the
context has the identity of the user for whom the request of the session was authenticated by the
chain and authorized. -/
def Provenance (proxy : Proxy) (iter : Iteration) (session : Session) (ctx : RequestContext)
    (headers : HeaderMap) : Prop :=
  ∀ name, IdentityHeader proxy name → headers.getAll name ≠ [] →
    ∃ request user attrs, requestFromSession session = some request ∧
      authenticateChain proxy.authenticators request = .ok (some user) ∧
      Authorized proxy iter request user attrs ∧ ctx.identity = some user ∧
      headers.getAll name = [encodeUtf8 (identityValue proxy user name)]

theorem insertHeader_ok {headers out : HeaderMap} {name value : Text}
    (h : upstreamRequestFilter.insertHeader headers name value = .ok out) :
    ∃ n, HeaderName.parse name = some n ∧ out = headers.insert n (encodeUtf8 value) := by
  unfold upstreamRequestFilter.insertHeader at h
  cases hvalue : headerValue value with
  | none => simp [hvalue] at h
  | some bytes =>
    cases hname : HeaderName.parse name with
    | none => simp [hvalue, hname] at h
    | some n =>
      simp only [hvalue, hname] at h
      rw [← headerValue_some hvalue]
      exact ⟨n, rfl, (Except.ok.inj h).symm⟩

theorem upstreamRequestFilter_identity {proxy : Proxy} {headers out : HeaderMap} {user : Identity}
    (hauth : proxy.authHeaders = true)
    (h : upstreamRequestFilter proxy headers ⟨some user⟩ = .ok out) {name : HeaderName}
    (hname : IdentityHeader proxy name) :
    out.getAll name = [encodeUtf8 (identityValue proxy user name)] := by
  simp only [upstreamRequestFilter, hauth] at h
  cases huser : upstreamRequestFilter.insertHeader headers proxy.userHeader user.name with
  | error e => simp [huser] at h
  | ok first =>
    simp only [huser] at h
    obtain ⟨u, hu, rfl⟩ := insertHeader_ok huser
    obtain ⟨g, hg, rfl⟩ := insertHeader_ok h
    unfold identityValue
    by_cases hsame : name = g
    · subst hsame
      rw [if_pos hg, HeaderMap.getAll_insert_self]
    · have hnot : HeaderName.parse proxy.groupsHeader ≠ some name := fun hn =>
        hsame (Option.some.inj (hn.symm.trans hg))
      have huname : name = u := by
        rcases hname with hn | hn
        · exact Option.some.inj (hn.symm.trans hu)
        · exact absurd hn hnot
      rw [if_neg hnot, HeaderMap.getAll_insert_ne _ _ hsame, huname, HeaderMap.getAll_insert_self]

theorem upstreamRequestFilter_anonymous (proxy : Proxy) (headers : HeaderMap) :
    upstreamRequestFilter proxy headers newCtx = .ok headers := by
  unfold upstreamRequestFilter newCtx
  cases proxy.authHeaders <;> rfl

theorem upstreamHeaders_some {respond : Reply → Except Text Unit} {requestsTotal : UInt64}
    {proxy : Proxy} {iter : Iteration} {session : Session} {headers : HeaderMap} :
    upstreamHeaders respond requestsTotal proxy iter session = some headers ↔
      (requestFilter respond newCtx requestsTotal proxy iter session).result = .ok false ∧
      upstreamRequestFilter proxy session.reqHeader.headers
        (requestFilter respond newCtx requestsTotal proxy iter session).ctx = .ok headers := by
  unfold upstreamHeaders
  simp only
  cases (requestFilter respond newCtx requestsTotal proxy iter session).result with
  | error e => simp
  | ok answer =>
    cases answer with
    | true => simp
    | false =>
      cases upstreamRequestFilter proxy session.reqHeader.headers
        (requestFilter respond newCtx requestsTotal proxy iter session).ctx <;>
        simp [Except.toOption]

theorem forwarded_not_operational {respond : Reply → Except Text Unit} {ctx : RequestContext}
    {requestsTotal : UInt64} {proxy : Proxy} {iter : Iteration} {session : Session}
    (h : (requestFilter respond ctx requestsTotal proxy iter session).result = .ok false) :
    operational proxy session.reqHeader.path = false := by
  unfold requestFilter at h
  simp only at h
  split at h
  · exact absurd h answered_ne_forwarded
  split at h
  · exact absurd h answered_ne_forwarded
  rename_i hhealth hmetrics
  exact operational_eq_false.mpr ⟨hhealth, hmetrics⟩

/-- With identity headers enabled, the ones sent upstream are those of an authorized user exactly
when the request is not on an ignored path with an identity header of the client's. -/
theorem upstreamHeaders_provenance_iff {proxy : Proxy} (hauth : proxy.authHeaders = true)
    (respond : Reply → Except Text Unit) (requestsTotal : UInt64) (iter : Iteration)
    (session : Session) :
    (∀ headers, upstreamHeaders respond requestsTotal proxy iter session = some headers →
      Provenance proxy iter session
        (requestFilter respond newCtx requestsTotal proxy iter session).ctx headers) ↔
    ¬(operational proxy session.reqHeader.path = false ∧
      allowed proxy session.reqHeader.path = true ∧ ignored proxy session.reqHeader.path = true ∧
      ∃ name, IdentityHeader proxy name ∧ session.reqHeader.headers.getAll name ≠ []) := by
  constructor
  · rintro h ⟨hop, hallow, hignored, name, hname, hclient⟩
    have hforwarded := requestFilter_ignored respond newCtx requestsTotal iter hop hallow hignored
    have hsent : upstreamHeaders respond requestsTotal proxy iter session =
        some session.reqHeader.headers := by
      rw [upstreamHeaders_some, hforwarded]
      exact ⟨rfl, upstreamRequestFilter_anonymous proxy _⟩
    obtain ⟨_, user, _, -, -, -, hctx, -⟩ := h _ hsent name hname hclient
    rw [hforwarded] at hctx
    contradiction
  · intro h headers hheaders name hname hsent
    obtain ⟨hresult, hfilter⟩ := upstreamHeaders_some.mp hheaders
    obtain ⟨hallow, ⟨hignored, hctx⟩ | ⟨request, user, attrs, hrequest, hchain, hauthorized,
      hctx⟩⟩ := requestFilter_forwards hresult
    · rw [hctx, upstreamRequestFilter_anonymous] at hfilter
      obtain rfl := Except.ok.inj hfilter
      exact absurd ⟨forwarded_not_operational hresult, hallow, hignored, name, hname, hsent⟩ h
    · have hidentity := hctx
      rw [hctx] at hfilter
      exact ⟨request, user, attrs, hrequest, hchain, hauthorized, by rw [hidentity],
        upstreamRequestFilter_identity hauth hfilter hname⟩

/-- Alice is who asks, wherever one is asked for, and may do anything. -/
def publicProxy : Proxy where
  authz := {}
  allow := []
  ignore := ["/public/*".toList]
  authHeaders := true
  userHeader := "X-Remote-User".toList
  groupsHeader := "X-Remote-Groups".toList
  groupSeparator := "|".toList
  authenticators := [fun _ => .ok (some ⟨"alice".toList, ["dev".toList]⟩)]
  kubeClient := some fun _ _ => .ok true
  operationalEndpoints := false

/-- A request whose headers name the user `admin`. -/
def selfNamed (path : String) : Session where
  reqHeader := ⟨"GET".toList, path.toList, none,
    [(⟨"x-remote-user".toList, by decide +kernel⟩, encodeUtf8 "admin".toList)]⟩
  digest := none

/-- Where she is asked, it is alice's name that is sent upstream. -/
theorem upstreamHeaders_provenance_iff_alice : ∃ headers,
    upstreamHeaders (fun _ => .ok ()) 0 publicProxy insertionOrder (selfNamed "/pods") =
      some headers ∧
    headers.getAll ⟨"x-remote-user".toList, by decide +kernel⟩ = [encodeUtf8 "alice".toList] ∧
    Provenance publicProxy insertionOrder (selfNamed "/pods")
      (requestFilter (fun _ => .ok ()) newCtx 0 publicProxy insertionOrder (selfNamed "/pods")).ctx
      headers := by
  have hsent : ((upstreamHeaders (fun _ => .ok ()) 0 publicProxy insertionOrder
      (selfNamed "/pods")).any fun headers =>
        headers.getAll ⟨"x-remote-user".toList, by decide +kernel⟩ = [encodeUtf8 "alice".toList]) =
      true := by
    decide +kernel
  obtain ⟨headers, hheaders, hvalue⟩ := (Option.any_eq_true _ _).mp hsent
  have hpath : ignored publicProxy (selfNamed "/pods").reqHeader.path = false := by
    decide +kernel
  refine ⟨headers, hheaders, of_decide_eq_true hvalue,
    (@upstreamHeaders_provenance_iff publicProxy rfl (fun _ => .ok ()) 0 insertionOrder
      (selfNamed "/pods")).mpr ?_ headers hheaders⟩
  rintro ⟨-, -, hignored, -⟩
  rw [hpath] at hignored
  contradiction

/-- The name that a client gives itself on a public path is sent upstream, and no identity was
found. -/
theorem upstreamHeaders_forged : ∃ headers,
    upstreamHeaders (fun _ => .ok ()) 0 publicProxy insertionOrder (selfNamed "/public/info") =
      some headers ∧
    ¬Provenance publicProxy insertionOrder (selfNamed "/public/info")
      (requestFilter (fun _ => .ok ()) newCtx 0 publicProxy insertionOrder
        (selfNamed "/public/info")).ctx headers := by
  refine ⟨(selfNamed "/public/info").reqHeader.headers, by decide +kernel, fun h => ?_⟩
  obtain ⟨-, user, -, -, -, -, hctx, -⟩ := h ⟨"x-remote-user".toList, by decide +kernel⟩
    (Or.inl (by decide +kernel)) (by decide +kernel)
  have hnone : (requestFilter (fun _ => .ok ()) newCtx 0 publicProxy insertionOrder
      (selfNamed "/public/info")).ctx.identity = none := by decide +kernel
  rw [hnone] at hctx
  contradiction

end KubeRbacProxy
