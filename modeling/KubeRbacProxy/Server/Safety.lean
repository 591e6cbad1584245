import KubeRbacProxy.Server.Sequential

/-! What a forwarded request rests on.  In every run of the server, whatever other requests do
meanwhile, its user was vouched for by its certificate, by a signing key of the issuer, or by a
review of its own token, and each of its records is allowed by a static rule or by a review of a
record with the same key.  Where client certificates are asked for and a connection has none, the
client can also name the user itself, in the header that is meant for the certificate's name. -/

namespace KubeRbacProxy

open Library ReviewCache

variable {d : Deployment} {lib : Jwt}

/-- The review was answered to call `c`, or its verdict was stored less than 30 seconds before the
call returned. -/
def Current {Req Key Spec Answer Verdict Error : Type}
    (s : ReviewCache.State Req Key Spec Answer Verdict Error) (c : Nat)
    (review : Review Spec Answer) : Prop :=
  review.caller = c ∨ ∃ request result time storedAt, s.calls c = .returned request result time ∧
    (storedAt, review) ∈ s.stored ∧ storedAt ≤ time ∧ time - storedAt < cacheTtl

/-- The API server said that the token is that of the user. -/
structure TokenVouched (audiences : List Text) (s : TokenCalls) (c : Nat) (token : Text)
    (user : Identity) (review : Review TokenSpec (Attempts TokenResponse)) : Prop where
  recorded : review ∈ s.reviews
  spec : review.spec = ⟨token, audiences⟩
  verdict : ∃ response result, requestWithRetry review.answer = .ok response ∧
    response.isSuccess = true ∧ response.json = .ok result ∧ Authenticates result user
  current : Current s c review

/-- The API server allowed a record with the key of `attr`. -/
structure AccessVouched (s : AccessCalls) (c : Nat) (attr : Attributes)
    (review : Review AccessSpec (Attempts AccessResponse)) : Prop where
  recorded : review ∈ s.reviews
  spec : ∃ other, accessKey other = accessKey attr ∧ SpecFor other review.spec
  verdict : Decides review.answer true
  current : Current s c review

/-- Who vouches for the user of task `i`: the certificate whose name TLS recorded, or an answer to
one of its calls. -/
inductive UserVouched (d : Deployment) (s : Backend lib) (i : Nat) (session : Session)
    (request : Request) (user : Identity) : Prop
  | certificate {cn : Text} (hca : d.args.clientCaFile.isSome)
      (hrecorded : session.recorded = some cn) (huser : user = ⟨cn, []⟩)
  | oidc {auth : OidcAuthenticator} {read : TokenRead lib auth} {k : Nat}
      (hauth : d.oidc = some auth) (htoken : bearerToken request = some read.token)
      (haccepted : AcceptedBy (s.oidc auth) (Nat.pair i k) read user)
  | review {token : Text} {review : Review TokenSpec (Attempts TokenResponse)} {k : Nat}
      (hclient : d.kubeClient = true) (htoken : bearerToken request = some token)
      (hvouched : TokenVouched d.args.authTokenAudiences s.tokens (Nat.pair i k) token user review)

/-- Nobody vouches for the user: TLS recorded no name, and the client sent this one under the name
of the internal header. -/
structure SelfNamed (d : Deployment) (session : Session) (user : Identity) : Prop where
  ca : d.args.clientCaFile.isSome
  unrecorded : session.recorded = none
  header : certAuthenticate [] session.reqHeader = .ok (some user)

/-- A record that task `i` may go on with. -/
def Permitted (d : Deployment) (s : Backend lib) (i : Nat) (attr : Attributes) : Prop :=
  staticAllows d.authz.staticRules attr = true ∨
    d.kubeClient = true ∧ ∃ k review, AccessVouched s.access (Nat.pair i k) attr review

section Results

variable {now : Nat} {actions : List (server d lib).Action} {s : (server d lib).State}

/-! ### What a result rests on -/

theorem Justified.current {Req Key Spec Answer Verdict Error : Type}
    {σ : Scheme Req Key Spec Answer Verdict Error}
    {s : ReviewCache.State Req Key Spec Answer Verdict Error} (httl : σ.ttl = cacheTtl)
    {spec : Spec} {c time : Nat} {request : Req} {verdict : Verdict}
    (hcall : s.calls c = .returned request (.ok verdict) time)
    (h : Justified σ s spec c verdict time) :
    ∃ review ∈ s.reviews, review.spec = spec ∧ σ.judge review.answer = .ok verdict ∧
      Current s c review := by
  obtain ⟨review, hmem, hspec, hjudge, -, horigin⟩ := h
  refine ⟨review, hmem, hspec, hjudge, horigin.imp id ?_⟩
  rintro ⟨storedAt, hstored, hle, hage⟩
  exact ⟨request, .ok verdict, time, storedAt, hcall, hstored, hle, httl ▸ hage⟩

theorem oidc_vouched (h : ServerRun d lib now actions s) {c : Nat} {token : Text} {user : Identity}
    (hres : callResult d s.backend c (.oidc token) = some (.ok (some user))) :
    ∃ auth read, d.oidc = some auth ∧ read.token = token ∧
      (s.backend.oidc auth).calls c = .returned read (.ok (some user)) ∧
      AcceptedBy (s.backend.oidc auth) c read user := by
  obtain ⟨-, hres⟩ | ⟨auth, hauth, hres⟩ := callResult_oidc hres
  · simp at hres
  obtain ⟨calls, hrun, -⟩ := serverRun_oidc h auth
  have hsound := (oidcRun_inv (KeysInv.init now) hrun).calls c
  rcases resultFor_eq_some.mp hres with hcall | ⟨read, htoken, hcall⟩
  · rw [hcall] at hsound
    exact absurd rfl (hsound user)
  · rw [hcall] at hsound
    exact ⟨auth, read, hauth, htoken, hcall, hsound user rfl⟩

theorem token_vouched (h : ServerRun d lib now actions s) {c : Nat} {r : BearerRequest}
    {user : Identity} (hres : callResult d s.backend c (.token r) = some (.ok (some user))) :
    ∃ review,
      TokenVouched d.args.authTokenAudiences s.backend.tokens c r.token user review := by
  obtain ⟨time, hcall⟩ := resultOf_eq_some.mp hres
  obtain ⟨calls, hrun, -⟩ := serverRun_tokens h
  have hkey : KeyDetermines (tokenScheme d.args.authTokenAudiences) Set.univ := by
    intro a _ b _ (hab : a.token = b.token)
    show TokenSpec.mk a.token _ = ⟨b.token, _⟩
    rw [hab]
  have hjust := run_sound hkey (by rintro (_ | _ | _ | _) _ <;> trivial) hrun c r _ time hcall
  obtain ⟨review, hmem, hspec, hjudge, hcurrent⟩ := Justified.current rfl hcall hjust
  obtain ⟨response, result, hresponse, hsuccess, hjson, hidentity⟩ := tokenReview_ok hjudge
  exact ⟨review, hmem, hspec, ⟨response, result, hresponse, hsuccess, hjson,
    (hidentity user).mp rfl⟩, hcurrent⟩

theorem access_vouched (h : ServerRun d lib now actions s) {c n : Nat} {attr : Attributes}
    (hres : callResult d s.backend c (.access n attr) = some (.ok true)) :
    ∃ review, AccessVouched s.backend.access c attr review := by
  obtain ⟨time, hcall⟩ := resultOf_eq_some.mp hres
  obtain ⟨calls, hrun, -⟩ := serverRun_access h
  have hinv := run_inv (Inv.init Set.univ now) (by rintro (_ | _ | _ | _) _ <;> trivial) hrun
  obtain ⟨-, other, -, hkey, hjust⟩ := hinv.returned c attr true time hcall
  obtain ⟨review, hmem, hspec, hjudge, hcurrent⟩ := Justified.current rfl hcall hjust
  exact ⟨review, hmem, ⟨other, hkey, specFor_iff.mpr hspec⟩, accessReview_eq_ok.mp hjudge, hcurrent⟩

/-! ### The calls of one request -/

/-- No call that was not made helps a request. -/
def refusing : (call : ApiCall) → call.Res
  | .oidc _ => .ok none
  | .token _ => .ok none
  | .access _ _ => .ok false

theorem authenticateChain_found {chain : List Authenticator} {request : Request} {user : Identity}
    (h : authenticateChain chain request = .ok (some user)) :
    ∃ authenticator ∈ chain, authenticator request = .ok (some user) := by
  induction chain with
  | nil => simp [authenticateChain] at h
  | cons first rest ih =>
    unfold authenticateChain at h
    split at h
    · contradiction
    · rename_i identity hfirst
      exact ⟨first, List.mem_cons_self, by rw [hfirst, Except.ok.inj h]⟩
    · obtain ⟨authenticator, hmem, hfound⟩ := ih h
      exact ⟨authenticator, List.mem_cons_of_mem _ hmem, hfound⟩

variable {i : Nat} {task : Task UInt64 Incoming ApiCall ApiCall.Res Filtered}

/-- A call that was answered otherwise than `refusing` was made, and has returned. -/
theorem answer_made (htask : Pool.Recorded s i task) (call : ApiCall)
    (hne : task.trace.answer refusing call ≠ refusing call) :
    ∃ k, callResult d s.backend (Nat.pair i k) call = some (task.trace.answer refusing call) := by
  rcases task.trace.answer_cases refusing call with hentry | hdefault
  · obtain ⟨k, -, hres⟩ := task_result htask hentry
    exact ⟨k, hres⟩
  · exact absurd hdefault hne

/-- Where the user of task `i` was found: in a certificate, by one of its calls, or in a header of
the client's. -/
inductive UserFound (d : Deployment) (s : Backend lib) (i : Nat) (session : Session)
    (request : Request) (user : Identity) : Prop
  | certificate {cn : Text} (hca : d.args.clientCaFile.isSome)
      (hrecorded : session.recorded = some cn) (huser : user = ⟨cn, []⟩)
  | selfNamed (hself : SelfNamed d session user)
  | oidc {token : Text} {k : Nat} (htoken : bearerToken request = some token)
      (hres : callResult d s (Nat.pair i k) (.oidc token) = some (.ok (some user)))
  | review {r : BearerRequest} {k : Nat} (hclient : d.kubeClient = true)
      (htoken : bearerToken request = some r.token)
      (hres : callResult d s (Nat.pair i k) (.token r) = some (.ok (some user)))

theorem user_found (htask : Pool.Recorded s i task) {session : Session} {request : Request}
    {user : Identity} (hrequest : requestFromSession session = some request)
    (hchain : authenticateChain ((callingAuthenticators d.args.toArgs d.oidc d.kubeClient).map
      (answeredAuthenticator (task.trace.answer refusing))) request = .ok (some user)) :
    UserFound d s.backend i session request user := by
  obtain ⟨authenticator, hmem, hfound⟩ := authenticateChain_found hchain
  obtain ⟨calling, hcalling, rfl⟩ := List.mem_map.mp hmem
  rw [callingAuthenticators, List.mem_append, List.mem_append] at hcalling
  rcases hcalling with (hcert | hoidc) | hreview
  · split at hcert
    · rename_i hca
      obtain rfl := List.mem_singleton.mp hcert
      rcases certAuthenticate_session hrequest hfound with ⟨cn, hrecorded, huser⟩ | ⟨hnone, hself⟩
      · exact .certificate hca hrecorded huser
      · exact .selfNamed ⟨hca, hnone, hself⟩
    · exact absurd hcert List.not_mem_nil
  · obtain ⟨auth, -, rfl⟩ := List.mem_map.mp hoidc
    simp only [answeredAuthenticator, oidcCalls] at hfound
    split at hfound
    · simp [Program.eval] at hfound
    · rename_i token htoken
      have hfound : task.trace.answer refusing (.oidc token) = .ok (some user) := hfound
      obtain ⟨k, hres⟩ := answer_made htask (.oidc token) (by simp [hfound, refusing])
      rw [hfound] at hres
      exact .oidc htoken hres
  · split at hreview
    · rename_i hclient
      obtain rfl := List.mem_singleton.mp hreview
      simp only [answeredAuthenticator, tokenCalls] at hfound
      split at hfound
      · simp [Program.eval] at hfound
      · rename_i token htoken
        have hfound : task.trace.answer refusing (.token ⟨request, token, htoken⟩) =
          .ok (some user) := hfound
        obtain ⟨k, hres⟩ := answer_made htask (.token ⟨request, token, htoken⟩)
          (by simp [hfound, refusing])
        rw [hfound] at hres
        exact .review hclient htoken hres
    · exact absurd hreview List.not_mem_nil

theorem UserFound.vouched (h : ServerRun d lib now actions s) {session : Session}
    {request : Request} {user : Identity}
    (hfound : UserFound d s.backend i session request user) :
    UserVouched d s.backend i session request user ∨ SelfNamed d session user := by
  cases hfound with
  | certificate hca hrecorded huser => exact Or.inl (.certificate hca hrecorded huser)
  | selfNamed hself => exact Or.inr hself
  | oidc htoken hres =>
    obtain ⟨auth, read, hauth, rfl, -, haccepted⟩ := oidc_vouched h hres
    exact Or.inl (.oidc hauth htoken haccepted)
  | review hclient htoken hres =>
    obtain ⟨review, hvouched⟩ := token_vouched h hres
    exact Or.inl (.review hclient htoken hvouched)

theorem record_permitted (h : ServerRun d lib now actions s) (htask : Pool.Recorded s i task)
    {attr : Attributes} (haccepted : staticAllows d.authz.staticRules attr = true ∨
      ∃ authorize call, answeredClient (task.trace.answer refusing) d.kubeClient = some authorize ∧
        authorize call attr = .ok true) : Permitted d s.backend i attr := by
  rcases haccepted with hstatic | ⟨authorize, n, hclient, hallowed⟩
  · exact Or.inl hstatic
  · rw [answeredClient, Option.ite_none_right_eq_some] at hclient
    obtain ⟨hclient, hauthorize⟩ := hclient
    obtain rfl := Option.some.inj hauthorize
    have hallowed : task.trace.answer refusing (.access n attr) = .ok true := hallowed
    obtain ⟨k, hres⟩ := answer_made htask (.access n attr) (by simp [hallowed, refusing])
    rw [hallowed] at hres
    obtain ⟨review, hvouched⟩ := access_vouched h hres
    exact Or.inr ⟨hclient, k, review, hvouched⟩

end Results

/-- A request that was forwarded, past the allow list, with the identity that it was left. -/
inductive Rests (d : Deployment) (s : Backend lib) (i : Nat) (incoming : Incoming) :
    Option Identity → Prop
  | ignored (hallow : allowed (d.settings incoming.operational) incoming.session.reqHeader.path)
      (hignored : ignored (d.settings incoming.operational) incoming.session.reqHeader.path) :
      Rests d s i incoming none
  | vouched {request : Request} {user : Identity} {attrs : List Attributes}
      (hallow : allowed (d.settings incoming.operational) incoming.session.reqHeader.path)
      (hrequest : requestFromSession incoming.session = some request)
      (huser : UserVouched d s i incoming.session request user ∨
        SelfNamed d incoming.session user)
      (hattrs : attributes incoming.iter d.authz request user = .ok attrs) (hne : attrs ≠ [])
      (hpermitted : ∀ attr ∈ attrs, Permitted d s i attr) : Rests d s i incoming (some user)

/-- A request that was forwarded past the allow list, for nobody on an ignored path or for a user
who was found. -/
theorem forwarded_found {now : Nat} {actions : List (server d lib).Action}
    {s : (server d lib).State} (hrun : ServerRun d lib now actions s) {i : Nat}
    {task : Task UInt64 Incoming ApiCall ApiCall.Res Filtered} (htask : s.tasks i = some task)
    {filtered : Filtered} (hdone : task.program = .done filtered)
    (hforwarded : filtered.result = .ok false) :
    allowed (d.settings task.request.operational) task.request.session.reqHeader.path = true ∧
    ((ignored (d.settings task.request.operational) task.request.session.reqHeader.path = true ∧
        filtered.ctx = newCtx) ∨
      ∃ request user attrs, requestFromSession task.request.session = some request ∧
        UserFound d s.backend i task.request.session request user ∧ filtered.ctx = ⟨some user⟩ ∧
        attributes task.request.iter d.authz request user = .ok attrs ∧ attrs ≠ [] ∧
        ∀ attr ∈ attrs, Permitted d s.backend i attr) := by
  have hrecorded := Pool.run_recorded hrun i task htask
  have hreaches := hrecorded.reaches
  rw [hdone] at hreaches
  have heval := hreaches.eval
    ((filter_staged task.seen task.request).answer_agrees hrecorded.reaches refusing)
  have hfilter : filtered = requestFilter task.request.respond newCtx task.seen
      ((d.settings task.request.operational).answeredBy (task.trace.answer refusing)
        (callingAuthenticators d.args.toArgs d.oidc d.kubeClient) d.kubeClient)
      task.request.iter task.request.session := by
    rw [← heval]
    exact filterCalls_eval ..
  rw [hfilter] at hforwarded ⊢
  obtain ⟨hallow, ⟨hignored, hctx⟩ | ⟨request, user, attrs, hrequest, hchain, hauthorized, hctx⟩⟩ :=
    requestFilter_forwards hforwarded
  · exact ⟨hallow, Or.inl ⟨hignored, hctx⟩⟩
  · exact ⟨hallow, Or.inr ⟨request, user, attrs, hrequest, user_found hrecorded hrequest hchain,
      hctx, hauthorized.attributes, hauthorized.nonempty, fun attr hattr =>
        record_permitted hrun hrecorded (hauthorized.accepted attr hattr)⟩⟩

theorem forwarded_rests {now : Nat} {actions : List (server d lib).Action}
    {s : (server d lib).State} (hrun : ServerRun d lib now actions s) {i : Nat}
    {task : Task UInt64 Incoming ApiCall ApiCall.Res Filtered} (htask : s.tasks i = some task)
    {filtered : Filtered} (hdone : task.program = .done filtered)
    (hforwarded : filtered.result = .ok false) :
    ∃ user, filtered.ctx = ⟨user⟩ ∧ Rests d s.backend i task.request user := by
  obtain ⟨hallow, ⟨hignored, hctx⟩ |
    ⟨request, user, attrs, hrequest, hfound, hctx, hattrs, hne, hpermitted⟩⟩ :=
    forwarded_found hrun htask hdone hforwarded
  · exact ⟨none, hctx, .ignored hallow hignored⟩
  · exact ⟨some user, hctx, .vouched hallow hrequest (hfound.vouched hrun) hattrs hne hpermitted⟩

/-- In every run, a request is forwarded past the allow list, and then on an ignored path and
without an identity, or as a user who was vouched for, or named by the client where TLS recorded no
name, and with records that were all permitted. -/
theorem forwarded_vouched {now : Nat} {actions : List (server d lib).Action}
    {s : (server d lib).State} (hrun : ServerRun d lib now actions s) {i : Nat}
    {task : Task UInt64 Incoming ApiCall ApiCall.Res Filtered} (htask : s.tasks i = some task)
    {filtered : Filtered} (hdone : task.program = .done filtered)
    (hforwarded : filtered.result = .ok false) :
    allowed (d.settings task.request.operational) task.request.session.reqHeader.path = true ∧
    ((ignored (d.settings task.request.operational) task.request.session.reqHeader.path = true ∧
        filtered.ctx = newCtx) ∨
      ∃ request user attrs, requestFromSession task.request.session = some request ∧
        filtered.ctx = ⟨some user⟩ ∧
        (UserVouched d s.backend i task.request.session request user ∨
          SelfNamed d task.request.session user) ∧
        attributes task.request.iter d.authz request user = .ok attrs ∧ attrs ≠ [] ∧
        ∀ attr ∈ attrs, Permitted d s.backend i attr) := by
  obtain ⟨user, hctx, hrests⟩ := forwarded_rests hrun htask hdone hforwarded
  cases hrests with
  | ignored hallow hignored => exact ⟨hallow, Or.inl ⟨hignored, hctx⟩⟩
  | vouched hallow hrequest huser hattrs hne hpermitted =>
    exact ⟨hallow, Or.inr ⟨_, _, _, hrequest, hctx, huser, hattrs, hne, hpermitted⟩⟩

theorem forwarded_vouched_pods : ∃ s task filtered,
    ServerRun podDeployment foreignLib 0 podActions s ∧ s.tasks 0 = some task ∧
      task.program = .done filtered ∧ filtered.result = .ok false ∧
      allowed (podDeployment.settings task.request.operational)
        task.request.session.reqHeader.path = true ∧
      ((ignored (podDeployment.settings task.request.operational)
          task.request.session.reqHeader.path = true ∧ filtered.ctx = newCtx) ∨
        ∃ request user attrs, requestFromSession task.request.session = some request ∧
          filtered.ctx = ⟨some user⟩ ∧
          (UserVouched podDeployment s.backend 0 task.request.session request user ∨
            SelfNamed podDeployment task.request.session user) ∧
          attributes task.request.iter podDeployment.authz request user = .ok attrs ∧ attrs ≠ [] ∧
          ∀ attr ∈ attrs, Permitted podDeployment s.backend 0 attr) := by
  obtain ⟨s, task, filtered, hrun, htask, hdone, hforwarded⟩ := podActions_forward
  exact ⟨s, task, filtered, hrun, htask, hdone, hforwarded,
    forwarded_vouched hrun htask hdone hforwarded⟩

end KubeRbacProxy
