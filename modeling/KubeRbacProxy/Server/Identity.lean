import KubeRbacProxy.Proxy.Headers
import KubeRbacProxy.Server.Safety

/-! The headers that reach the upstream.  In every run a header by which the upstream is told of the
user names the user who was authenticated, whatever the client sent under its name, unless the path
is ignored or no such headers are asked for; all other headers are the client's. -/

namespace KubeRbacProxy

open Library ReviewCache

variable {d : Deployment} {lib : Jwt}

/-- The headers sent upstream for a request that was filtered, if it is sent on. -/
def Deployment.sent (d : Deployment) (incoming : Incoming) (filtered : Filtered) :
    Option HeaderMap :=
  match filtered.result with
  | .ok false => (upstreamRequestFilter (d.settings incoming.operational)
      incoming.session.reqHeader.headers filtered.ctx).toOption
  | _ => none

theorem sent_eq_some {incoming : Incoming} {filtered : Filtered} {headers : HeaderMap}
    (h : d.sent incoming filtered = some headers) : filtered.result = .ok false ∧
      upstreamRequestFilter (d.settings incoming.operational) incoming.session.reqHeader.headers
        filtered.ctx = .ok headers := by
  unfold Deployment.sent at h
  split at h
  · rename_i hresult
    refine ⟨hresult, ?_⟩
    cases hfilter : upstreamRequestFilter (d.settings incoming.operational)
        incoming.session.reqHeader.headers filtered.ctx with
    | error e =>
      rw [hfilter] at h
      contradiction
    | ok out =>
      rw [hfilter] at h
      exact congrArg _ (Option.some.inj h)
  · contradiction

theorem insertHeader_frame {headers out : HeaderMap} {name value : Text}
    (h : upstreamRequestFilter.insertHeader headers name value = .ok out) {other : HeaderName}
    (hother : HeaderName.parse name ≠ some other) : out.getAll other = headers.getAll other := by
  obtain ⟨n, hn, rfl⟩ := insertHeader_ok h
  apply HeaderMap.getAll_insert_ne
  rintro rfl
  exact hother hn

/-- The filter touches no header but those of the identity. -/
theorem upstreamRequestFilter_frame {proxy : Proxy} {headers out : HeaderMap} {ctx : RequestContext}
    (h : upstreamRequestFilter proxy headers ctx = .ok out) {name : HeaderName}
    (hname : ¬IdentityHeader proxy name) : out.getAll name = headers.getAll name := by
  unfold upstreamRequestFilter at h
  split at h
  · rename_i user _ _
    split at h
    · contradiction
    · rename_i first hfirst
      calc out.getAll name
        _ = first.getAll name := insertHeader_frame h fun hgroups => hname (Or.inr hgroups)
        _ = headers.getAll name := insertHeader_frame hfirst fun huser => hname (Or.inl huser)
  · rw [Except.ok.inj h]

theorem upstreamRequestFilter_disabled {proxy : Proxy} (hauth : proxy.authHeaders = false)
    (headers : HeaderMap) (ctx : RequestContext) :
    upstreamRequestFilter proxy headers ctx = .ok headers := by
  unfold upstreamRequestFilter
  rw [hauth]

/-- Whom the headers sent upstream for a request name: whom the client likes, or a user who was
vouched for, or whom the client named where TLS recorded no name. -/
inductive Identifies (d : Deployment) (b : Backend lib) (i : Nat) (incoming : Incoming) :
    HeaderMap → Prop
  | disabled (hauth : d.args.authHeaderFieldsEnabled = false) :
      Identifies d b i incoming incoming.session.reqHeader.headers
  | ignored (hignored : ignored (d.settings incoming.operational) incoming.session.reqHeader.path) :
      Identifies d b i incoming incoming.session.reqHeader.headers
  | vouched {headers : HeaderMap} {request : Request} {user : Identity}
      (hrequest : requestFromSession incoming.session = some request)
      (huser : UserVouched d b i incoming.session request user ∨
        SelfNamed d incoming.session user)
      (hvalues : ∀ name, IdentityHeader (d.settings incoming.operational) name →
        headers.getAll name =
          [encodeUtf8 (identityValue (d.settings incoming.operational) user name)])
      (hothers : ∀ name, ¬IdentityHeader (d.settings incoming.operational) name →
        headers.getAll name = incoming.session.reqHeader.headers.getAll name) :
      Identifies d b i incoming headers

/-- In every run, the identity headers that a request is sent on with have one value each, that of a
user who was vouched for or whom the client named where TLS recorded no name, and its other headers
are the client's; on an ignored path, or where no identity headers are asked for, all of them
are. -/
theorem sent_identifies {now : Nat} {actions : List (server d lib).Action}
    {s : (server d lib).State} (hrun : ServerRun d lib now actions s) {i : Nat}
    {task : Task UInt64 Incoming ApiCall ApiCall.Res Filtered} (htask : s.tasks i = some task)
    {filtered : Filtered} (hdone : task.program = .done filtered) {headers : HeaderMap}
    (hsent : d.sent task.request filtered = some headers) :
    Identifies d s.backend i task.request headers := by
  obtain ⟨hforwarded, hfilter⟩ := sent_eq_some hsent
  cases hauth : d.args.authHeaderFieldsEnabled with
  | false =>
    rw [upstreamRequestFilter_disabled hauth] at hfilter
    exact Except.ok.inj hfilter ▸ .disabled hauth
  | true =>
    obtain ⟨user, hctx, hrests⟩ := forwarded_rests hrun htask hdone hforwarded
    rw [hctx] at hfilter
    cases hrests with
    | ignored hallow hignored =>
      exact Except.ok.inj ((upstreamRequestFilter_anonymous _ _).symm.trans hfilter) ▸
        .ignored hignored
    | vouched hallow hrequest huser hattrs hne hpermitted =>
      exact .vouched hrequest huser (fun name => upstreamRequestFilter_identity hauth hfilter)
        fun name => upstreamRequestFilter_frame hfilter

/-! ### A request that names another user -/

def namingDeployment : Deployment :=
  { podDeployment with args := { podDeployment.args with authHeaderFieldsEnabled := true } }

/-- A request for the pods whose headers name the user `admin`. -/
def forgedIncoming : Incoming :=
  { podIncoming with
    session :=
      { reqHeader :=
          { method := "GET".toList
            path := "/pods".toList
            query := none
            headers := (authorization, encodeUtf8 "Bearer t".toList) ::
              (selfNamed "/pods").reqHeader.headers }
        digest := none } }

def forgedActions : List (server namingDeployment foreignLib).Action :=
  [.arrive 0 forgedIncoming, .call 0, .work (.acquire 0),
    .work (.tokenAnswer 0 fun _ => .ok ⟨201, "201 Created".toList,
      .ok ⟨some ⟨some true, some ⟨some "alice".toList, none⟩⟩⟩⟩),
    .work (.tokenStore 0), .resume 0, .call 0, .work (.acquire 1),
    .work (.accessAnswer 1 allowing), .work (.accessStore 1), .resume 0]

theorem sent_identifies_forged : ∃ s task filtered headers,
    ServerRun namingDeployment foreignLib 0 forgedActions s ∧ s.tasks 0 = some task ∧
      task.program = .done filtered ∧ namingDeployment.sent task.request filtered = some headers ∧
      Identifies namingDeployment s.backend 0 task.request headers := by
  have hchecked : ((Pool.run (started namingDeployment foreignLib 0) forgedActions).any fun s =>
      (s.tasks 0).any fun task => task.program.outcome.any fun filtered =>
        (namingDeployment.sent task.request filtered).isSome) = true := by
    decide +kernel
  simp only [Option.any_eq_true, Option.isSome_iff_exists] at hchecked
  obtain ⟨s, hrun, task, htask, filtered, houtcome, headers, hsent⟩ := hchecked
  have hdone := Program.outcome_eq_some.mp houtcome
  exact ⟨s, task, filtered, headers, hrun, htask, hdone, hsent,
    sent_identifies hrun htask hdone hsent⟩

end KubeRbacProxy
