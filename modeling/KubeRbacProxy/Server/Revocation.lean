import KubeRbacProxy.Library.Revocation
import KubeRbacProxy.Server.Load
import KubeRbacProxy.Server.Safety

/-! Tokens and permissions that the API server takes back.  The server may go on with what it has
in its caches, but a request that arrives 30 seconds after the last reply from before was stored is
forwarded on nothing that was taken back. -/

namespace KubeRbacProxy

open Library ReviewCache

/-- The API server names a user. -/
def GivesUser (send : Attempts TokenResponse) : Prop :=
  ∃ response result user, requestWithRetry send = .ok response ∧ response.isSuccess = true ∧
    response.json = .ok result ∧ Authenticates result user

/-- A review of a record with one of these keys. -/
def AsksFor (keys : Set Text) (spec : AccessSpec) : Prop :=
  ∃ attr, accessKey attr ∈ keys ∧ SpecFor attr spec

variable {d : Deployment} {lib : Jwt}

/-- From `since` on the API server takes none of the tokens and allows no record with one of the
keys, and what it replied before is stored by `settled`. -/
structure Revoked (b : Backend lib) (tokens keys : Set Text) (since settled : Nat) : Prop where
  tokens : Withdrawn b.tokens (fun spec => spec.token ∈ tokens) GivesUser since settled
  access : Withdrawn b.access (AsksFor keys) (Decides · true) since settled

/-- What the server goes by where there is no API server to ask. -/
def Deployment.unreviewed (d : Deployment) : Deployment := { d with kubeClient := false }

/-! ### The caches -/

def tokensCached (d : Deployment) (lib : Jwt) :
    (server d lib).Cached (tokenScheme d.args.authTokenAudiences) where
  calls := Backend.tokens
  start hstart := (startCall_tokens hstart).imp id fun ⟨request, _, hstep⟩ => ⟨request, hstep⟩
  work := workCalls_tokens

def accessCached (d : Deployment) (lib : Jwt) : (server d lib).Cached accessScheme where
  calls := Backend.access
  start hstart := (startCall_access hstart).imp id fun ⟨_, attrs, _, hstep⟩ => ⟨attrs, hstep⟩
  work := workCalls_access

/-! ### What is left to rest on -/

section Withdrawal

variable {b : Backend lib} {tokens keys : Set Text} {since settled time i : Nat}

theorem Revoked.user (h : Revoked b tokens keys since settled) (hsince : since ≤ time)
    (helapsed : settled + cacheTtl ≤ time) (hbegins : ∀ k, Begins b.tokens (Nat.pair i k) time)
    {session : Session} {request : Request} {user : Identity}
    (huser : UserVouched d b i session request user) {token : Text}
    (htoken : bearerToken request = some token) (hrevoked : token ∈ tokens) :
    UserVouched d.unreviewed b i session request user := by
  cases huser with
  | certificate hca hrecorded huser => exact .certificate hca hrecorded huser
  | oidc hauth hread haccepted => exact .oidc hauth hread haccepted
  | @review token' review k hclient htoken' hvouched =>
    obtain rfl := Option.some.inj (htoken'.symm.trans htoken)
    have hasks : review.spec.token ∈ tokens := by rwa [hvouched.spec]
    refine absurd ?_ (h.tokens.not_good (hbegins k) hsince helapsed hvouched.recorded hasks
      hvouched.current)
    obtain ⟨response, result, hresponse, hsuccess, hjson, hnames⟩ := hvouched.verdict
    exact ⟨response, result, user, hresponse, hsuccess, hjson, hnames⟩

theorem Revoked.permitted (h : Revoked b tokens keys since settled) (hsince : since ≤ time)
    (helapsed : settled + cacheTtl ≤ time) (hbegins : ∀ k, Begins b.access (Nat.pair i k) time)
    {attr : Attributes} (hpermitted : Permitted d b i attr) (hrevoked : accessKey attr ∈ keys) :
    staticAllows d.authz.staticRules attr = true := by
  rcases hpermitted with hstatic | ⟨-, k, review, hvouched⟩
  · exact hstatic
  obtain ⟨other, hkey, hspec⟩ := hvouched.spec
  have hasks : AsksFor keys review.spec := ⟨other, by rwa [hkey], hspec⟩
  exact absurd hvouched.verdict
    (h.access.not_good (hbegins k) hsince helapsed hvouched.recorded hasks hvouched.current)

end Withdrawal

/-- Why a request is forwarded after that, past the allow list, for a user or for nobody: not for
a token or a record that was taken back. -/
inductive StillForwards (d : Deployment) (b : Backend lib) (i : Nat) (tokens keys : Set Text)
    (incoming : Incoming) : Option Identity → Prop
  | ignored (hallow : allowed (d.settings incoming.operational) incoming.session.reqHeader.path)
      (hignored : ignored (d.settings incoming.operational) incoming.session.reqHeader.path) :
      StillForwards d b i tokens keys incoming none
  | vouched {request : Request} {user : Identity} {attrs : List Attributes}
      (hallow : allowed (d.settings incoming.operational) incoming.session.reqHeader.path)
      (hrequest : requestFromSession incoming.session = some request)
      (huser : ∀ token ∈ tokens, bearerToken request = some token →
        UserVouched d.unreviewed b i incoming.session request user ∨
          SelfNamed d incoming.session user)
      (hattrs : attributes incoming.iter d.authz request user = .ok attrs) (hne : attrs ≠ [])
      (hpermitted : ∀ attr ∈ attrs, accessKey attr ∈ keys →
        staticAllows d.authz.staticRules attr = true) :
      StillForwards d b i tokens keys incoming (some user)

/-- In every run, a request that arrives 30 seconds after the last of what the API server took back
was stored is not forwarded for it. -/
theorem revoked_refused {now : Nat} {earlier later : List (server d lib).Action}
    {s0 s : (server d lib).State} (hearlier : ServerRun d lib now earlier s0)
    (hlater : Pool.run s0 later = some s) {i : Nat} (hnew : s0.tasks i = none)
    {tokens keys : Set Text} {since settled time : Nat}
    (hrevoked : Revoked s.backend tokens keys since settled)
    (htokens : time ≤ s0.backend.tokens.now) (haccess : time ≤ s0.backend.access.now)
    (hsince : since ≤ time) (helapsed : settled + cacheTtl ≤ time)
    {task : Task UInt64 Incoming ApiCall ApiCall.Res Filtered} (htask : s.tasks i = some task)
    {filtered : Filtered} (hdone : task.program = .done filtered)
    (hforwarded : filtered.result = .ok false) :
    ∃ user, filtered.ctx = ⟨user⟩ ∧
      StillForwards d s.backend i tokens keys task.request user := by
  have htokens : ∀ k, Begins s.backend.tokens (Nat.pair i k) time := fun k =>
    ((tokensCached d lib).begins_later rfl hearlier hlater hnew k).mono htokens
  have haccess : ∀ k, Begins s.backend.access (Nat.pair i k) time := fun k =>
    ((accessCached d lib).begins_later rfl hearlier hlater hnew k).mono haccess
  have hrun : ServerRun d lib now (earlier ++ later) s := runFrom_append.mpr ⟨s0, hearlier, hlater⟩
  obtain ⟨user, hctx, hrests⟩ := forwarded_rests hrun htask hdone hforwarded
  refine ⟨user, hctx, ?_⟩
  cases hrests with
  | ignored hallow hignored => exact .ignored hallow hignored
  | vouched hallow hrequest huser hattrs hne hpermitted =>
    refine .vouched hallow hrequest ?_ hattrs hne ?_
    · intro token hmem htoken
      exact huser.imp_left fun hvouched =>
        hrevoked.user hsince helapsed htokens hvouched htoken hmem
    · intro attr hattr hmem
      exact hrevoked.permitted hsince helapsed haccess (hpermitted attr hattr) hmem

/-! ### Runs that are evaluated -/

section Evaluated

variable {earlier later : List (server d lib).Action} {i : Nat}
  {check : Backend lib → Backend lib → Bool}

/-- Request `i` arrives after the first part of a run and is forwarded in the second, and the check
holds of what the calls work on at the end of each. -/
def forwardsLater (earlier later : List (server d lib).Action) (i : Nat)
    (check : Backend lib → Backend lib → Bool) : Bool :=
  (Pool.run (started d lib 0) earlier).any fun s0 => (s0.tasks i).isNone &&
    (Pool.run s0 later).any fun s => check s0.backend s.backend && (s.tasks i).any fun task =>
      task.program.outcome.any fun filtered => decide (filtered.result = .ok false)

theorem forwardsLater_run (h : forwardsLater earlier later i check = true) :
    ∃ s0 s task filtered, ServerRun d lib 0 earlier s0 ∧ Pool.run s0 later = some s ∧
      s0.tasks i = none ∧ check s0.backend s.backend = true ∧ s.tasks i = some task ∧
      task.program = .done filtered ∧ filtered.result = .ok false := by
  obtain ⟨s0, hrun, h⟩ := (Option.any_eq_true _ _).mp h
  simp only [Bool.and_eq_true, Option.any_eq_true, decide_eq_true_eq, Option.isNone_iff_eq_none]
    at h
  obtain ⟨hnew, s, hlater, hcheck, task, htask, filtered, houtcome, hresult⟩ := h
  exact ⟨s0, s, task, filtered, hrun, hlater, hnew, hcheck, htask,
    Program.outcome_eq_some.mp houtcome, hresult⟩

end Evaluated

/-! ### A token taken back -/

/-- A request for the pods with another token. -/
def otherIncoming : Incoming :=
  { podIncoming with
    session :=
      { reqHeader :=
          { method := "GET".toList
            path := "/pods".toList
            query := none
            headers := [(authorization, encodeUtf8 "Bearer u".toList)] }
        digest := none } }

/-- Half a minute after the first request. -/
def waitingActions : List (server podDeployment foreignLib).Action :=
  podActions ++ [.work (.tick cacheTtl)]

/-- The other request is reviewed for its own token and user. -/
def otherActions : List (server podDeployment foreignLib).Action :=
  [.arrive 1 otherIncoming, .call 1, .work (.acquire 2),
    .work (.tokenAnswer 2 fun _ => .ok ⟨201, "201 Created".toList,
      .ok ⟨some ⟨some true, some ⟨some "bob".toList, none⟩⟩⟩⟩),
    .work (.tokenStore 2), .resume 1, .call 1, .work (.acquire 3),
    .work (.accessAnswer 3 allowing), .work (.accessStore 3), .resume 1]

def aliceTokens : Set Text := {"t".toList}

/-- The keys of records of users whose names start with an `a`. -/
def aliceKeys : Set Text := {key | key.head? = some 'a'}

theorem asksFor_aliceKeys {spec : AccessSpec} (h : AsksFor aliceKeys spec) :
    spec.user.head? = some 'a' ∨ spec.user = [] := by
  obtain ⟨attr, hkey, hspec⟩ := h
  change (accessKey attr).head? = some 'a' at hkey
  rw [hspec.user]
  cases hname : attr.user.name with
  | nil => exact Or.inr rfl
  | cons c rest =>
    rw [accessKey, hname] at hkey
    exact Or.inl hkey

/-- Nothing about the first user or its token after the clock started. -/
def BeforeStart (b : Backend lib) : Prop :=
  (∀ review ∈ b.tokens.reviews, review.spec.token = "t".toList → review.answeredAt < 1) ∧
  (∀ entry ∈ b.tokens.stored, entry.2.spec.token = "t".toList → entry.1 ≤ 0) ∧
  (∀ review ∈ b.access.reviews,
    review.spec.user.head? = some 'a' ∨ review.spec.user = [] → review.answeredAt < 1) ∧
  ∀ entry ∈ b.access.stored,
    entry.2.spec.user.head? = some 'a' ∨ entry.2.spec.user = [] → entry.1 ≤ 0

instance (b : Backend lib) : Decidable (BeforeStart b) := inferInstanceAs (Decidable (_ ∧ _))

theorem BeforeStart.revoked {b : Backend lib} (h : BeforeStart b) :
    Revoked b aliceTokens aliceKeys 1 0 where
  tokens review hmem hasks _ :=
    ⟨h.1 review hmem hasks, fun _ hstored => h.2.1 _ hstored hasks⟩
  access review hmem hasks _ :=
    ⟨h.2.2.1 review hmem (asksFor_aliceKeys hasks),
      fun _ hstored => h.2.2.2 _ hstored (asksFor_aliceKeys hasks)⟩

theorem otherActions_forward : ∃ s0 s task filtered,
    ServerRun podDeployment foreignLib 0 waitingActions s0 ∧ Pool.run s0 otherActions = some s ∧
      s0.tasks 1 = none ∧ BeforeStart s.backend ∧ cacheTtl ≤ s0.backend.tokens.now ∧
      cacheTtl ≤ s0.backend.access.now ∧ s.tasks 1 = some task ∧ task.program = .done filtered ∧
      filtered.result = .ok false := by
  have hchecked : forwardsLater waitingActions otherActions 1 (fun b0 b => decide
      (BeforeStart b ∧ cacheTtl ≤ b0.tokens.now ∧ cacheTtl ≤ b0.access.now)) = true := by
    decide +kernel
  obtain ⟨s0, s, task, filtered, hrun, hlater, hnew, hcheck, hforwarded⟩ :=
    forwardsLater_run hchecked
  simp only [decide_eq_true_eq] at hcheck
  obtain ⟨hbefore, htokens, haccess⟩ := hcheck
  exact ⟨s0, s, task, filtered, hrun, hlater, hnew, hbefore, htokens, haccess, hforwarded⟩

theorem revoked_refused_alice : ∃ s0 s task filtered,
    ServerRun podDeployment foreignLib 0 waitingActions s0 ∧ Pool.run s0 otherActions = some s ∧
      Revoked s.backend aliceTokens aliceKeys 1 0 ∧ s.tasks 1 = some task ∧
      task.program = .done filtered ∧ filtered.result = .ok false ∧ ∃ user, filtered.ctx = ⟨user⟩ ∧
        StillForwards podDeployment s.backend 1 aliceTokens aliceKeys task.request user := by
  obtain ⟨s0, s, task, filtered, hrun, hlater, hnew, hbefore, htokens, haccess, htask, hdone,
    hresult⟩ := otherActions_forward
  have hsince : 1 ≤ cacheTtl := by decide
  exact ⟨s0, s, task, filtered, hrun, hlater, hbefore.revoked, htask, hdone, hresult,
    revoked_refused hrun hlater hnew hbefore.revoked htokens haccess hsince (by omega) htask hdone
      hresult⟩

end KubeRbacProxy
