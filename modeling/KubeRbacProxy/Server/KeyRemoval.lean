import KubeRbacProxy.Oidc.KeyRemoval
import KubeRbacProxy.Server.Progress
import KubeRbacProxy.Server.Revocation

/-! Signing keys that the issuer takes back.  The server may accept tokens under what it has cached,
but a request that arrives an hour after the last document with a removed key was stored is
forwarded for no token that is decoded under the key. -/

namespace KubeRbacProxy

open Library ReviewCache

variable {d : Deployment} {lib : Jwt}

/-- Who vouches for the user of task `i`, where it is not one of these keys. -/
inductive VouchedOtherwise (d : Deployment) (b : Backend lib) (i : Nat) (keys : Set lib.Key)
    (session : Session) (request : Request) (user : Identity) : Prop
  | certificate {cn : Text} (hca : d.args.clientCaFile.isSome)
      (hrecorded : session.recorded = some cn) (huser : user = ⟨cn, []⟩)
  | oidc {auth : OidcAuthenticator} {read : TokenRead lib auth} {k : Nat} {set : JwkSet}
      {key : lib.Key} {decodedAt : Nat} {claims : Json} (hauth : d.oidc = some auth)
      (htoken : bearerToken request = some read.token)
      (hsource : Source (b.oidc auth) (Nat.pair i k) read set)
      (hlisted : Listed lib set read.kid key) (hkept : key ∉ keys)
      (hdecoded : (Nat.pair i k, decodedAt) ∈ (b.oidc auth).decoded)
      (hclaims : lib.decode read.token key (oidcValidation auth read.header.alg) decodedAt =
        .ok claims)
      (hidentity : oidcIdentity auth claims = .ok user)
  | review {token : Text} {review : Review TokenSpec (Attempts TokenResponse)} {k : Nat}
      (hclient : d.kubeClient = true) (htoken : bearerToken request = some token)
      (hvouched : TokenVouched d.args.authTokenAudiences b.tokens (Nat.pair i k) token user review)

section Requests

variable {now : Nat} {earlier later actions : List (server d lib).Action}
  {s0 s : (server d lib).State} {auth : OidcAuthenticator}

/-! ### The calls on the keys -/

theorem calls_free (h : ServerRun d lib now actions s) {i : Nat} (hnew : s.tasks i = none)
    (k : Nat) : FreeCall s.backend (Nat.pair i k) := by
  by_contra hfree
  refine Pool.run_untouched (fun (b : Backend lib) c => ¬FreeCall b c) ?_ ?_ ?_ h hnew k hfree
  · intro b c call b' hstart c' hc
    by_contra hboth
    obtain ⟨hbefore, hother⟩ := not_or.mp hboth
    exact hc (startCall_free hstart hother (not_not.mp hbefore))
  · intro b event b' hwork c hc hbefore
    exact hc (workCalls_free hwork hbefore)
  · intro c hc
    exact hc ⟨fun _ => rfl, rfl, rfl⟩

theorem oidc_startedFrom (h : Pool.run s0 later = some s) {c time : Nat}
    (hnow : time ≤ (s0.backend.oidc auth).now) (hidle : (s0.backend.oidc auth).calls c = .idle) :
    ((s.backend.oidc auth).calls c).StartedFrom time := by
  have hkept : ∀ {b b' : Backend lib}, time ≤ (b.oidc auth).now ∧
      ((b.oidc auth).calls c).StartedFrom time → BackendStep d b b' →
      time ≤ (b'.oidc auth).now ∧ ((b'.oidc auth).calls c).StartedFrom time := by
    rintro b b' ⟨hnow, hstarted⟩ hstep
    rcases hstep.oidc auth with hsame | ⟨action, hmove⟩
    · rw [hsame]
      exact ⟨hnow, hstarted⟩
    · have hmoves := oidcStep_moves hmove
      exact ⟨hnow.trans (oidcMoves_now hmoves), oidcMoves_startedFrom hmoves hnow hstarted⟩
  have hstart : time ≤ (s0.backend.oidc auth).now ∧
      ((s0.backend.oidc auth).calls c).StartedFrom time := by
    rw [hidle]
    exact ⟨hnow, trivial⟩
  exact (Pool.run_backend
    (I := fun b => time ≤ (b.oidc auth).now ∧ ((b.oidc auth).calls c).StartedFrom time)
    (fun hb hstart => hkept hb (startCall_step hstart))
    (fun hb hwork => hkept hb (workCalls_step hwork)) hstart h).2

theorem run_fetchedByCalls (h : ServerRun d lib now actions s) (auth : OidcAuthenticator) :
    FetchedByCalls (s.backend.oidc auth) := by
  obtain ⟨calls, hrun, -⟩ := serverRun_oidc h auth
  exact oidcRun_fetchedByCalls hrun

end Requests

/-- In every run, a request that arrives an hour after the last document with a removed key was
stored is forwarded on an ignored path for nobody, or for a user who was vouched for by a
certificate, by a review, or under a key that was not removed, or whom the client named where TLS
recorded no name. -/
theorem removed_key_refused {now : Nat} {earlier later : List (server d lib).Action}
    {s0 s : (server d lib).State} (hearlier : ServerRun d lib now earlier s0)
    (hlater : Pool.run s0 later = some s) {i : Nat} (hnew : s0.tasks i = none)
    {auth : OidcAuthenticator} (hauth : d.oidc = some auth) {keys : Set lib.Key} {settled : Nat}
    (hremoved : Removed (s0.backend.oidc auth) (s.backend.oidc auth) keys settled)
    (helapsed : settled + keysTtl ≤ (s0.backend.oidc auth).now)
    {task : Task UInt64 Incoming ApiCall ApiCall.Res Filtered} (htask : s.tasks i = some task)
    {filtered : Filtered} (hdone : task.program = .done filtered)
    (hforwarded : filtered.result = .ok false) :
    (ignored (d.settings task.request.operational) task.request.session.reqHeader.path = true ∧
      filtered.ctx = newCtx) ∨
    ∃ request user, requestFromSession task.request.session = some request ∧
      filtered.ctx = ⟨some user⟩ ∧
      (VouchedOtherwise d s.backend i keys task.request.session request user ∨
        SelfNamed d task.request.session user) := by
  have hrun : ServerRun d lib now (earlier ++ later) s := runFrom_append.mpr ⟨s0, hearlier, hlater⟩
  obtain ⟨-, hignored | ⟨request, user, attrs, hrequest, hfound, hctx, -⟩⟩ :=
    forwarded_found hrun htask hdone hforwarded
  · exact Or.inl hignored
  refine Or.inr ⟨request, user, hrequest, hctx, ?_⟩
  cases hfound with
  | certificate hca hrecorded huser => exact Or.inl (.certificate hca hrecorded huser)
  | selfNamed hself => exact Or.inr hself
  | review hclient htoken hres =>
    obtain ⟨review, hvouched⟩ := token_vouched hrun hres
    exact Or.inl (.review hclient htoken hvouched)
  | @oidc token k htoken hres =>
    obtain ⟨auth', read, hauth', rfl, hcall, set, key, decodedAt, claims, hsource, hlisted,
      hdecoded, hclaims, hidentity⟩ := oidc_vouched hrun hres
    obtain rfl := Option.some.inj (hauth.symm.trans hauth')
    have hidle : (s0.backend.oidc auth).calls (Nat.pair i k) = .idle :=
      (calls_free hearlier hnew k).1 auth
    have hstarted := oidc_startedFrom hlater helapsed hidle
    rw [hcall] at hstarted
    refine Or.inl (.oidc hauth htoken hsource hlisted (fun hkey => ?_) hdecoded hclaims hidentity)
    exact hremoved.not_lists (run_fetchedByCalls hearlier auth) hidle hstarted hsource
      ⟨read.kid, key, hkey, hlisted⟩

/-! ### A key replaced by another of the same id -/

deriving instance DecidableEq for Jwk, JwkSet

def issuerDeployment : Deployment := { podDeployment with oidc := some testAuth }

/-- A request for the pods with a token of the issuer. -/
def issuerIncoming : Incoming :=
  { podIncoming with
    session :=
      { reqHeader :=
          { method := "GET".toList
            path := "/pods".toList
            query := none
            headers := [(authorization, encodeUtf8 ("Bearer ".toList ++ namedToken))] }
        digest := none } }

def retiredModulus : Text := "zQAB".toList

def retiredSet : JwkSet :=
  ⟨[⟨some "test".toList, "RSA".toList, some retiredModulus, some "AQAB".toList⟩]⟩

def retiredAnswers : Answers :=
  { testAnswers with keySet := fun _ => .ok ⟨200, "200 OK".toList, .ok retiredSet⟩ }

def retiredKeys : Set (Text × Text) := {key | key.1 = retiredModulus}

abbrev IssuerAction := (server issuerDeployment (testLib namedToken namedClaims)).Action

/-- The first request is refused under the retired key, and an hour passes. -/
def retiredActions : List IssuerAction :=
  [.arrive 0 issuerIncoming, .call 0, .work (.oidcAnswer testAuth 0 retiredAnswers),
    .work (.oidcStore testAuth 0), .work (.oidcJudge testAuth 0 1700000000), .resume 0,
    .work (.tick keysTtl)]

/-- The second request is accepted under the key that the issuer lists now. -/
def renewedActions : List IssuerAction :=
  [.arrive 1 issuerIncoming, .call 1, .work (.oidcAnswer testAuth 2 testAnswers),
    .work (.oidcStore testAuth 2), .work (.oidcJudge testAuth 2 1700000000), .resume 1, .call 1,
    .work (.acquire 3), .work (.accessAnswer 3 allowing), .work (.accessStore 3), .resume 1]

theorem testSet_not_lists : ¬Lists (testLib namedToken namedClaims) retiredKeys testSet := by
  rintro ⟨kid, key, hkey, jwk, hjwk, -, -, n, e, hn, -, hcomponents⟩
  obtain rfl := List.mem_singleton.mp hjwk
  obtain rfl := Option.some.inj hn
  obtain rfl := Option.some.inj hcomponents
  have hother : testModulus ≠ retiredModulus := by decide +kernel
  exact hother hkey

/-- The retired document is stored by the time of `s0`, and only the new one after that. -/
def Replaced (s0 s : OidcState (testLib namedToken namedClaims) testAuth) : Prop :=
  s.fetched = (2, testSet) :: s0.fetched ∧ s.stored = [(keysTtl, testSet), (0, retiredSet)]

instance (s0 s : OidcState (testLib namedToken namedClaims) testAuth) :
    Decidable (Replaced s0 s) :=
  inferInstanceAs (Decidable (_ ∧ _))

theorem Replaced.removed {s0 s : OidcState (testLib namedToken namedClaims) testAuth}
    (h : Replaced s0 s) : Removed s0 s retiredKeys 0 where
  fetched entry hmem hlists := by
    rw [h.1] at hmem
    rcases List.mem_cons.mp hmem with rfl | hold
    · exact absurd hlists testSet_not_lists
    · exact hold
  stored entry hmem hlists := by
    rw [h.2] at hmem
    rcases List.mem_cons.mp hmem with rfl | hold
    · exact absurd hlists testSet_not_lists
    · obtain rfl := List.mem_singleton.mp hold
      exact le_rfl

theorem renewedActions_forward : ∃ s0 s task filtered,
    ServerRun issuerDeployment (testLib namedToken namedClaims) 0 retiredActions s0 ∧
      Pool.run s0 renewedActions = some s ∧ s0.tasks 1 = none ∧
      keysTtl ≤ (s0.backend.oidc testAuth).now ∧
      Replaced (s0.backend.oidc testAuth) (s.backend.oidc testAuth) ∧ s.tasks 1 = some task ∧
      task.program = .done filtered ∧ filtered.result = .ok false := by
  have hchecked : forwardsLater retiredActions renewedActions 1 (fun b0 b => decide
      (keysTtl ≤ (b0.oidc testAuth).now ∧ Replaced (b0.oidc testAuth) (b.oidc testAuth))) =
        true := by
    decide +kernel
  obtain ⟨s0, s, task, filtered, hrun, hlater, hnew, hcheck, hforwarded⟩ :=
    forwardsLater_run hchecked
  simp only [decide_eq_true_eq] at hcheck
  obtain ⟨hnow, hreplaced⟩ := hcheck
  exact ⟨s0, s, task, filtered, hrun, hlater, hnew, hnow, hreplaced, hforwarded⟩

theorem removed_key_refused_retired : ∃ s0 s task filtered,
    ServerRun issuerDeployment (testLib namedToken namedClaims) 0 retiredActions s0 ∧
      Pool.run s0 renewedActions = some s ∧
      Removed (s0.backend.oidc testAuth) (s.backend.oidc testAuth) retiredKeys 0 ∧
      s.tasks 1 = some task ∧ task.program = .done filtered ∧ filtered.result = .ok false ∧
      ((ignored (issuerDeployment.settings task.request.operational)
          task.request.session.reqHeader.path = true ∧ filtered.ctx = newCtx) ∨
        ∃ request user, requestFromSession task.request.session = some request ∧
          filtered.ctx = ⟨some user⟩ ∧
          (VouchedOtherwise issuerDeployment s.backend 1 retiredKeys task.request.session request
              user ∨
            SelfNamed issuerDeployment task.request.session user)) := by
  obtain ⟨s0, s, task, filtered, hrun, hlater, hnew, hnow, hreplaced, htask, hdone, hresult⟩ :=
    renewedActions_forward
  have helapsed : 0 + keysTtl ≤ (s0.backend.oidc testAuth).now := by rwa [Nat.zero_add]
  exact ⟨s0, s, task, filtered, hrun, hlater, hreplaced.removed, htask, hdone, hresult,
    removed_key_refused hrun hlater hnew rfl hreplaced.removed helapsed htask hdone hresult⟩

end KubeRbacProxy
