import KubeRbacProxy.Kube.Client

/-! The identity cache of the token authenticator under concurrent calls.  Verdicts are cached under
the token itself, and the audiences of one authenticator are fixed, so a verdict served is always
that of a review of the same token. -/

namespace KubeRbacProxy

open Library ReviewCache

structure BearerRequest where
  request : Request
  token : Text
  carries : bearerToken request = some token

def tokenScheme (audiences : List Text) :
    Scheme BearerRequest Text TokenSpec (Attempts TokenResponse) (Option Identity) Text where
  key r := r.token
  spec r := (tokenReviewBody r.token audiences).spec
  judge := tokenReview
  ttl := cacheTtl

theorem tokenAuthenticate_eq_alone (audiences : List Text) (cache : Table Text (Option Identity))
    (r : BearerRequest) (now : Nat) (post : ReviewBody TokenSpec → Attempts TokenResponse)
    (later : Nat) :
    tokenAuthenticate audiences cache r.request now post later = alone (tokenScheme audiences) cache
      r now (post (tokenReviewBody r.token audiences)) later := by
  simp only [tokenAuthenticate, r.carries, alone, tokenScheme]
  cases cache.fresh cacheTtl now r.token with
  | some result => rfl
  | none => cases tokenReview (post (tokenReviewBody r.token audiences)) <;> rfl

theorem tokenAuthenticate_run {audiences : List Text}
    {s : State BearerRequest Text TokenSpec (Attempts TokenResponse) (Option Identity) Text}
    {i : Nat}
    (hidle : s.calls i = .idle) (r : BearerRequest)
    (post : ReviewBody TokenSpec → Attempts TokenResponse) (time : Nat) :
    ∃ actions s', run (tokenScheme audiences) s actions = some s' ∧
      s'.table = (tokenAuthenticate audiences s.table r.request s.now post (s.now + time)).2 ∧
      ∃ returnedAt, s'.calls i = .returned r
        (tokenAuthenticate audiences s.table r.request s.now post (s.now + time)).1 returnedAt := by
  rw [tokenAuthenticate_eq_alone]
  exact alone_run hidle r (post (tokenReviewBody r.token audiences)) time

/-! ### Verdicts -/

/-- What a parsed response says of the reviewed token: it was authenticated as a named user, whose
groups are `identity.groups`. -/
def Authenticates (result : TokenResponse) (identity : Identity) : Prop :=
  ∃ status user, result.status = some status ∧ status.authenticated = some true ∧
    status.user = some user ∧ user.username = some identity.name ∧
    user.groups.getD [] = identity.groups

theorem tokenIdentity_eq_some {result : TokenResponse} {identity : Identity} :
    tokenIdentity result = some identity ↔ Authenticates result identity := by
  obtain ⟨name, groups⟩ := identity
  unfold tokenIdentity Authenticates
  constructor
  · intro h
    split at h
    · contradiction
    · rename_i status hstatus
      split at h
      · rename_i hauth
        cases huser : status.user with
        | none => simp [huser] at h
        | some user =>
          simp only [huser, Option.getD_some, Option.map_eq_some_iff, Identity.mk.injEq] at h
          obtain ⟨username, hname, rfl, hgroups⟩ := h
          exact ⟨status, user, hstatus, hauth, huser, hname, hgroups⟩
      · contradiction
  · rintro ⟨status, user, hstatus, hauth, huser, hname, hgroups⟩
    simp only at hname hgroups
    simp [hstatus, hauth, huser, hname, hgroups]

/-- A transport failure, a status other than 2xx after the retries, or a body that does not
parse. -/
def ReviewFails {Body : Type} (send : Attempts Body) : Prop :=
  match requestWithRetry send with
  | .error _ => True
  | .ok response => response.isSuccess = false ∨ ∃ e, response.json = .error e

theorem tokenReview_cases (send : Attempts TokenResponse) :
    (ReviewFails send ∧ ∃ e, tokenReview send = .error e) ∨
      ∃ response result, requestWithRetry send = .ok response ∧ response.isSuccess = true ∧
        response.json = .ok result ∧ tokenReview send = .ok (tokenIdentity result) := by
  unfold ReviewFails tokenReview
  cases requestWithRetry send with
  | error e => exact Or.inl ⟨trivial, e, rfl⟩
  | ok response =>
    cases hsuccess : response.isSuccess with
    | false => exact Or.inl ⟨Or.inl hsuccess, _, by simp only [hsuccess]; rfl⟩
    | true =>
      cases hjson : response.json with
      | error e => exact Or.inl ⟨Or.inr ⟨e, hjson⟩, e, by simp only [hsuccess, hjson]; rfl⟩
      | ok result =>
        exact Or.inr ⟨response, result, rfl, hsuccess, hjson, by simp only [hsuccess, hjson]; rfl⟩

theorem tokenReview_fails {send : Attempts TokenResponse} (h : ReviewFails send) :
    ∃ e, tokenReview send = .error e := by
  obtain ⟨-, he⟩ | ⟨response, result, hresponse, hsuccess, hjson, -⟩ := tokenReview_cases send
  · exact he
  · unfold ReviewFails at h
    rw [hresponse] at h
    obtain h | ⟨e, h⟩ := h
    · rw [hsuccess] at h; contradiction
    · rw [hjson] at h; contradiction

theorem tokenReview_ok {send : Attempts TokenResponse} {verdict : Option Identity}
    (h : tokenReview send = .ok verdict) : ∃ response result,
      requestWithRetry send = .ok response ∧ response.isSuccess = true ∧
        response.json = .ok result ∧ ∀ identity,
          verdict = some identity ↔ Authenticates result identity := by
  obtain ⟨-, e, he⟩ | ⟨response, result, hresponse, hsuccess, hjson, hreview⟩ :=
    tokenReview_cases send
  · rw [he] at h; contradiction
  · rw [hreview] at h
    obtain rfl := Except.ok.inj h
    exact ⟨response, result, hresponse, hsuccess, hjson, fun _ => tokenIdentity_eq_some⟩

/-- In every run of calls on one authenticator, a verdict returned for a token is what a successful
response said of that token under the configured audiences, to this call or to one whose verdict
was stored less than 30 seconds before.  A review that fails is an error of its call, and a call
that returns an error leaves the cache alone. -/
theorem tokenAuthenticate_sound (audiences : List Text) (now : Nat) :
    (∀ actions s, run (tokenScheme audiences) (State.init now) actions = some s →
      ∀ i (r : BearerRequest) verdict time, s.calls i = .returned r (.ok verdict) time →
        ∃ review ∈ s.reviews, review.spec = ⟨r.token, audiences⟩ ∧ review.answeredAt ≤ time ∧
          (∃ response result, requestWithRetry review.answer = .ok response ∧
            response.isSuccess = true ∧ response.json = .ok result ∧
            ∀ identity, verdict = some identity ↔ Authenticates result identity) ∧
          (review.caller = i ∨ ∃ storedAt, (storedAt, review) ∈ s.stored ∧ storedAt ≤ time ∧
            time - storedAt < 30 * 10 ^ 9)) ∧
    (∀ s i (r : BearerRequest) sentAt send, s.calls i = .reviewing r sentAt → ReviewFails send →
      ∃ s' e, step (tokenScheme audiences) s (.answer i send) = some s' ∧
        s'.calls i = .returned r (.error e) s.now ∧ s'.table = s.table) ∧
    SilentFailures now (tokenScheme audiences) := by
  refine ⟨?_, ?_, silentFailures now⟩
  · intro actions s hrun i r verdict time hcall
    -- equal tokens have equal reviews, whatever else the requests carry
    have hkey : KeyDetermines (tokenScheme audiences) Set.univ := by
      intro a _ b _ (h : a.token = b.token)
      show TokenSpec.mk a.token audiences = ⟨b.token, audiences⟩
      rw [h]
    obtain ⟨review, hmem, hspec, hjudge, hby, horigin⟩ :=
      run_sound hkey (by rintro (_ | _ | _ | _) _ <;> trivial) hrun i r verdict time hcall
    exact ⟨review, hmem, hspec, hby, tokenReview_ok hjudge, horigin⟩
  · intro s i r sentAt send hcall hfails
    obtain ⟨e, he⟩ := tokenReview_fails hfails
    obtain ⟨s', hstep, hreturned, htable⟩ := step_answer_error (σ := tokenScheme audiences) hcall he
    exact ⟨s', e, hstep, hreturned, htable⟩

/-! ### A token reviewed once for two calls -/

/-- A token review whose answer names the user. -/
def reviewOf (user : Identity) : Attempts TokenResponse := fun _ =>
  .ok ⟨200, "200 OK".toList, .ok ⟨some ⟨some true, some ⟨some user.name, some user.groups⟩⟩⟩⟩

theorem tokenReview_reviewOf (user : Identity) : tokenReview (reviewOf user) = .ok (some user) :=
  rfl

def podRequest : BearerRequest where
  request := ⟨"GET".toList, "/".toList, none, [(authorization, encodeUtf8 "Bearer pod".toList)]⟩
  token := "pod".toList
  carries := by decide +kernel

def podUser : Identity := ⟨"system:serviceaccount:default:app".toList, []⟩

/-- A second call is served the user whom the review of the first one named. -/
theorem tokenAuthenticate_sound_pod : ∃ s,
    run (tokenScheme ["proxy".toList]) (State.init 0) [.lookup 0 podRequest,
      .answer 0 (reviewOf podUser), .store 0, .lookup 1 podRequest] = some s ∧
    s.calls 1 = .returned podRequest (.ok (some podUser)) 0 ∧
    ∃ review ∈ s.reviews, review.spec = ⟨"pod".toList, ["proxy".toList]⟩ ∧
      ∃ response result, requestWithRetry review.answer = .ok response ∧
        response.json = .ok result ∧ Authenticates result podUser := by
  have hjudge : (tokenScheme ["proxy".toList]).judge (reviewOf podUser) = .ok (some podUser) := rfl
  have hkey : (tokenScheme ["proxy".toList]).key podRequest = podRequest.token := rfl
  obtain ⟨s, hrun, hcall, -⟩ := run_shared_key 0 hjudge (by decide) (hkey.trans hkey.symm)
  refine ⟨s, hrun, hcall, ?_⟩
  obtain ⟨review, hmem, hspec, -, ⟨response, result, hresponse, -, hjson, hverdict⟩, -⟩ :=
    (tokenAuthenticate_sound ["proxy".toList] 0).1 _ s hrun 1 podRequest _ 0 hcall
  exact ⟨review, hmem, hspec, response, result, hresponse, hjson, (hverdict podUser).mp rfl⟩

end KubeRbacProxy
