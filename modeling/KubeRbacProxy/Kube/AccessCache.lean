import KubeRbacProxy.Kube.Client

/-! The decision cache of `authorize` under concurrent calls.  Decisions are cached under seven of
the fields of a record, joined with `|`; the review also names the groups, the subresource, the
name, and the kind of request.  Runs of calls are sound exactly where records with the same key ask
for the same review. -/

namespace KubeRbacProxy

open Library ReviewCache

def accessScheme : Scheme Attributes Text AccessSpec (Attempts AccessResponse) Bool Text where
  key := accessKey
  spec attrs := (accessReviewBody attrs).spec
  judge := accessReview
  ttl := cacheTtl

theorem authorize_eq_alone (cache : Table Text Bool) (attrs : Attributes) (now : Nat)
    (post : ReviewBody AccessSpec → Attempts AccessResponse) (later : Nat) :
    authorize cache attrs now post later =
      alone accessScheme cache attrs now (post (accessReviewBody attrs)) later := by
  simp only [authorize, alone, accessScheme]
  cases cache.fresh cacheTtl now (accessKey attrs) with
  | some result => rfl
  | none => cases accessReview (post (accessReviewBody attrs)) <;> rfl

theorem authorize_run {s : State Attributes Text AccessSpec (Attempts AccessResponse) Bool Text}
    {i : Nat} (hidle : s.calls i = .idle) (attrs : Attributes)
    (post : ReviewBody AccessSpec → Attempts AccessResponse) (time : Nat) :
    ∃ actions s', run accessScheme s actions = some s' ∧
      s'.table = (authorize s.table attrs s.now post (s.now + time)).2 ∧
      ∃ returnedAt, s'.calls i =
        .returned attrs (authorize s.table attrs s.now post (s.now + time)).1 returnedAt := by
  rw [authorize_eq_alone]
  exact alone_run hidle attrs (post (accessReviewBody attrs)) time

/-! ### Reviews and decisions -/

/-- The review that is sent for a record: of the same user, with the same groups, for the resource
of a resource request and for the path of any other. -/
structure SpecFor (attrs : Attributes) (spec : AccessSpec) : Prop where
  user : spec.user = attrs.user.name
  groups : spec.groups = attrs.user.groups
  resource : attrs.resourceRequest = true → spec.nonResource = none ∧ spec.resource = some
    { namespace_ := attrs.namespace_
      verb := attrs.verb
      group := attrs.apiGroup
      version := attrs.apiVersion
      resource := attrs.resource
      subresource := attrs.subresource
      name := attrs.name }
  nonResource : attrs.resourceRequest = false → spec.resource = none ∧ spec.nonResource = some
    { path := attrs.path
      verb := attrs.verb }

theorem accessSpec_resource {attrs : Attributes} (h : attrs.resourceRequest = true) :
    (accessReviewBody attrs).spec = ⟨attrs.user.name, attrs.user.groups,
      some ⟨attrs.namespace_, attrs.verb, attrs.apiGroup, attrs.apiVersion, attrs.resource,
        attrs.subresource, attrs.name⟩, none⟩ := by
  unfold accessReviewBody
  dsimp only
  rw [if_pos h, if_pos h]

theorem accessSpec_path {attrs : Attributes} (h : attrs.resourceRequest = false) :
    (accessReviewBody attrs).spec =
      ⟨attrs.user.name, attrs.user.groups, none, some ⟨attrs.path, attrs.verb⟩⟩ := by
  have hpath : ¬attrs.resourceRequest = true := by simp [h]
  unfold accessReviewBody
  dsimp only
  rw [if_neg hpath, if_neg hpath]

theorem specFor_iff {attrs : Attributes} {spec : AccessSpec} :
    SpecFor attrs spec ↔ spec = (accessReviewBody attrs).spec := by
  cases hkind : attrs.resourceRequest with
  | true =>
    rw [accessSpec_resource hkind]
    constructor
    · intro h
      obtain ⟨hpath, hresource⟩ := h.resource hkind
      cases spec
      simp only at hpath hresource
      rw [hpath, hresource, ← h.user, ← h.groups]
    · rintro rfl
      exact ⟨rfl, rfl, fun _ => ⟨rfl, rfl⟩, fun hother => by simp [hkind] at hother⟩
  | false =>
    rw [accessSpec_path hkind]
    constructor
    · intro h
      obtain ⟨hresource, hpath⟩ := h.nonResource hkind
      cases spec
      simp only at hpath hresource
      rw [hpath, hresource, ← h.user, ← h.groups]
    · rintro rfl
      exact ⟨rfl, rfl, fun hother => by simp [hkind] at hother, fun _ => ⟨rfl, rfl⟩⟩

/-- The last response that `send` gets is a success, and its `allowed` bit, which counts as false
where it is absent, is this. -/
def Decides (send : Attempts AccessResponse) (allowed : Bool) : Prop :=
  ∃ response body, requestWithRetry send = .ok response ∧ response.isSuccess = true ∧
    response.json = .ok body ∧ (body.status.bind (·.allowed)).getD false = allowed

theorem accessReview_eq_ok {send : Attempts AccessResponse} {allowed : Bool} :
    accessReview send = .ok allowed ↔ Decides send allowed := by
  unfold accessReview Decides
  constructor
  · intro h
    split at h
    · contradiction
    · rename_i response hresponse
      split at h
      · rename_i hsuccess
        cases hjson : response.json with
        | error e => rw [hjson] at h; contradiction
        | ok body =>
          rw [hjson] at h
          exact ⟨response, body, hresponse, hsuccess, hjson, Except.ok.inj h⟩
      · contradiction
  · rintro ⟨response, body, hresponse, hsuccess, hjson, rfl⟩
    simp only [hresponse, hsuccess, hjson, if_true]
    rfl

/-- Every decision returned is that of a review of the call's own record, answered to this call or
stored less than 30 seconds before. -/
def Reviewed
    (s : State Attributes Text AccessSpec (Attempts AccessResponse) Bool Text) : Prop :=
  ∀ i attrs allowed time, s.calls i = .returned attrs (.ok allowed) time →
    ∃ review ∈ s.reviews, SpecFor attrs review.spec ∧ Decides review.answer allowed ∧
      review.answeredAt ≤ time ∧ (review.caller = i ∨ ∃ storedAt, (storedAt, review) ∈ s.stored ∧
        storedAt ≤ time ∧ time - storedAt < 30 * 10 ^ 9)

theorem reviewed_iff
    {s : State Attributes Text AccessSpec (Attempts AccessResponse) Bool Text} :
    Reviewed s ↔ Sound accessScheme s := by
  have hreview : ∀ (attrs : Attributes) (allowed : Bool)
      (review : Review AccessSpec (Attempts AccessResponse)),
      (SpecFor attrs review.spec ∧ Decides review.answer allowed) ↔
        review.spec = accessScheme.spec attrs ∧ accessScheme.judge review.answer = .ok allowed :=
    fun _ _ _ => and_congr specFor_iff accessReview_eq_ok.symm
  unfold Reviewed Sound Justified
  constructor
  · intro h i attrs allowed time hcall
    obtain ⟨review, hmem, hspec, hdecides, horigin⟩ := h i attrs allowed time hcall
    obtain ⟨hspec, hjudge⟩ := (hreview attrs allowed review).mp ⟨hspec, hdecides⟩
    exact ⟨review, hmem, hspec, hjudge, horigin⟩
  · intro h i attrs allowed time hcall
    obtain ⟨review, hmem, hspec, hjudge, horigin⟩ := h i attrs allowed time hcall
    obtain ⟨hspec, hdecides⟩ := (hreview attrs allowed review).mpr ⟨hspec, hjudge⟩
    exact ⟨review, hmem, hspec, hdecides, horigin⟩

/-- One review serves both records. -/
def SameReview (a b : Attributes) : Prop := ∃ spec, SpecFor a spec ∧ SpecFor b spec

theorem sameReview_iff {a b : Attributes} :
    SameReview a b ↔ accessScheme.spec a = accessScheme.spec b := by
  unfold SameReview
  simp only [specFor_iff, exists_eq_left]
  rfl

/-! ### Records that share a key -/

def allowing : Attempts AccessResponse := fun _ =>
  .ok ⟨201, "201 Created".toList, .ok ⟨some ⟨some true⟩⟩⟩

/-- Every decision returned is the `allowed` bit that the API server gave in a review of the call's
own record, answered to this call or stored less than 30 seconds before, and failing calls leave the
cache alone, in all runs over records in `A`, exactly when records in `A` with the same key have the
same review. -/
theorem authorize_sound_iff (A : Set Attributes) (now : Nat) :
    ((∀ actions, (∀ action ∈ actions, action.Within A) → ∀ s,
        run accessScheme (State.init now) actions = some s → Reviewed s) ∧
      SilentFailures now accessScheme) ↔
    ∀ a ∈ A, ∀ b ∈ A, accessKey a = accessKey b → SameReview a b := by
  have hjudge : accessScheme.judge allowing = .ok true := rfl
  have hiff := sound_iff A now hjudge (by decide)
  simp only [reviewed_iff, sameReview_iff]
  exact ⟨fun h => hiff.mp h.1, fun h => ⟨hiff.mpr h, silentFailures now⟩⟩

def podRecord (name : String) : Attributes where
  user := ⟨"alice".toList, ["dev".toList]⟩
  verb := "get".toList
  namespace_ := "default".toList
  apiGroup := []
  apiVersion := "v1".toList
  resource := "pods".toList
  subresource := []
  name := name.toList
  resourceRequest := true
  path := "/pods".toList

/-- After alice was allowed pod `own`, she is served the same decision for pod `other`, which was
never reviewed. -/
theorem authorize_unsound : ∃ s,
    run accessScheme (State.init 0) [.lookup 0 (podRecord "own"), .answer 0 allowing, .store 0,
      .lookup 1 (podRecord "other")] = some s ∧
    s.calls 1 = .returned (podRecord "other") (.ok true) 0 ∧
    (∀ review ∈ s.reviews, ¬SpecFor (podRecord "other") review.spec) ∧ ¬Reviewed s := by
  have hjudge : accessScheme.judge allowing = .ok true := rfl
  have hkey : accessScheme.key (podRecord "own") = accessScheme.key (podRecord "other") := rfl
  obtain ⟨s, hrun, hcall, hreviews⟩ := run_shared_key 0 hjudge (by decide) hkey
  have hnone : ∀ review ∈ s.reviews, ¬SpecFor (podRecord "other") review.spec := by
    intro review hmem
    rw [hreviews, List.mem_singleton] at hmem
    rw [hmem, specFor_iff]
    decide
  refine ⟨s, hrun, hcall, hnone, fun hreviewed => ?_⟩
  obtain ⟨review, hmem, hspec, -⟩ := hreviewed 1 _ _ _ hcall
  exact hnone review hmem hspec

end KubeRbacProxy
