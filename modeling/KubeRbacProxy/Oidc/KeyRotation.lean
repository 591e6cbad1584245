import KubeRbacProxy.Library.Run
import KubeRbacProxy.Oidc.Acceptance

/-! Signing keys over runs of `authenticateToken`.  Calls share the cached keys; the look at the
cache, the answer of the issuer, the store, and the decoding of the token are separate steps, so the
steps of different calls interleave while the issuer publishes and withdraws keys.  The state keeps
a record of the documents fetched and stored, of the fetches that failed, and of the times tokens
were decoded at, which no step reads. -/

namespace KubeRbacProxy

open Library

/-- The document of signing keys that `answers` serve. -/
def fetchSet (auth : OidcAuthenticator) (answers : Answers) : Except Text JwkSet :=
  let url := auth.issuer ++ "/.well-known/openid-configuration".toList
  match getJson url (answers.discovery url) with
  | .error e => .error e
  | .ok discovery => getJson discovery.jwksUri (answers.keySet discovery.jwksUri)

theorem fetchKeys_eq (lib : Jwt) (auth : OidcAuthenticator) (answers : Answers) :
    fetchKeys lib auth answers = (fetchSet auth answers).map (Jwks.ofSet lib) := by
  simp only [fetchKeys, fetchSet]
  cases getJson _ (answers.discovery _) with
  | error e => rfl
  | ok discovery => rfl

/-- A token whose header names a configured algorithm and a key, read at `startedAt`. -/
structure TokenRead (lib : Jwt) (auth : OidcAuthenticator) where
  token : Text
  header : Jwt.Header
  kid : Text
  startedAt : Nat
  decoded : lib.decodeHeader token = .ok header
  configured : header.alg ∈ auth.algorithms
  keyId : header.kid = some kid

/-- `authenticateToken` up to the look at the keys: the token read, or the result without them. -/
def readToken (lib : Jwt) (auth : OidcAuthenticator) (token : Text) (startedAt : Nat) :
    Except (Except Text (Option Identity)) (TokenRead lib auth) :=
  match hdecoded : lib.decodeHeader token with
  | .error _ => .error (.error "invalid OIDC token header".toList)
  | .ok header =>
    if hconfigured : header.alg ∈ auth.algorithms then
      match hkid : header.kid with
      | none => .error (.error "OIDC token has no key id".toList)
      | some kid => .ok ⟨token, header, kid, startedAt, hdecoded, hconfigured, hkid⟩
    else .error (.ok none)

/-- `authenticateToken` from the keys on. -/
def judgeToken {lib : Jwt} {auth : OidcAuthenticator} (read : TokenRead lib auth) (keys : Jwks lib)
    (decodedAt : Nat) : Except Text (Option Identity) :=
  match keys.get read.kid with
  | none => .ok none
  | some key =>
    match lib.decode read.token key (oidcValidation auth read.header.alg) decodedAt with
    | .error e => .error e
    | .ok claims => (oidcIdentity auth claims).map some

inductive OidcCall (lib : Jwt) (auth : OidcAuthenticator) where
  | idle
  | dismissed (token : Text) (result : Except Text (Option Identity))
  | fetching (read : TokenRead lib auth) (force : Bool)
  | storing (read : TokenRead lib auth) (force : Bool) (set : JwkSet)
  | judging (read : TokenRead lib auth) (keys : Jwks lib)
  | returned (read : TokenRead lib auth) (result : Except Text (Option Identity))

structure OidcState (lib : Jwt) (auth : OidcAuthenticator) where
  now : Nat
  cache : KeyCache lib
  calls : Nat → OidcCall lib auth
  /-- The documents served, with the call that fetched them, newest first. -/
  fetched : List (Nat × JwkSet)
  failed : List (Nat × Text)
  stored : List (Nat × JwkSet)
  decoded : List (Nat × Nat)

inductive OidcAction where
  | tick (time : Nat)
  | begin (call : Nat) (token : Text)
  | answer (call : Nat) (answers : Answers)
  | store (call : Nat)
  | judge (call : Nat) (decodedAt : Nat)

variable {lib : Jwt} {auth : OidcAuthenticator}

def OidcState.init (lib : Jwt) (auth : OidcAuthenticator) (now : Nat) : OidcState lib auth where
  now := now
  cache := none
  calls _ := .idle
  fetched := []
  failed := []
  stored := []
  decoded := []

def OidcState.setCall (s : OidcState lib auth) (i : Nat) (call : OidcCall lib auth) :
    OidcState lib auth :=
  { s with calls := Function.update s.calls i call }

theorem OidcState.setCall_self (s : OidcState lib auth) (i : Nat) (call : OidcCall lib auth) :
    (s.setCall i call).calls i = call := Function.update_self ..

theorem OidcState.setCall_other (s : OidcState lib auth) {i j : Nat} (h : j ≠ i)
    (call : OidcCall lib auth) : (s.setCall i call).calls j = s.calls j :=
  Function.update_of_ne h ..

def oidcStep (s : OidcState lib auth) : OidcAction → Option (OidcState lib auth)
  | .tick time => some { s with now := s.now + time }
  | .begin i token =>
    match s.calls i with
    | .idle =>
      match readToken lib auth token s.now with
      | .error result => some (s.setCall i (.dismissed token result))
      | .ok read =>
        match s.cache.fresh s.now with
        | none => some (s.setCall i (.fetching read false))
        | some keys =>
          if keys.containsKey read.kid then some (s.setCall i (.judging read keys))
          else some (s.setCall i (.fetching read true))
    | _ => none
  | .answer i answers =>
    match s.calls i with
    | .fetching read force =>
      match fetchSet auth answers with
      | .error e => some { s.setCall i (.returned read (.error e)) with
          failed := (i, e) :: s.failed }
      | .ok set => some { s.setCall i (.storing read force set) with
          fetched := (i, set) :: s.fetched }
    | _ => none
  | .store i =>
    match s.calls i with
    | .storing read force set =>
      let keys := Jwks.ofSet lib set
      let call : OidcCall lib auth :=
        if force ∨ keys.containsKey read.kid then .judging read keys else .fetching read true
      some { s.setCall i call with
        cache := some (s.now, keys), stored := (s.now, set) :: s.stored }
    | _ => none
  | .judge i decodedAt =>
    match s.calls i with
    | .judging read keys => some { s.setCall i (.returned read (judgeToken read keys decodedAt))
        with decoded := (i, decodedAt) :: s.decoded }
    | _ => none

abbrev oidcRun (s : OidcState lib auth) (actions : List OidcAction) :
    Option (OidcState lib auth) :=
  runFrom oidcStep s actions

/-! ### What each step does -/

inductive OidcMoves (s : OidcState lib auth) : OidcState lib auth → Prop
  | tick (time : Nat) : OidcMoves s { s with now := s.now + time }
  | dismiss {i : Nat} {token : Text} {result : Except Text (Option Identity)}
      (hcall : s.calls i = .idle) (hread : readToken lib auth token s.now = .error result) :
      OidcMoves s (s.setCall i (.dismissed token result))
  | hit {i : Nat} {token : Text} {read : TokenRead lib auth} {keys : Jwks lib}
      (hcall : s.calls i = .idle) (hread : readToken lib auth token s.now = .ok read)
      (hfresh : s.cache.fresh s.now = some keys) : OidcMoves s (s.setCall i (.judging read keys))
  | miss {i : Nat} {token : Text} {read : TokenRead lib auth} {force : Bool}
      (hcall : s.calls i = .idle) (hread : readToken lib auth token s.now = .ok read) :
      OidcMoves s (s.setCall i (.fetching read force))
  | fail {i : Nat} {read : TokenRead lib auth} {force : Bool} {e : Text}
      (hcall : s.calls i = .fetching read force) :
      OidcMoves s { s.setCall i (.returned read (.error e)) with failed := (i, e) :: s.failed }
  | serve {i : Nat} {read : TokenRead lib auth} {force : Bool} (set : JwkSet)
      (hcall : s.calls i = .fetching read force) :
      OidcMoves s { s.setCall i (.storing read force set) with fetched := (i, set) :: s.fetched }
  | store {i : Nat} {read : TokenRead lib auth} {force : Bool} {set : JwkSet}
      {call : OidcCall lib auth} (hcall : s.calls i = .storing read force set)
      (hnext : call = .judging read (Jwks.ofSet lib set) ∨ call = .fetching read true) :
      OidcMoves s { s.setCall i call with
        cache := some (s.now, Jwks.ofSet lib set), stored := (s.now, set) :: s.stored }
  | judge {i : Nat} {read : TokenRead lib auth} {keys : Jwks lib} (decodedAt : Nat)
      (hcall : s.calls i = .judging read keys) :
      OidcMoves s { s.setCall i (.returned read (judgeToken read keys decodedAt)) with
        decoded := (i, decodedAt) :: s.decoded }

variable {s s' : OidcState lib auth}

theorem oidcStep_moves {action : OidcAction} (h : oidcStep s action = some s') :
    OidcMoves s s' := by
  cases action with
  | tick time =>
    obtain rfl := Option.some.inj h
    exact .tick time
  | begin i token =>
    simp only [oidcStep] at h
    split at h
    · rename_i hcall
      split at h
      · rename_i result hread
        obtain rfl := Option.some.inj h
        exact .dismiss hcall hread
      · rename_i read hread
        split at h
        · obtain rfl := Option.some.inj h
          exact .miss hcall hread
        · rename_i keys hfresh
          split at h
          · obtain rfl := Option.some.inj h
            exact .hit hcall hread hfresh
          · obtain rfl := Option.some.inj h
            exact .miss hcall hread
    · contradiction
  | answer i answers =>
    simp only [oidcStep] at h
    split at h
    · rename_i read force hcall
      split at h
      · obtain rfl := Option.some.inj h
        exact .fail hcall
      · rename_i set _
        obtain rfl := Option.some.inj h
        exact .serve set hcall
    · contradiction
  | store i =>
    simp only [oidcStep] at h
    split at h
    · rename_i read force set hcall
      obtain rfl := Option.some.inj h
      refine .store hcall ?_
      split
      · exact Or.inl rfl
      · exact Or.inr rfl
    · contradiction
  | judge i decodedAt =>
    simp only [oidcStep] at h
    split at h
    · rename_i read keys hcall
      obtain rfl := Option.some.inj h
      exact .judge decodedAt hcall
    · contradiction

/-- What every step preserves is preserved by a run. -/
theorem oidcRun_induction {Q : OidcState lib auth → Prop}
    (hmoves : ∀ {s s'}, Q s → OidcMoves s s' → Q s') (h : Q s) {actions : List OidcAction}
    (hrun : oidcRun s actions = some s') : Q s' :=
  runFrom_invariant (fun hQ hstep => hmoves hQ (oidcStep_moves hstep)) h hrun

/-! ### A call alone -/

theorem readToken_undecoded {token : Text} {e : Text} (h : lib.decodeHeader token = .error e)
    (startedAt : Nat) : readToken lib auth token startedAt =
      .error (.error "invalid OIDC token header".toList) := by
  unfold readToken
  split
  · rfl
  · rename_i header hdecoded
    rw [h] at hdecoded
    contradiction

theorem readToken_decoded {token : Text} {header : Jwt.Header}
    (h : lib.decodeHeader token = .ok header) (startedAt : Nat) :
    (header.alg ∉ auth.algorithms ∧ readToken lib auth token startedAt = .error (.ok none)) ∨
    (header.alg ∈ auth.algorithms ∧ header.kid = none ∧
      readToken lib auth token startedAt = .error (.error "OIDC token has no key id".toList)) ∨
    ∃ read : TokenRead lib auth, header.alg ∈ auth.algorithms ∧ read.token = token ∧
      read.header = header ∧ readToken lib auth token startedAt = .ok read := by
  unfold readToken
  split
  · rename_i e hdecoded
    rw [h] at hdecoded
    contradiction
  · rename_i header' hdecoded
    obtain rfl := Except.ok.inj (h.symm.trans hdecoded)
    split
    · rename_i halg
      split
      · rename_i hkid
        exact Or.inr (Or.inl ⟨halg, hkid, rfl⟩)
      · exact Or.inr (Or.inr ⟨_, halg, rfl, rfl, rfl⟩)
    · rename_i halg
      exact Or.inl ⟨halg, rfl⟩

theorem authenticateToken_eq (cache : KeyCache lib) (call : TokenCall) (token : Text) :
    authenticateToken lib auth cache call token =
      match readToken lib auth token call.now with
      | .error result => (result, cache)
      | .ok read =>
        match signingKeys lib auth cache call read.kid with
        | (.error e, cache) => (.error e, cache)
        | (.ok keys, cache) => (judgeToken read keys call.decodedAt, cache) := by
  unfold authenticateToken
  cases hdecoded : lib.decodeHeader token with
  | error e =>
    rw [readToken_undecoded hdecoded]
  | ok header =>
    obtain ⟨halg, hread⟩ | ⟨halg, hkid, hread⟩ | ⟨read, halg, htoken, hheader, hread⟩ :=
      @readToken_decoded lib auth token header hdecoded call.now
    · rw [hread]
      simp only [halg, not_false_eq_true, if_true]
    · rw [hread]
      simp only [halg, hkid, not_true_eq_false, if_false]
    · rw [hread]
      subst htoken hheader
      simp only [halg, read.keyId, not_true_eq_false, if_false]
      unfold judgeToken
      rcases signingKeys lib auth cache call read.kid with ⟨_ | keys, cache'⟩
      · rfl
      · dsimp only
        cases keys.get read.kid with
        | none => rfl
        | some key =>
          dsimp only
          cases lib.decode read.token key (oidcValidation auth read.header.alg) call.decodedAt with
          | error e => rfl
          | ok claims => rfl

theorem jwks_fresh {cache : KeyCache lib} {now : Nat} {keys : Jwks lib}
    (h : cache.fresh now = some keys) (answers : Answers) (later : Nat) :
    jwks lib auth false cache now answers later = (.ok keys, cache) := by
  simp only [jwks, h, Bool.false_eq_true, if_false]

theorem jwks_stale {cache : KeyCache lib} {now : Nat} (h : cache.fresh now = none)
    (answers : Answers) (later : Nat) :
    jwks lib auth false cache now answers later = jwks lib auth true cache now answers later := by
  simp only [jwks, h, Bool.false_eq_true, if_false, if_true]

theorem jwks_forced_error {answers : Answers} {e : Text}
    (h : fetchKeys lib auth answers = .error e) (cache : KeyCache lib) (now later : Nat) :
    jwks lib auth true cache now answers later = (.error e, cache) := by
  simp only [jwks, h, if_true]

theorem jwks_forced_ok {answers : Answers} {keys : Jwks lib}
    (h : fetchKeys lib auth answers = .ok keys) (cache : KeyCache lib) (now later : Nat) :
    jwks lib auth true cache now answers later = (.ok keys, some (later, keys)) := by
  simp only [jwks, h, if_true]

/-- The result of a call that has returned. -/
def OidcCall.result : OidcCall lib auth → Option (Except Text (Option Identity))
  | .dismissed _ result | .returned _ result => some result
  | _ => none

/-- From `s`, some run ends with this result of call `i` and this cache. -/
def Ends (s : OidcState lib auth) (i : Nat)
    (outcome : Except Text (Option Identity) × KeyCache lib) : Prop :=
  ∃ actions s', oidcRun s actions = some s' ∧ (s'.calls i).result = some outcome.1 ∧
    s'.cache = outcome.2

theorem Ends.step {i : Nat} {outcome : Except Text (Option Identity) × KeyCache lib}
    {action : OidcAction} (hstep : oidcStep s action = some s') (h : Ends s' i outcome) :
    Ends s i outcome := by
  obtain ⟨actions, s'', hrun, hend⟩ := h
  refine ⟨action :: actions, s'', ?_, hend⟩
  rw [oidcRun, runFrom, hstep, Option.bind_some]
  exact hrun

theorem ends_of_result {i : Nat} {result : Except Text (Option Identity)}
    (h : (s.calls i).result = some result) : Ends s i (result, s.cache) :=
  ⟨[], s, rfl, h, rfl⟩

theorem ends_judging {i : Nat} {read : TokenRead lib auth} {keys : Jwks lib}
    (h : s.calls i = .judging read keys) (decodedAt : Nat) :
    Ends s i (judgeToken read keys decodedAt, s.cache) := by
  have hstep : oidcStep s (.judge i decodedAt) =
      some { s.setCall i (.returned read (judgeToken read keys decodedAt)) with
        decoded := (i, decodedAt) :: s.decoded } := by
    simp only [oidcStep, h]
  refine Ends.step hstep (ends_of_result ?_)
  show ((s.setCall i _).calls i).result = _
  rw [s.setCall_self]
  rfl

theorem ends_storing {i : Nat} {read : TokenRead lib auth} {force : Bool} {set : JwkSet}
    (h : s.calls i = .storing read force set)
    {outcome : Except Text (Option Identity) × KeyCache lib}
    (hstored : ∀ s', s'.calls i = (if force ∨ (Jwks.ofSet lib set).containsKey read.kid then
      .judging read (Jwks.ofSet lib set) else .fetching read true) →
      s'.now = s.now → s'.cache = some (s.now, Jwks.ofSet lib set) → Ends s' i outcome) :
    Ends s i outcome := by
  cases hstep : oidcStep s (.store i) with
  | none => simp [oidcStep, h] at hstep
  | some s' =>
    apply Ends.step hstep
    simp only [oidcStep, h, Option.some.injEq] at hstep
    subst hstep
    exact hstored _ (s.setCall_self i _) rfl rfl

/-- A fetch that is answered with `answers` and stored after `time`. -/
theorem ends_fetching {i : Nat} {read : TokenRead lib auth} {force : Bool}
    (h : s.calls i = .fetching read force) (answers : Answers) (time : Nat)
    {outcome : Except Text (Option Identity) × KeyCache lib}
    (hfail : ∀ e, fetchKeys lib auth answers = .error e → outcome = (.error e, s.cache))
    (hserve : ∀ keys s', fetchKeys lib auth answers = .ok keys →
      s'.calls i = (if force ∨ keys.containsKey read.kid then .judging read keys
        else .fetching read true) → s'.now = s.now + time →
      s'.cache = some (s.now + time, keys) → Ends s' i outcome) : Ends s i outcome := by
  rw [fetchKeys_eq] at hfail hserve
  cases hfetch : fetchSet auth answers with
  | error e =>
    have hstep : oidcStep s (.answer i answers) = some { s.setCall i (.returned read (.error e))
        with failed := (i, e) :: s.failed } := by
      simp only [oidcStep, h, hfetch]
    rw [hfail e (by rw [hfetch]; rfl)]
    refine Ends.step hstep (ends_of_result ?_)
    show ((s.setCall i _).calls i).result = _
    rw [s.setCall_self]
    rfl
  | ok set =>
    have hstep : oidcStep s (.answer i answers) = some { s.setCall i (.storing read force set)
        with fetched := (i, set) :: s.fetched } := by
      simp only [oidcStep, h, hfetch]
    refine Ends.step hstep (@Ends.step _ _ _ _ _ _ (.tick time) rfl ?_)
    apply @ends_storing lib auth _ i read force set
    · exact Function.update_self ..
    · intro s' hcall hnow hcache
      exact hserve _ s' (by rw [hfetch]; rfl) hcall hnow hcache

/-- A forced fetch: its keys judge the token. -/
theorem ends_forced {i : Nat} {read : TokenRead lib auth} (h : s.calls i = .fetching read true)
    (answers : Answers) (time decodedAt : Nat) :
    Ends s i (match jwks lib auth true s.cache s.now answers (s.now + time) with
      | (.error e, cache) => (.error e, cache)
      | (.ok keys, cache) => (judgeToken read keys decodedAt, cache)) := by
  apply ends_fetching h answers time
  · intro e hfetch
    rw [jwks_forced_error hfetch]
  · intro keys s' hfetch hcall _ hcache
    simp only [true_or, if_true] at hcall
    rw [jwks_forced_ok hfetch, ← hcache]
    exact ends_judging hcall decodedAt

/-- `authenticateToken` is a call with no other call's steps between its own. -/
theorem authenticateToken_run {i : Nat} (hidle : s.calls i = .idle) (token : Text)
    (first second : Answers) (firstTime secondTime decodedAt : Nat) :
    Ends s i (authenticateToken lib auth s.cache ⟨s.now, first, s.now + firstTime, second,
      s.now + firstTime + secondTime, decodedAt⟩ token) := by
  rw [authenticateToken_eq]
  cases hread : readToken lib auth token s.now with
  | error result =>
    have hstep : oidcStep s (.begin i token) = some (s.setCall i (.dismissed token result)) := by
      simp only [oidcStep, hidle, hread]
    refine Ends.step hstep (ends_of_result ?_)
    rw [s.setCall_self]
    rfl
  | ok read =>
    dsimp only
    cases hfresh : s.cache.fresh s.now with
    | some keys =>
      simp only [signingKeys, jwks_fresh hfresh]
      cases hkid : keys.containsKey read.kid with
      | true =>
        have hstep : oidcStep s (.begin i token) = some (s.setCall i (.judging read keys)) := by
          simp only [oidcStep, hidle, hread, hfresh, hkid, if_true]
        exact Ends.step hstep (ends_judging (s.setCall_self i _) decodedAt)
      | false =>
        have hstep : oidcStep s (.begin i token) = some (s.setCall i (.fetching read true)) := by
          simp only [oidcStep, hidle, hread, hfresh, hkid, Bool.false_eq_true, if_false]
        rw [Nat.add_assoc]
        exact Ends.step hstep
          (ends_forced (s.setCall_self i _) second (firstTime + secondTime) decodedAt)
    | none =>
      have hstep : oidcStep s (.begin i token) = some (s.setCall i (.fetching read false)) := by
        simp only [oidcStep, hidle, hread, hfresh]
      refine Ends.step hstep (ends_fetching (s.setCall_self i _) first firstTime ?_ ?_)
      · intro e hfetch
        simp only [signingKeys, jwks_stale hfresh, jwks_forced_error hfetch]
        rfl
      · intro keys s' hfetch hcall (hnow : s'.now = s.now + firstTime)
          (hcache : s'.cache = some (s.now + firstTime, keys))
        simp only [signingKeys, jwks_stale hfresh, jwks_forced_ok hfetch]
        cases hkid : keys.containsKey read.kid with
        | true =>
          simp only [hkid, or_true, if_true] at hcall
          simp only [if_true]
          rw [← hcache]
          exact ends_judging hcall decodedAt
        | false =>
          simp only [hkid, Bool.false_eq_true, or_self, if_false] at hcall
          simp only [Bool.false_eq_true, if_false]
          have hforced := ends_forced hcall second secondTime decodedAt
          rw [hnow, hcache] at hforced
          exact hforced

/-! ### The keys that tokens are accepted under -/

/-- The document lists a well-formed RSA key of this id, which `key` is made from. -/
def Listed (lib : Jwt) (set : JwkSet) (kid : Text) (key : lib.Key) : Prop :=
  ∃ jwk ∈ set.keys, jwk.kty = "RSA".toList ∧ jwk.kid = some kid ∧
    ∃ n e, jwk.n = some n ∧ jwk.e = some e ∧ lib.fromRsaComponents n e = some key

/-- Call `i` fetched the document itself, or it was stored less than an hour before the call looked
at the cache. -/
def Source (s : OidcState lib auth) (i : Nat) (read : TokenRead lib auth) (set : JwkSet) : Prop :=
  (i, set) ∈ s.fetched ∨ ∃ storedAt, (storedAt, set) ∈ s.stored ∧ storedAt ≤ read.startedAt ∧
    read.startedAt - storedAt < keysTtl

/-- Call `i` decoded the token to this identity under a key that a document listed for it. -/
def AcceptedBy (s : OidcState lib auth) (i : Nat) (read : TokenRead lib auth)
    (identity : Identity) : Prop :=
  ∃ set key decodedAt claims, Source s i read set ∧ Listed lib set read.kid key ∧
    (i, decodedAt) ∈ s.decoded ∧
    lib.decode read.token key (oidcValidation auth read.header.alg) decodedAt = .ok claims ∧
    oidcIdentity auth claims = .ok identity

theorem get_listed {set : JwkSet} {kid : Text} {key : lib.Key}
    (h : (Jwks.ofSet lib set).get kid = some key) : Listed lib set kid key := by
  obtain ⟨jwk, hjwk, hdecoding⟩ := List.mem_filterMap.mp (Jwks.get_mem h)
  exact ⟨jwk, hjwk, decodingKey_eq_some.mp hdecoding⟩

/-- The keys accept the token: one of its id decodes it to claims that name this identity. -/
def Accepts (keys : Jwks lib) (read : TokenRead lib auth) (decodedAt : Nat)
    (identity : Identity) : Prop :=
  ∃ key claims, keys.get read.kid = some key ∧
    lib.decode read.token key (oidcValidation auth read.header.alg) decodedAt = .ok claims ∧
    oidcIdentity auth claims = .ok identity

theorem judgeToken_eq_some {read : TokenRead lib auth} {keys : Jwks lib} {decodedAt : Nat}
    {identity : Identity} :
    judgeToken read keys decodedAt = .ok (some identity) ↔
      Accepts keys read decodedAt identity := by
  constructor
  · intro h
    unfold judgeToken at h
    split at h
    · simp at h
    · rename_i key hkey
      split at h
      · contradiction
      · rename_i claims hclaims
        refine ⟨key, claims, hkey, hclaims, ?_⟩
        cases hidentity : oidcIdentity auth claims with
        | error e => simp [hidentity, Except.map] at h
        | ok found => simpa [hidentity, Except.map] using h
  · rintro ⟨key, claims, hkey, hclaims, hidentity⟩
    simp only [judgeToken, hkey, hclaims, hidentity]
    rfl

theorem readToken_not_accepted {token : Text} {now : Nat}
    {result : Except Text (Option Identity)} (h : readToken lib auth token now = .error result)
    (identity : Identity) : result ≠ .ok (some identity) := by
  unfold readToken at h
  split at h
  · obtain rfl := Except.error.inj h
    simp
  · split at h
    · split at h
      · obtain rfl := Except.error.inj h
        simp
      · contradiction
    · obtain rfl := Except.error.inj h
      simp

theorem readToken_ok {token : Text} {now : Nat} {read : TokenRead lib auth}
    (h : readToken lib auth token now = .ok read) : read.token = token ∧ read.startedAt = now := by
  unfold readToken at h
  split at h
  · contradiction
  · split at h
    · split at h
      · contradiction
      · obtain rfl := Except.ok.inj h
        exact ⟨rfl, rfl⟩
    · contradiction

/-- What holds of call `i` after every run. -/
def CallSound (s : OidcState lib auth) (i : Nat) : OidcCall lib auth → Prop
  | .idle | .fetching _ _ => True
  | .dismissed _ result => ∀ identity, result ≠ .ok (some identity)
  | .storing _ _ set => (i, set) ∈ s.fetched
  | .judging read keys => ∃ set, keys = Jwks.ofSet lib set ∧ Source s i read set
  | .returned read result => ∀ identity, result = .ok (some identity) → AcceptedBy s i read identity

/-- The cached keys are those of a document in the record, and every call is sound. -/
structure KeysInv (s : OidcState lib auth) : Prop where
  cache : ∀ storedAt keys, s.cache = some (storedAt, keys) →
    ∃ set, keys = Jwks.ofSet lib set ∧ (storedAt, set) ∈ s.stored ∧ storedAt ≤ s.now
  calls : ∀ i, CallSound s i (s.calls i)

theorem Source.mono {i : Nat} {read : TokenRead lib auth} {set : JwkSet} (h : Source s i read set)
    (hfetched : s.fetched ⊆ s'.fetched) (hstored : s.stored ⊆ s'.stored) :
    Source s' i read set :=
  h.imp (fun hmem => hfetched hmem) fun ⟨storedAt, hmem, hage⟩ => ⟨storedAt, hstored hmem, hage⟩

theorem CallSound.mono {i : Nat} {call : OidcCall lib auth} (h : CallSound s i call)
    (hfetched : s.fetched ⊆ s'.fetched) (hstored : s.stored ⊆ s'.stored)
    (hdecoded : s.decoded ⊆ s'.decoded) : CallSound s' i call := by
  cases call with
  | idle | fetching read force => trivial
  | dismissed token result => exact h
  | storing read force set => exact hfetched h
  | judging read keys =>
    obtain ⟨set, hkeys, hsource⟩ := h
    exact ⟨set, hkeys, hsource.mono hfetched hstored⟩
  | returned read result =>
    intro identity hresult
    obtain ⟨set, key, decodedAt, claims, hsource, hlisted, hmem, haccepted⟩ := h identity hresult
    exact ⟨set, key, decodedAt, claims, hsource.mono hfetched hstored, hlisted, hdecoded hmem,
      haccepted⟩

/-- A step that moves call `i` keeps the other calls sound. -/
theorem KeysInv.calls_update {i : Nat} {call : OidcCall lib auth} (h : KeysInv s)
    (hfetched : s.fetched ⊆ s'.fetched) (hstored : s.stored ⊆ s'.stored)
    (hdecoded : s.decoded ⊆ s'.decoded) (hcalls : s'.calls = Function.update s.calls i call)
    (hcall : CallSound s' i call) :
    ∀ j, CallSound s' j (s'.calls j) := by
  intro j
  rw [hcalls]
  by_cases hj : j = i
  · subst hj
    rwa [Function.update_self]
  · rw [Function.update_of_ne hj]
    exact (h.calls j).mono hfetched hstored hdecoded

theorem KeyCache.fresh_some {cache : KeyCache lib} {now : Nat} {keys : Jwks lib}
    (h : cache.fresh now = some keys) :
    ∃ storedAt, cache = some (storedAt, keys) ∧ now - storedAt < keysTtl := by
  unfold KeyCache.fresh at h
  split at h
  · rename_i storedAt found
    split at h
    · rename_i hage
      exact ⟨storedAt, by rw [Option.some.inj h], hage⟩
    · contradiction
  · contradiction

theorem KeysInv.init (now : Nat) : KeysInv (OidcState.init lib auth now) :=
  ⟨nofun, fun _ => trivial⟩

theorem oidcMoves_inv (h : KeysInv s) (hmoves : OidcMoves s s') : KeysInv s' := by
  have same : ∀ {i : Nat} {call : OidcCall lib auth}, CallSound s i call →
      KeysInv (s.setCall i call) := fun hcall =>
    ⟨h.cache, h.calls_update (List.Subset.refl _) (List.Subset.refl _) (List.Subset.refl _) rfl
      hcall⟩
  cases hmoves with
  | tick time =>
    refine ⟨fun storedAt keys hcache => ?_, fun i =>
      (h.calls i).mono (List.Subset.refl _) (List.Subset.refl _) (List.Subset.refl _)⟩
    obtain ⟨set, hkeys, hstored, hle⟩ := h.cache storedAt keys hcache
    exact ⟨set, hkeys, hstored, hle.trans (Nat.le_add_right _ _)⟩
  | dismiss hcall hread => exact same (readToken_not_accepted hread)
  | hit hcall hread hfresh =>
    obtain ⟨storedAt, hcache, hage⟩ := KeyCache.fresh_some hfresh
    obtain ⟨set, hkeys, hstored, hle⟩ := h.cache storedAt _ hcache
    rw [← (readToken_ok hread).2] at hage hle
    exact same ⟨set, hkeys, Or.inr ⟨storedAt, hstored, hle, hage⟩⟩
  | miss hcall hread => exact same trivial
  | fail hcall =>
    exact ⟨h.cache, h.calls_update (List.Subset.refl _) (List.Subset.refl _) (List.Subset.refl _)
      rfl nofun⟩
  | serve set hcall =>
    exact ⟨h.cache, h.calls_update (List.subset_cons_self _ _) (List.Subset.refl _)
      (List.Subset.refl _) rfl List.mem_cons_self⟩
  | @store i read force set call hcall hnext =>
    refine ⟨fun storedAt keys hcache => ?_, h.calls_update (List.Subset.refl _)
      (List.subset_cons_self _ _) (List.Subset.refl _) rfl ?_⟩
    · obtain ⟨rfl, rfl⟩ := Prod.mk.inj (Option.some.inj hcache)
      exact ⟨set, rfl, List.mem_cons_self, le_rfl⟩
    · have hfetched : CallSound s i (s.calls i) := h.calls i
      rw [hcall] at hfetched
      rcases hnext with rfl | rfl
      · exact ⟨set, rfl, Or.inl hfetched⟩
      · trivial
  | @judge i read keys decodedAt hcall =>
    have hsound : CallSound s i (s.calls i) := h.calls i
    rw [hcall] at hsound
    obtain ⟨set, rfl, hsource⟩ := hsound
    refine ⟨h.cache, h.calls_update (List.Subset.refl _) (List.Subset.refl _)
      (List.subset_cons_self _ _) rfl fun identity hresult => ?_⟩
    obtain ⟨key, claims, hkey, hclaims, hidentity⟩ := judgeToken_eq_some.mp hresult
    exact ⟨set, key, decodedAt, claims, hsource, get_listed hkey, List.mem_cons_self, hclaims,
      hidentity⟩

theorem oidcRun_inv (h : KeysInv s) {actions : List OidcAction}
    (hrun : oidcRun s actions = some s') : KeysInv s' :=
  oidcRun_induction oidcMoves_inv h hrun

/-! ### Tokens whose key is not cached -/

def LastFetched (s : OidcState lib auth) (i : Nat) (set : JwkSet) : Prop :=
  s.fetched.find? (·.1 = i) = some (i, set)

/-- Call `i` fetches for the token, and is judged by the document that it fetched last, or has
failed to fetch one. -/
def Refetches (s : OidcState lib auth) (i : Nat) (read : TokenRead lib auth) :
    OidcCall lib auth → Prop
  | .fetching read' _ => read' = read
  | .storing read' _ set => read' = read ∧ LastFetched s i set
  | .judging read' keys => read' = read ∧ ∃ set, keys = Jwks.ofSet lib set ∧ LastFetched s i set
  | .returned read' result => read' = read ∧ ((∃ e, (i, e) ∈ s.failed ∧ result = .error e) ∨
      ∃ set decodedAt, LastFetched s i set ∧ (i, decodedAt) ∈ s.decoded ∧
        result = judgeToken read (Jwks.ofSet lib set) decodedAt)
  | .idle | .dismissed _ _ => False

theorem Refetches.mono {i : Nat} {read : TokenRead lib auth} {call : OidcCall lib auth}
    (h : Refetches s i read call)
    (hfetched : s'.fetched.find? (·.1 = i) = s.fetched.find? (·.1 = i))
    (hfailed : s.failed ⊆ s'.failed) (hdecoded : s.decoded ⊆ s'.decoded) :
    Refetches s' i read call := by
  have hlast : ∀ {set}, LastFetched s i set → LastFetched s' i set := fun hset =>
    hfetched.trans hset
  cases call with
  | idle | dismissed token result => exact h
  | fetching read' force => exact h
  | storing read' force set => exact ⟨h.1, hlast h.2⟩
  | judging read' keys =>
    obtain ⟨hread, set, hkeys, hset⟩ := h
    exact ⟨hread, set, hkeys, hlast hset⟩
  | returned read' result =>
    obtain ⟨hread, ⟨e, hmem, hresult⟩ | ⟨set, decodedAt, hset, hmem, hresult⟩⟩ := h
    · exact ⟨hread, Or.inl ⟨e, hfailed hmem, hresult⟩⟩
    · exact ⟨hread, Or.inr ⟨set, decodedAt, hlast hset, hdecoded hmem, hresult⟩⟩

/-- A step that moves another call leaves call `i` as it was. -/
theorem Refetches.other {i j : Nat} {read : TokenRead lib auth} {call : OidcCall lib auth}
    (h : Refetches s i read (s.calls i)) (hij : i ≠ j)
    (hcalls : s'.calls = Function.update s.calls j call)
    (hfetched : s'.fetched.find? (·.1 = i) = s.fetched.find? (·.1 = i))
    (hfailed : s.failed ⊆ s'.failed) (hdecoded : s.decoded ⊆ s'.decoded) :
    Refetches s' i read (s'.calls i) := by
  rw [hcalls, Function.update_of_ne hij]
  exact h.mono hfetched hfailed hdecoded

/-- The call that a step moves is judged by what the step makes of it. -/
theorem Refetches.self {i : Nat} {read : TokenRead lib auth} {call : OidcCall lib auth}
    (hcalls : s'.calls = Function.update s.calls i call) (h : Refetches s' i read call) :
    Refetches s' i read (s'.calls i) := by
  rw [hcalls, Function.update_self]
  exact h

theorem oidcMoves_refetches {i : Nat} {read : TokenRead lib auth}
    (h : Refetches s i read (s.calls i)) (hmoves : OidcMoves s s') :
    Refetches s' i read (s'.calls i) := by
  have busy : ∀ {j}, s.calls j = .idle → i ≠ j := by
    rintro j hidle rfl
    rw [hidle] at h
    exact h
  cases hmoves with
  | tick time => exact h.mono rfl (List.Subset.refl _) (List.Subset.refl _)
  | @dismiss j token result hcall hread =>
    exact h.other (busy hcall) rfl rfl (List.Subset.refl _) (List.Subset.refl _)
  | @hit j token read' keys hcall hread hfresh =>
    exact h.other (busy hcall) rfl rfl (List.Subset.refl _) (List.Subset.refl _)
  | @miss j token read' force hcall hread =>
    exact h.other (busy hcall) rfl rfl (List.Subset.refl _) (List.Subset.refl _)
  | @fail j read' force e hcall =>
    by_cases hij : i = j
    · subst hij
      rw [hcall] at h
      obtain rfl := h
      apply Refetches.self rfl
      exact ⟨rfl, Or.inl ⟨e, List.mem_cons_self, rfl⟩⟩
    · exact h.other hij rfl rfl (List.subset_cons_self _ _) (List.Subset.refl _)
  | @serve j read' force set hcall =>
    by_cases hij : i = j
    · subst hij
      rw [hcall] at h
      obtain rfl := h
      apply Refetches.self rfl
      exact ⟨rfl, List.find?_cons_of_pos (by simp)⟩
    · exact h.other hij rfl (List.find?_cons_of_neg (by simpa using Ne.symm hij))
        (List.Subset.refl _) (List.Subset.refl _)
  | @store j read' force set call hcall hnext =>
    by_cases hij : i = j
    · subst hij
      rw [hcall] at h
      obtain ⟨rfl, hlast⟩ := h
      apply Refetches.self rfl
      rcases hnext with rfl | rfl
      · exact ⟨rfl, set, rfl, hlast⟩
      · exact rfl
    · exact h.other hij rfl rfl (List.Subset.refl _) (List.Subset.refl _)
  | @judge j read' keys decodedAt hcall =>
    by_cases hij : i = j
    · subst hij
      rw [hcall] at h
      obtain ⟨rfl, set, rfl, hlast⟩ := h
      apply Refetches.self rfl
      exact ⟨rfl, Or.inr ⟨set, decodedAt, hlast, List.mem_cons_self, rfl⟩⟩
    · exact h.other hij rfl rfl (List.Subset.refl _) (List.subset_cons_self _ _)

theorem oidcRun_refetches {i : Nat} {read : TokenRead lib auth}
    (h : Refetches s i read (s.calls i)) {actions : List OidcAction}
    (hrun : oidcRun s actions = some s') : Refetches s' i read (s'.calls i) :=
  oidcRun_induction (Q := fun s => Refetches s i read (s.calls i)) oidcMoves_refetches h hrun

/-- A call for a token whose key is not among fresh cached keys goes on to fetch. -/
theorem oidcStep_begin_missing {i : Nat} {token : Text} {read : TokenRead lib auth}
    (h : oidcStep s (.begin i token) = some s') (hread : readToken lib auth token s.now = .ok read)
    (hmissing : ∀ keys, s.cache.fresh s.now = some keys → keys.containsKey read.kid = false) :
    ∃ force, s'.calls i = .fetching read force := by
  simp only [oidcStep, hread] at h
  split at h
  · split at h
    · obtain rfl := Option.some.inj h
      exact ⟨false, s.setCall_self i _⟩
    · rename_i keys hfresh
      simp only [hmissing keys hfresh, Bool.false_eq_true, if_false, Option.some.injEq] at h
      subst h
      exact ⟨true, s.setCall_self i _⟩
  · contradiction

theorem oidcStep_answer_error {i : Nat} {answers : Answers} {e : Text}
    (h : oidcStep s (.answer i answers) = some s') (hfetch : fetchSet auth answers = .error e) :
    (∃ read, s'.calls i = .returned read (.error e)) ∧ s'.cache = s.cache := by
  simp only [oidcStep, hfetch] at h
  split at h
  · rename_i read force _
    obtain rfl := Option.some.inj h
    exact ⟨⟨read, s.setCall_self i _⟩, rfl⟩
  · contradiction

/-- In every run, a token is accepted only under a well-formed RSA key that is listed for it in a
document fetched by its own call or stored less than an hour before the call looked at the cache.  A
call for a token whose key is not cached fetches, and its result is that of the document it fetched
last, which accepts the token or does not whatever is cached, or the error of a fetch.  A fetch that
fails is the error of its call and leaves the cached keys and their time alone. -/
theorem authenticateToken_keys (lib : Jwt) (auth : OidcAuthenticator) (now : Nat) :
    (∀ actions s, oidcRun (OidcState.init lib auth now) actions = some s → ∀ i,
      (∀ read identity, s.calls i = .returned read (.ok (some identity)) →
        AcceptedBy s i read identity) ∧
      ∀ token identity, s.calls i ≠ .dismissed token (.ok (some identity))) ∧
    (∀ before s s1 i token (read : TokenRead lib auth),
      oidcRun (OidcState.init lib auth now) before = some s →
      oidcStep s (.begin i token) = some s1 → readToken lib auth token s.now = .ok read →
      (∀ keys, s.cache.fresh s.now = some keys → keys.containsKey read.kid = false) →
      (∃ force, s1.calls i = .fetching read force) ∧
      ∀ after s2 read' result, oidcRun s1 after = some s2 → s2.calls i = .returned read' result →
        read' = read ∧ ((∃ e, (i, e) ∈ s2.failed ∧ result = .error e) ∨
          ∃ set decodedAt, LastFetched s2 i set ∧ (i, decodedAt) ∈ s2.decoded ∧
            result = judgeToken read (Jwks.ofSet lib set) decodedAt ∧
            ∀ identity, result = .ok (some identity) ↔
              Accepts (Jwks.ofSet lib set) read decodedAt identity)) ∧
    (∀ (s s' : OidcState lib auth) i answers e, oidcStep s (.answer i answers) = some s' →
      fetchSet auth answers = .error e →
      (∃ read, s'.calls i = .returned read (.error e)) ∧ s'.cache = s.cache) := by
  refine ⟨?_, ?_, fun s s' i answers e => oidcStep_answer_error⟩
  · intro actions s hrun i
    have hsound : CallSound s i (s.calls i) := (oidcRun_inv (KeysInv.init now) hrun).calls i
    constructor
    · intro read identity hcall
      rw [hcall] at hsound
      exact hsound identity rfl
    · intro token identity hcall
      rw [hcall] at hsound
      exact hsound identity rfl
  · intro before s s1 i token read _ hbegin hread hmissing
    obtain ⟨force, hfetching⟩ := oidcStep_begin_missing hbegin hread hmissing
    refine ⟨⟨force, hfetching⟩, fun after s2 read' result hafter hcall => ?_⟩
    have hstart : Refetches s1 i read (s1.calls i) := by
      rw [hfetching]
      exact rfl
    have hend := oidcRun_refetches hstart hafter
    rw [hcall] at hend
    obtain ⟨hsame, hfailed | ⟨set, decodedAt, hlast, hdecoded, hresult⟩⟩ := hend
    · exact ⟨hsame, Or.inl hfailed⟩
    · refine ⟨hsame, Or.inr ⟨set, decodedAt, hlast, hdecoded, hresult, fun identity => ?_⟩⟩
      rw [hresult]
      exact judgeToken_eq_some

/-! ### A key published while others are cached -/

/-- The first call caches the document it fetches, whether or not that lists its key. -/
theorem oidcRun_first {token : Text} {now : Nat} {read : TokenRead lib auth} {answers : Answers}
    {set : JwkSet} (hread : readToken lib auth token now = .ok read)
    (hfetch : fetchSet auth answers = .ok set) :
    ∃ s, oidcRun (OidcState.init lib auth now) [.begin 0 token, .answer 0 answers, .store 0] =
        some s ∧
      s.cache = some (now, Jwks.ofSet lib set) ∧ s.now = now ∧ s.calls 1 = .idle := by
  simp [runFrom, oidcStep, hread, OidcState.init, KeyCache.fresh, OidcState.setCall, hfetch]

theorem oidcStep_begin_idle {i : Nat} (hidle : s.calls i = .idle) (token : Text) :
    ∃ s', oidcStep s (.begin i token) = some s' := by
  simp only [oidcStep, hidle]
  split
  · exact ⟨_, rfl⟩
  · split
    · exact ⟨_, rfl⟩
    · split <;> exact ⟨_, rfl⟩

/-- A call that fetches a document with its key is judged by it. -/
theorem oidcRun_listed {i : Nat} {read : TokenRead lib auth} {force : Bool} {answers : Answers}
    {set : JwkSet} (hcall : s.calls i = .fetching read force)
    (hfetch : fetchSet auth answers = .ok set)
    (hlisted : (Jwks.ofSet lib set).containsKey read.kid = true) (decodedAt : Nat) :
    ∃ s', oidcRun s [.answer i answers, .store i, .judge i decodedAt] = some s' ∧
      s'.calls i = .returned read (judgeToken read (Jwks.ofSet lib set) decodedAt) := by
  simp [runFrom, oidcStep, OidcState.setCall, hcall, hfetch, hlisted]

/-- The document before the key of the test token is published. -/
def previousSet : JwkSet :=
  ⟨[⟨some "previous".toList, "RSA".toList, some testModulus, some "AQAB".toList⟩]⟩

def previousAnswers : Answers :=
  { testAnswers with keySet := fun _ => .ok ⟨200, "200 OK".toList, .ok previousSet⟩ }

/-- The call for a token of a key that was published since the last fetch fetches the new document,
which accepts it. -/
theorem authenticateToken_keys_published :
    ∃ (s s1 s2 : OidcState (testLib namedToken namedClaims) testAuth) (read : TokenRead _ testAuth),
      oidcRun (.init _ testAuth 0) [.begin 0 namedToken, .answer 0 previousAnswers, .store 0] =
        some s ∧
      s.cache = some (0, Jwks.ofSet _ previousSet) ∧
      oidcStep s (.begin 1 namedToken) = some s1 ∧
      oidcRun s1 [.answer 1 testAnswers, .store 1, .judge 1 1700000000] = some s2 ∧
      s2.calls 1 = .returned read (.ok (some ⟨"alice".toList, []⟩)) := by
  have hheader : (testLib namedToken namedClaims).decodeHeader namedToken =
      .ok ⟨.RS256, some "test".toList⟩ := if_pos rfl
  obtain ⟨halg, -⟩ | ⟨-, hkid, -⟩ | ⟨read, -, htoken, hheader', hread⟩ :=
    @readToken_decoded _ testAuth _ _ hheader 0
  · exact absurd (by decide) halg
  · contradiction
  have hkid : read.kid = "test".toList := by
    have h := read.keyId
    rw [hheader'] at h
    exact (Option.some.inj h).symm
  have hmissing : (Jwks.ofSet (testLib namedToken namedClaims) previousSet).containsKey read.kid =
      false := by
    rw [hkid]
    rfl
  have hlisted : (Jwks.ofSet (testLib namedToken namedClaims) testSet).containsKey read.kid =
      true := by
    rw [hkid]
    rfl
  have haccepts : judgeToken read (Jwks.ofSet _ testSet) 1700000000 =
      .ok (some ⟨"alice".toList, []⟩) := by
    refine judgeToken_eq_some.mpr ⟨(testModulus, "AQAB".toList), namedClaims, ?_, ?_, rfl⟩
    · rw [hkid]
      rfl
    · rw [htoken, hheader']
      refine (testLib_documented namedToken namedClaims _ _ _ _ _ _ rfl).mpr
        ⟨_, hheader, rfl, ?_, if_pos rfl, by decide +kernel⟩
      simp [testBasis]
  have hprevious : fetchSet testAuth previousAnswers = .ok previousSet := rfl
  have hnew : fetchSet testAuth testAnswers = .ok testSet := rfl
  obtain ⟨s, hbefore, hcache, hnow, hidle⟩ := oidcRun_first hread hprevious
  have hfresh : s.cache.fresh s.now = some (Jwks.ofSet _ previousSet) := by
    rw [hcache, hnow]
    rfl
  obtain ⟨s1, hbegin⟩ := oidcStep_begin_idle hidle namedToken
  obtain ⟨-, hfetches, -⟩ := authenticateToken_keys (testLib namedToken namedClaims) testAuth 0
  obtain ⟨⟨force, hfetching⟩, -⟩ := hfetches _ s s1 1 namedToken read hbefore hbegin
    (by rw [hnow]; exact hread) fun keys hkeys => by
      obtain rfl := Option.some.inj (hfresh.symm.trans hkeys)
      exact hmissing
  obtain ⟨s2, hafter, hreturned⟩ := oidcRun_listed hfetching hnew hlisted 1700000000
  rw [haccepts] at hreturned
  exact ⟨s, s1, s2, read, hbefore, hcache, hbegin, hafter, hreturned⟩

end KubeRbacProxy
