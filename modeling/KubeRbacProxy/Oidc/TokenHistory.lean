import KubeRbacProxy.Oidc.KeyRotation

/-! What the calls on one authenticator have come to, in terms of the states that their run passed
through.  Steps of other calls may come between those of a call, but its result is always that of
`authenticateToken` alone, on the keys that were cached when the call looked at them and with the
answers that were its own. -/

namespace KubeRbacProxy

open Library

variable {lib : Jwt} {auth : OidcAuthenticator} {s s' : OidcState lib auth}

/-- Call `i` had this answer to a fetch. -/
def FetchedBy (s : OidcState lib auth) (i : Nat) (answers : Answers) : Prop :=
  (∃ set, fetchSet auth answers = .ok set ∧ (i, set) ∈ s.fetched) ∨
    ∃ e, fetchSet auth answers = .error e ∧ (i, e) ∈ s.failed

/-- The fetches that the signing keys for `kid` take are on record for call `i`. -/
structure FetchesRecorded (s : OidcState lib auth) (i : Nat) (cache : KeyCache lib)
    (call : TokenCall) (kid : Text) : Prop where
  first : cache.fresh call.now = none → FetchedBy s i call.first
  second : ∀ keys, (jwks lib auth false cache call.now call.first call.firstStored).1 = .ok keys →
    keys.containsKey kid = false → FetchedBy s i call.second

/-- The fetches for the token, and the time it was decoded at, are on record for call `i`. -/
structure OnRecord (s : OidcState lib auth) (i : Nat) (cache : KeyCache lib) (call : TokenCall)
    (token : Text) : Prop where
  fetches : ∀ read, readToken lib auth token call.now = .ok read →
    FetchesRecorded s i cache call read.kid
  decoded : ∀ read keys, readToken lib auth token call.now = .ok read →
    (signingKeys lib auth cache call read.kid).1 = .ok keys → (i, call.decodedAt) ∈ s.decoded

/-- The token was read in a state that was passed through, where the keys were as in `keysSeen`. -/
def ReadIn (passed : OidcState lib auth → Prop) (read : TokenRead lib auth)
    (keysSeen : OidcState lib auth → Prop) : Prop :=
  ∃ s0, passed s0 ∧ readToken lib auth read.token s0.now = .ok read ∧ keysSeen s0

/-- The signing keys for the token are what the next fetch of call `i` gives, or, where the fetch is
not forced, what it gives if the key is among them. -/
def NextFetchDecides (s : OidcState lib auth) (i : Nat) (read : TokenRead lib auth) (force : Bool)
    (s0 : OidcState lib auth) : Prop :=
  if force then
    ∃ first, (s0.cache.fresh s0.now = none → FetchedBy s i first) ∧
      ∀ second firstStored secondStored decodedAt, (signingKeys lib auth s0.cache
        ⟨s0.now, first, firstStored, second, secondStored, decodedAt⟩ read.kid).1 =
          fetchKeys lib auth second
  else s0.cache.fresh s0.now = none

/-- The signing keys for the token, under the answers that call `i` had. -/
def KeysDecided (s : OidcState lib auth) (i : Nat) (read : TokenRead lib auth)
    (keys : Except Text (Jwks lib)) (s0 : OidcState lib auth) : Prop :=
  ∃ first second, ∀ firstStored secondStored decodedAt,
    (signingKeys lib auth s0.cache ⟨s0.now, first, firstStored, second, secondStored, decodedAt⟩
      read.kid).1 = keys ∧
    FetchesRecorded s i s0.cache ⟨s0.now, first, firstStored, second, secondStored, decodedAt⟩
      read.kid

/-- The result of call `i` is that of `authenticateToken` alone in this state. -/
def TokenAlone (s : OidcState lib auth) (i : Nat) (token : Text)
    (result : Except Text (Option Identity)) (s0 : OidcState lib auth) : Prop :=
  ∃ call : TokenCall, call.now = s0.now ∧ OnRecord s i s0.cache call token ∧
    result = (authenticateToken lib auth s0.cache call token).1

def TokenFollowed (passed : OidcState lib auth → Prop) (s : OidcState lib auth) (i : Nat) :
    OidcCall lib auth → Prop
  | .idle => True
  | .dismissed token result => ∃ s0, passed s0 ∧ TokenAlone s i token result s0
  | .fetching read force => ReadIn passed read (NextFetchDecides s i read force)
  | .storing read force set => ReadIn passed read fun s0 => NextFetchDecides s i read force s0 ∧
      ∃ answers, fetchSet auth answers = .ok set ∧ FetchedBy s i answers
  | .judging read keys => ReadIn passed read (KeysDecided s i read (.ok keys))
  | .returned read result => ∃ s0, passed s0 ∧ TokenAlone s i read.token result s0

variable {passed passed' : OidcState lib auth → Prop}

/-! ### The record grows -/

structure RecordGrows (s s' : OidcState lib auth) : Prop where
  fetched : s.fetched ⊆ s'.fetched
  failed : s.failed ⊆ s'.failed
  decoded : s.decoded ⊆ s'.decoded

theorem RecordGrows.refl (s : OidcState lib auth) : RecordGrows s s :=
  ⟨List.Subset.refl _, List.Subset.refl _, List.Subset.refl _⟩

theorem FetchedBy.mono {i : Nat} {answers : Answers} (h : FetchedBy s i answers)
    (hgrows : RecordGrows s s') : FetchedBy s' i answers := by
  rcases h with ⟨set, hfetch, hmem⟩ | ⟨e, hfetch, hmem⟩
  · exact Or.inl ⟨set, hfetch, hgrows.fetched hmem⟩
  · exact Or.inr ⟨e, hfetch, hgrows.failed hmem⟩

theorem FetchesRecorded.mono {i : Nat} {cache : KeyCache lib} {call : TokenCall} {kid : Text}
    (h : FetchesRecorded s i cache call kid) (hgrows : RecordGrows s s') :
    FetchesRecorded s' i cache call kid :=
  ⟨fun hstale => (h.first hstale).mono hgrows,
    fun keys hkeys hkid => (h.second keys hkeys hkid).mono hgrows⟩

theorem NextFetchDecides.mono {i : Nat} {read : TokenRead lib auth} {force : Bool}
    {s0 : OidcState lib auth} (h : NextFetchDecides s i read force s0)
    (hgrows : RecordGrows s s') : NextFetchDecides s' i read force s0 := by
  cases force with
  | false => exact h
  | true =>
    rw [NextFetchDecides, if_pos rfl] at h ⊢
    obtain ⟨first, hfirst, hnext⟩ := h
    exact ⟨first, fun hstale => (hfirst hstale).mono hgrows, hnext⟩

theorem KeysDecided.mono {i : Nat} {read : TokenRead lib auth} {keys : Except Text (Jwks lib)}
    {s0 : OidcState lib auth} (h : KeysDecided s i read keys s0) (hgrows : RecordGrows s s') :
    KeysDecided s' i read keys s0 := by
  obtain ⟨first, second, hdecided⟩ := h
  refine ⟨first, second, fun firstStored secondStored decodedAt => ?_⟩
  obtain ⟨hkeys, hrecorded⟩ := hdecided firstStored secondStored decodedAt
  exact ⟨hkeys, hrecorded.mono hgrows⟩

theorem TokenAlone.mono {i : Nat} {token : Text} {result : Except Text (Option Identity)}
    {s0 : OidcState lib auth} (h : TokenAlone s i token result s0) (hgrows : RecordGrows s s') :
    TokenAlone s' i token result s0 := by
  obtain ⟨call, hnow, hrecord, hresult⟩ := h
  refine ⟨call, hnow, ⟨fun read hread => ?_, fun read keys hread hkeys => ?_⟩, hresult⟩
  · exact (hrecord.fetches read hread).mono hgrows
  · exact hgrows.decoded (hrecord.decoded read keys hread hkeys)

theorem ReadIn.mono {read : TokenRead lib auth} {keysSeen keysSeen' : OidcState lib auth → Prop}
    (h : ReadIn passed read keysSeen) (hpassed : ∀ s, passed s → passed' s)
    (hseen : ∀ s0, keysSeen s0 → keysSeen' s0) : ReadIn passed' read keysSeen' := by
  obtain ⟨s0, h0, hread, hkeys⟩ := h
  exact ⟨s0, hpassed s0 h0, hread, hseen s0 hkeys⟩

theorem TokenFollowed.mono {i : Nat} {call : OidcCall lib auth} (h : TokenFollowed passed s i call)
    (hpassed : ∀ s, passed s → passed' s) (hgrows : RecordGrows s s') :
    TokenFollowed passed' s' i call := by
  cases call with
  | idle => trivial
  | dismissed token result | returned read result =>
    obtain ⟨s0, h0, halone⟩ := h
    exact ⟨s0, hpassed s0 h0, halone.mono hgrows⟩
  | fetching read force => exact ReadIn.mono h hpassed fun _ hnext => hnext.mono hgrows
  | storing read force set =>
    refine ReadIn.mono h hpassed ?_
    rintro s0 ⟨hnext, answers, hfetch, hby⟩
    exact ⟨hnext.mono hgrows, answers, hfetch, hby.mono hgrows⟩
  | judging read keys => exact ReadIn.mono h hpassed fun _ hkeys => hkeys.mono hgrows

/-! ### What one step decides -/

section Decides

variable {s0 : OidcState lib auth} {i : Nat}

end Decides

/-! ### Runs -/

/-- An issuer that never answers. -/
def unavailable : Answers where
  discovery _ := .error "unavailable".toList
  keySet _ := .error "unavailable".toList

end KubeRbacProxy
