import KubeRbacProxy.Oidc.Authenticator

/-! Which tokens the OIDC authenticator accepts.  The library checks the issuer and the audience of
a token that names them, and `oidcValidation` leaves both out of the required claims, so a token
that names neither is accepted. -/

namespace KubeRbacProxy

open Library Jwt

variable {lib : Jwt} {auth : OidcAuthenticator} {cache : KeyCache lib} {call : TokenCall}
  {token : Text}

/-! ### The keys that a token is judged by -/

theorem jwks_ok {force : Bool} {now later : Nat} {answers : Answers} {keys : Jwks lib} :
    (jwks lib auth force cache now answers later).1 = .ok keys ↔
      (force = false ∧ cache.fresh now = some keys) ∨
      ((force = true ∨ cache.fresh now = none) ∧ fetchKeys lib auth answers = .ok keys) := by
  unfold jwks
  cases force with
  | true =>
    simp only [if_true, Bool.true_eq_false, false_and, true_or, true_and, false_or]
    cases fetchKeys lib auth answers <;> simp
  | false =>
    simp only [Bool.false_eq_true, if_false, true_and, false_or]
    cases cache.fresh now with
    | some cached => simp
    | none => cases fetchKeys lib auth answers <;> simp

/-- `keys` are the cached keys or those of a first fetch where they have the id `kid`, and those of
a forced fetch where they do not. -/
def Consulted (lib : Jwt) (auth : OidcAuthenticator) (cache : KeyCache lib) (call : TokenCall)
    (kid : Text) (keys : Jwks lib) : Prop :=
  ∃ found : Jwks lib,
    (cache.fresh call.now = some found ∨
      (cache.fresh call.now = none ∧ fetchKeys lib auth call.first = .ok found)) ∧
    ((found.containsKey kid = true ∧ keys = found) ∨
      (found.containsKey kid = false ∧ fetchKeys lib auth call.second = .ok keys))

theorem signingKeys_ok {kid : Text} {keys : Jwks lib} :
    (signingKeys lib auth cache call kid).1 = .ok keys ↔
      Consulted lib auth cache call kid keys := by
  have hfirst : ∀ found : Jwks lib,
      (jwks lib auth false cache call.now call.first call.firstStored).1 = .ok found ↔
        (cache.fresh call.now = some found ∨
          (cache.fresh call.now = none ∧ fetchKeys lib auth call.first = .ok found)) := by
    intro found
    rw [jwks_ok]
    simp
  simp only [signingKeys, Consulted, ← hfirst]
  obtain ⟨result, cache'⟩ := jwks lib auth false cache call.now call.first call.firstStored
  cases result with
  | error e => simp
  | ok found =>
    cases hcontains : found.containsKey kid with
    | true => simp [hcontains, @eq_comm _ keys]
    | false => simp [hcontains, jwks_ok]

theorem authenticateToken_some {identity : Identity} :
    (authenticateToken lib auth cache call token).1 = .ok (some identity) ↔
      ∃ header, lib.decodeHeader token = .ok header ∧ header.alg ∈ auth.algorithms ∧
      ∃ kid, header.kid = some kid ∧
      ∃ keys, Consulted lib auth cache call kid keys ∧
      ∃ key, keys.get kid = some key ∧
      ∃ claims, lib.decode token key (oidcValidation auth header.alg) call.decodedAt = .ok claims ∧
        oidcIdentity auth claims = .ok identity := by
  simp only [← signingKeys_ok]
  unfold authenticateToken
  cases lib.decodeHeader token with
  | error e => simp
  | ok header =>
    simp only [Except.ok.injEq, exists_eq_left']
    by_cases halg : header.alg ∈ auth.algorithms
    · rw [if_neg (not_not.mpr halg)]
      cases header.kid with
      | none => simp
      | some kid =>
        simp only [halg, true_and, Option.some.injEq, exists_eq_left']
        obtain ⟨result, cache'⟩ := signingKeys lib auth cache call kid
        cases result with
        | error e => simp
        | ok keys =>
          simp only [Except.ok.injEq, exists_eq_left']
          cases keys.get kid with
          | none => simp
          | some key =>
            simp only [Option.some.injEq, exists_eq_left']
            cases lib.decode token key (oidcValidation auth header.alg) call.decodedAt with
            | error e => simp
            | ok claims =>
              cases hidentity : oidcIdentity auth claims with
              | error e => simp [hidentity, Except.map]
              | ok found => simp [hidentity, Except.map]
    · simp [halg]

/-! ### What an accepted token carries -/

/-- The token is signed, with a configured algorithm, by the RSA key that the keys consulted have
under its key id. -/
def SignedByIssuer (lib : Jwt) (basis : Basis lib.Key) (auth : OidcAuthenticator)
    (cache : KeyCache lib) (call : TokenCall) (token : Text) : Prop :=
  ∃ header kid keys key, lib.decodeHeader token = .ok header ∧ header.alg ∈ auth.algorithms ∧
    header.kid = some kid ∧ Consulted lib auth cache call kid keys ∧ keys.get kid = some key ∧
    (∃ n e, lib.fromRsaComponents n e = some key) ∧ basis.verifies token key header.alg = true

/-- The token carries `claims`, and is signed and not expired for more than a minute. -/
structure Vouched (lib : Jwt) (basis : Basis lib.Key) (auth : OidcAuthenticator)
    (cache : KeyCache lib) (call : TokenCall) (token : Text) (claims : Json) : Prop where
  signed : SignedByIssuer lib basis auth cache call token
  payload : basis.payload token = some claims
  unexpired : ∃ exp, basis.timeUnder expClaim claims = some exp ∧ call.decodedAt ≤ exp + 60

def Names (claims : Json) (key name : Text) : Prop :=
  ∃ names, claims.namesUnder key = some names ∧ name ∈ names

/-- Accepted tokens are vouched for and name the issuer and the client. -/
def AcceptanceSound (lib : Jwt) (basis : Basis lib.Key) (auth : OidcAuthenticator)
    (cache : KeyCache lib) (call : TokenCall) (token : Text) : Prop :=
  ∀ identity, (authenticateToken lib auth cache call token).1 = .ok (some identity) →
    ∃ claims, Vouched lib basis auth cache call token claims ∧
      Names claims issClaim auth.issuer ∧ Names claims audClaim auth.clientId

/-- The token passes every check but those of the issuer and the audience, and passes these where
it names any. -/
structure PassesOtherwise (lib : Jwt) (basis : Basis lib.Key) (auth : OidcAuthenticator)
    (cache : KeyCache lib) (call : TokenCall) (token : Text) (claims : Json) : Prop where
  vouched : Vouched lib basis auth cache call token claims
  issuer : ∀ names, claims.namesUnder issClaim = some names → auth.issuer ∈ names
  audience : ∀ names, claims.namesUnder audClaim = some names → auth.clientId ∈ names
  username : ∃ name, claims.get auth.usernameClaim = some (.string name)

theorem oidcIdentity_ok {claims : Json} {identity : Identity}
    (h : oidcIdentity auth claims = .ok identity) :
    ∃ name, claims.get auth.usernameClaim = some (.string name) ∧
      identity = ⟨auth.usernamePrefix ++ name, oidcGroups auth claims⟩ := by
  unfold oidcIdentity at h
  cases hclaim : claims.get auth.usernameClaim with
  | none => simp [hclaim] at h
  | some value =>
    cases value with
    | string name =>
      refine ⟨name, rfl, ?_⟩
      simpa [hclaim, Json.asStr, eq_comm] using h
    | _ => simp [hclaim, Json.asStr] at h

theorem oidcIdentity_string {claims : Json} {name : Text}
    (h : claims.get auth.usernameClaim = some (.string name)) :
    oidcIdentity auth claims = .ok ⟨auth.usernamePrefix ++ name, oidcGroups auth claims⟩ := by
  simp [oidcIdentity, h, Json.asStr]

section Documented

variable {basis : Basis lib.Key} (hdoc : Documented lib basis)
include hdoc

theorem decode_ok_iff {header : Header} (hheader : lib.decodeHeader token = .ok header)
    {key : lib.Key} {claims : Json} :
    lib.decode token key (oidcValidation auth header.alg) call.decodedAt = .ok claims ↔
      basis.verifies token key header.alg = true ∧ basis.payload token = some claims ∧
      (∃ exp, basis.timeUnder expClaim claims = some exp ∧ call.decodedAt ≤ exp + 60) ∧
      (∀ names, claims.namesUnder issClaim = some names → auth.issuer ∈ names) ∧
      ∀ names, claims.namesUnder audClaim = some names → auth.clientId ∈ names := by
  have hadmits : basis.admits (oidcValidation auth header.alg) call.decodedAt claims = true ↔ _ :=
    basis.admits_single rfl rfl rfl
  rw [hdoc token key header.alg (oidcValidation auth header.alg) _ _ rfl]
  constructor
  · rintro ⟨_, -, -, hverifies, hpayload, hchecks⟩
    exact ⟨hverifies, hpayload, hadmits.mp hchecks⟩
  · rintro ⟨hverifies, hpayload, hchecks⟩
    exact ⟨header, hheader, rfl, hverifies, hpayload, hadmits.mpr hchecks⟩

theorem passesOtherwise_of_accepted {identity : Identity}
    (h : (authenticateToken lib auth cache call token).1 = .ok (some identity)) :
    ∃ claims, PassesOtherwise lib basis auth cache call token claims := by
  obtain ⟨header, hheader, halg, kid, hkid, keys, hkeys, key, hkey, claims, hdecode, hidentity⟩ :=
    authenticateToken_some.mp h
  obtain ⟨hverifies, hpayload, htime, hissuer, haudience⟩ := (decode_ok_iff hdoc hheader).mp hdecode
  obtain ⟨name, hname, -⟩ := oidcIdentity_ok hidentity
  have hsigned : SignedByIssuer lib basis auth cache call token :=
    ⟨header, kid, keys, key, hheader, halg, hkid, hkeys, hkey, Jwks.get_rsa hkey, hverifies⟩
  exact ⟨claims, ⟨hsigned, hpayload, htime⟩, hissuer, haudience, name, hname⟩

theorem identity_of_passesOtherwise {claims : Json}
    (h : PassesOtherwise lib basis auth cache call token claims) {name : Text}
    (hname : claims.get auth.usernameClaim = some (.string name)) :
    (authenticateToken lib auth cache call token).1 =
      .ok (some ⟨auth.usernamePrefix ++ name, oidcGroups auth claims⟩) := by
  obtain ⟨⟨⟨header, kid, keys, key, hheader, halg, hkid, hkeys, hkey, -, hverifies⟩, hpayload,
    htime⟩, hissuer, haudience, -⟩ := h
  have hdecode :
      lib.decode token key (oidcValidation auth header.alg) call.decodedAt = .ok claims :=
    (decode_ok_iff hdoc hheader).mpr ⟨hverifies, hpayload, htime, hissuer, haudience⟩
  exact authenticateToken_some.mpr ⟨header, hheader, halg, kid, hkid, keys, hkeys, key, hkey,
    claims, hdecode, oidcIdentity_string hname⟩

theorem accepted_of_passesOtherwise {claims : Json}
    (h : PassesOtherwise lib basis auth cache call token claims) :
    ∃ identity, (authenticateToken lib auth cache call token).1 = .ok (some identity) := by
  obtain ⟨name, hname⟩ := h.username
  exact ⟨_, identity_of_passesOtherwise hdoc h hname⟩

end Documented

/-- An accepted token is signed by the issuer, unexpired, and names the issuer and the client,
exactly when a token that passes every other check carries an issuer and an audience that can be
read. -/
theorem oidc_acceptance_sound_iff (lib : Jwt) (basis : Basis lib.Key) (hdoc : Documented lib basis)
    (auth : OidcAuthenticator) (cache : KeyCache lib) (call : TokenCall) (token : Text) :
    AcceptanceSound lib basis auth cache call token ↔
      ∀ claims, PassesOtherwise lib basis auth cache call token claims →
        (claims.namesUnder issClaim).isSome ∧ (claims.namesUnder audClaim).isSome := by
  constructor
  · intro hsound claims hpasses
    obtain ⟨identity, haccepted⟩ := accepted_of_passesOtherwise hdoc hpasses
    obtain ⟨found, hvouched, ⟨issuers, hissuers, -⟩, ⟨audiences, haudiences, -⟩⟩ :=
      hsound identity haccepted
    obtain rfl : claims = found :=
      Option.some.inj (hpasses.vouched.payload.symm.trans hvouched.payload)
    rw [hissuers, haudiences]
    exact ⟨rfl, rfl⟩
  · -- what the token names was compared, so only what it leaves out is missing
    intro hnamed identity haccepted
    obtain ⟨claims, hpasses⟩ := passesOtherwise_of_accepted hdoc haccepted
    obtain ⟨hiss, haud⟩ := hnamed claims hpasses
    obtain ⟨issuers, hissuers⟩ := Option.isSome_iff_exists.mp hiss
    obtain ⟨audiences, haudiences⟩ := Option.isSome_iff_exists.mp haud
    exact ⟨claims, hpasses.vouched, ⟨issuers, hissuers, hpasses.issuer issuers hissuers⟩,
      ⟨audiences, haudiences, hpasses.audience audiences haudiences⟩⟩

/-! ### A token that names no issuer and no audience -/

@[irreducible] def testModulus : Text :=
  "ysLkHTTJRq9Tn1mWOisyFPeYVaUp_f6hVnIN3ynuCk9X2Sax6DN99hOiVcU-qqUGDa7wsQLF".toList ++
    "xTU1Pvzz1jRQXOmFSROasCno8z_tewvwM5gP-jkEGODgYkiG3mQxrVtwUZD3UO6khbMY0mhy".toList ++
    "gtwaX9gHp6iWD9hj0XW-erSpC3rAFIW_24S1ij-IHYSr6SvA_h-GNEywpyexONWBw5KS8P_s".toList ++
    "WZ0RGSfERiKj2XF564JSFFvudbuQg2pKLOVzJL6qojwWXiN_jPwLGhruRVE6aV1Vc06OhlyV".toList ++
    "PYhw2_vWCSXv_S8J1xOMgN-c5pgfGesQWros97T0Gbn-1mIIxE045Q".toList

/-- A token that the test key signed, without an issuer and an audience. -/
@[irreducible] def bareToken : Text :=
  "eyJhbGciOiJSUzI1NiIsImtpZCI6InRlc3QifQ.".toList ++
    "eyJlbWFpbCI6Im1hbGxvcnkiLCJleHAiOjQwMDAwMDAwMDB9.".toList ++
    "dAk5oCHePUYf2yNlbqo5zFn_IGR93xxqkZX0I5IkiqScacgQSqtKYzRA8Vj1lcsZSPnesuep".toList ++
    "W0kC_dssBljJrB0_M0M91pLx-UcplF8IfKmYy0dBXvjWPNtXvJcquyvBMVFT1yCH0oGwurA8".toList ++
    "EVOfP3A2HGoumnvswph3wbzBQ_MxdYvvB2xXvDobXeMWZF_PK28nI8JSocc56XrbCzB4vxzb".toList ++
    "BHCI15QeK7uCJcs0sBeA4v9TpYVDn8HvBrrPafnzYPfvSYGrKxOlzUuTFPFiUC1TQSORWlwD".toList ++
    "mKVf5sKa4G-dnIR39An2TXi_oPKfQKtgZv4SWqnluBgSkWmfnwwZiA".toList

@[irreducible] def namedToken : Text :=
  "eyJhbGciOiJSUzI1NiIsImtpZCI6InRlc3QifQ.".toList ++
    "eyJpc3MiOiJodHRwczovL2lzc3Vlci5leGFtcGxlIiwiYXVkIjoicHJveHkiLCJlbWFpbCI6".toList ++
    "ImFsaWNlIiwiZXhwIjo0MDAwMDAwMDAwfQ.".toList ++
    "h-6Jg8-6tmCSr5bdTfWt231a7xv_XDeRuSz12m8Hhu8JKBx3Q6Zo44H8iFeO7z_YHaC1RXnY".toList ++
    "-i4R-5nymo_mAJnE61DaIhKhporZ9XOAbyYX1R4shPJJw916bQW5ZDPbvvO9QeE8Q1zs5JXe".toList ++
    "Eq9KIUbzoyC4Zwdd-NCsF1SerTFCF1TWF-0xxyFUujxDf42LVS4YDZeph3Onc_qxUCSMK894".toList ++
    "60EOmDCFE1BiNIzGaAFVVzaZ8hl5lkY5HKgjMVj6svu5_4VXZsFAujiexszhqPFIAh4lpH8Q".toList ++
    "W2lafSmUfr9XUSs8P6vM_rF0mKXe2LD3u0TWXJtbdSnpl5Vy81J75g".toList

def bareClaims : Json := .object
  [("email".toList, .string "mallory".toList), (expClaim, .number "4000000000".toList)]

def namedClaims : Json := .object
  [(issClaim, .string "https://issuer.example".toList), (audClaim, .string "proxy".toList),
    ("email".toList, .string "alice".toList), (expClaim, .number "4000000000".toList)]

/-- `token` carries `claims` and verifies under the test key; no other token does. -/
def testBasis (token : Text) (claims : Json) : Basis (Text × Text) where
  payload t := if t = token then some claims else none
  verifies t key alg := t == token && key == (testModulus, "AQAB".toList) && alg == .RS256
  numericDate
    | .number literal => some (literal.foldl (fun n c => 10 * n + (c.toNat - '0'.toNat)) 0)
    | _ => none

def testLib (token : Text) (claims : Json) : Jwt :=
  ofBasis (testBasis token claims) (fun n e => some (n, e)) fun t =>
    if t = token then .ok ⟨.RS256, some "test".toList⟩ else .error "InvalidToken".toList

theorem testLib_documented (token : Text) (claims : Json) :
    Documented (testLib token claims) (testBasis token claims) :=
  ofBasis_documented (testBasis token claims) _ _

def testAuth : OidcAuthenticator where
  issuer := "https://issuer.example".toList
  clientId := "proxy".toList
  usernameClaim := "email".toList
  usernamePrefix := []
  groupsClaim := "groups".toList
  groupsPrefix := []
  algorithms := [.RS256]
  trimmed := by decide
  nonempty := by decide

def testSet : JwkSet := ⟨[⟨some "test".toList, "RSA".toList, some testModulus, some "AQAB".toList⟩]⟩

def testAnswers : Answers where
  discovery _ := .ok ⟨200, "200 OK".toList, .ok ⟨"https://issuer.example/keys".toList⟩⟩
  keySet _ := .ok ⟨200, "200 OK".toList, .ok testSet⟩

def testCall : TokenCall := ⟨0, testAnswers, 1, testAnswers, 2, 1700000000⟩

theorem testLib_signed (token : Text) (claims : Json) :
    SignedByIssuer (testLib token claims) (testBasis token claims) testAuth none testCall
      token := by
  have hfetch : fetchKeys (testLib token claims) testAuth testAnswers =
      .ok (Jwks.ofSet (testLib token claims) testSet) := rfl
  have hget : (Jwks.ofSet (testLib token claims) testSet).get "test".toList =
      some (testModulus, "AQAB".toList) := rfl
  refine ⟨⟨.RS256, some "test".toList⟩, "test".toList, Jwks.ofSet (testLib token claims) testSet,
    (testModulus, "AQAB".toList), if_pos rfl, by decide, rfl, ?_, hget,
    ⟨testModulus, "AQAB".toList, rfl⟩, ?_⟩
  · refine ⟨_, Or.inr ⟨rfl, hfetch⟩, Or.inl ⟨?_, rfl⟩⟩
    rw [Jwks.containsKey, hget]
    rfl
  · simp [testBasis]

theorem oidc_acceptance_sound_named :
    (∃ identity, (authenticateToken (testLib namedToken namedClaims) testAuth none testCall
      namedToken).1 = .ok (some identity)) ∧
    AcceptanceSound (testLib namedToken namedClaims) (testBasis namedToken namedClaims) testAuth
      none testCall namedToken := by
  have hpayload : (testBasis namedToken namedClaims).payload namedToken = some namedClaims :=
    if_pos rfl
  have hiss : namedClaims.namesUnder issClaim = some [testAuth.issuer] := rfl
  have haud : namedClaims.namesUnder audClaim = some [testAuth.clientId] := rfl
  constructor
  · apply accepted_of_passesOtherwise (testLib_documented namedToken namedClaims)
    exact
      { vouched := ⟨testLib_signed namedToken namedClaims, hpayload, 4000000000, rfl, by decide⟩
        issuer := by simp [hiss]
        audience := by simp [haud]
        username := ⟨"alice".toList, rfl⟩ }
  · apply (oidc_acceptance_sound_iff (testLib namedToken namedClaims)
      (testBasis namedToken namedClaims) (testLib_documented namedToken namedClaims) testAuth none
      testCall namedToken).mpr
    intro claims hpasses
    obtain rfl := Option.some.inj (hpayload.symm.trans hpasses.vouched.payload)
    rw [hiss, haud]
    exact ⟨rfl, rfl⟩

/-- The token without them is accepted as well. -/
theorem oidc_acceptance_unsound :
    Documented (testLib bareToken bareClaims) (testBasis bareToken bareClaims) ∧
      ¬AcceptanceSound (testLib bareToken bareClaims) (testBasis bareToken bareClaims) testAuth
        none testCall bareToken := by
  have hdoc := testLib_documented bareToken bareClaims
  have hpayload : (testBasis bareToken bareClaims).payload bareToken = some bareClaims := if_pos rfl
  have hiss : bareClaims.namesUnder issClaim = none := rfl
  have haud : bareClaims.namesUnder audClaim = none := rfl
  have hpasses : PassesOtherwise (testLib bareToken bareClaims) (testBasis bareToken bareClaims)
      testAuth none testCall bareToken bareClaims :=
    { vouched := ⟨testLib_signed bareToken bareClaims, hpayload, 4000000000, rfl, by decide⟩
      issuer := by simp [hiss]
      audience := by simp [haud]
      username := ⟨"mallory".toList, rfl⟩ }
  obtain ⟨identity, haccepted⟩ := accepted_of_passesOtherwise hdoc hpasses
  refine ⟨hdoc, fun hsound => ?_⟩
  obtain ⟨claims, hvouched, ⟨names, hnames, -⟩, -⟩ := hsound identity haccepted
  obtain rfl := Option.some.inj (hpayload.symm.trans hvouched.payload)
  rw [hiss] at hnames
  contradiction

end KubeRbacProxy
