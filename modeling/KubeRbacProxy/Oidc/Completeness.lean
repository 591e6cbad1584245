import KubeRbacProxy.Library.Except
import KubeRbacProxy.Oidc.Acceptance

/-! Whether the algorithms that the OIDC authenticator is created with can be used.  Construction
accepts RSA and elliptic curve algorithms, and the parser of the issuer's key set keeps RSA keys
only, so that no token of an elliptic curve algorithm is ever accepted. -/

namespace KubeRbacProxy

open Library Jwt

def rsaAlgorithms : List Algorithm := [.RS256, .RS384, .RS512]

def ecAlgorithms : List Algorithm := [.ES256, .ES384]

/-- The curve of the keys of an elliptic curve algorithm. -/
def curve : Algorithm → Option Text
  | .ES256 => some "P-256".toList
  | .ES384 => some "P-384".toList
  | _ => none

/-- A public key as an issuer serves it, with the parts of elliptic curve keys. -/
structure ServedKey extends Jwk where
  crv : Option Text := none
  x : Option Text := none
  y : Option Text := none

/-- What the code reads of a served key set. -/
def readSet (served : List ServedKey) : JwkSet := ⟨served.map (·.toJwk)⟩

/-- The key is well formed for the algorithm, and `decoding` is made from its components. -/
inductive PublicKeyOf (lib : Jwt) (fromEcComponents : Text → Text → Option lib.Key)
    (key : ServedKey) (decoding : lib.Key) : Algorithm → Prop
  | rsa {alg : Algorithm} {n e : Text} (family : alg ∈ rsaAlgorithms)
      (kty : key.kty = "RSA".toList) (modulus : key.n = some n) (exponent : key.e = some e)
      (components : lib.fromRsaComponents n e = some decoding) :
      PublicKeyOf lib fromEcComponents key decoding alg
  | ec {alg : Algorithm} {x y : Text} (family : alg ∈ ecAlgorithms)
      (kty : key.kty = "EC".toList) (crv : key.crv = curve alg) (abscissa : key.x = some x)
      (ordinate : key.y = some y) (components : fromEcComponents x y = some decoding) :
      PublicKeyOf lib fromEcComponents key decoding alg

structure UniqueUnder (served : List ServedKey) (kid : Text) (key : ServedKey) : Prop where
  mem : key ∈ served
  named : key.kid = some kid
  unique : ∀ other ∈ served, other.kid = some kid → other = key

/-- The issuer serves the key set: it answers a fetch with it, and a key that is cached under the id
is that of the set. -/
structure Serves (lib : Jwt) (auth : OidcAuthenticator) (cache : KeyCache lib) (call : TokenCall)
    (kid : Text) (set : JwkSet) : Prop where
  cached : ∀ keys, cache.fresh call.now = some keys → keys.containsKey kid = true →
    keys.get kid = (Jwks.ofSet lib set).get kid
  first : fetchKeys lib auth call.first = .ok (Jwks.ofSet lib set)
  second : fetchKeys lib auth call.second = .ok (Jwks.ofSet lib set)

/-- The token is signed with the algorithm under the key id, passes the checks of its claims, and
names its user. -/
structure ValidToken (lib : Jwt) (basis : Basis lib.Key) (auth : OidcAuthenticator)
    (call : TokenCall) (alg : Algorithm) (kid : Text) (key : lib.Key) (token : Text)
    (claims : Json) : Prop where
  header : lib.decodeHeader token = .ok ⟨alg, some kid⟩
  signed : basis.verifies token key alg = true
  payload : basis.payload token = some claims
  unexpired : ∃ exp, basis.timeUnder expClaim claims = some exp ∧ call.decodedAt ≤ exp + 60
  issuer : ∀ names, claims.namesUnder issClaim = some names → auth.issuer ∈ names
  audience : ∀ names, claims.namesUnder audClaim = some names → auth.clientId ∈ names
  username : ∃ name, claims.get auth.usernameClaim = some (.string name)

/-! ### Construction -/

/-- What a created authenticator has of its arguments. -/
structure Configured (issuer clientId usernameClaim usernamePrefix groupsClaim groupsPrefix : Text)
    (algorithms : List Text) (auth : OidcAuthenticator) : Prop where
  issuer : auth.issuer = trimEndMatches '/' issuer
  clientId : auth.clientId = clientId
  usernameClaim : auth.usernameClaim = usernameClaim
  usernamePrefix : auth.usernamePrefix = usernamePrefix
  groupsClaim : auth.groupsClaim = groupsClaim
  groupsPrefix : auth.groupsPrefix = groupsPrefix
  algorithms : algorithms.mapM signingAlgorithm = .ok auth.algorithms

theorem new_ok {issuer clientId usernameClaim usernamePrefix groupsClaim groupsPrefix : Text}
    {algorithms : List Text} {buildClient : Except Text Unit} {auth : OidcAuthenticator}
    (h : OidcAuthenticator.new issuer clientId usernameClaim usernamePrefix groupsClaim groupsPrefix
      algorithms buildClient = .ok auth) :
    Configured issuer clientId usernameClaim usernamePrefix groupsClaim groupsPrefix algorithms
      auth := by
  unfold OidcAuthenticator.new at h
  cases halgorithms : algorithms.mapM signingAlgorithm with
  | error e => simp [halgorithms] at h
  | ok parsed =>
    simp only [halgorithms] at h
    split at h
    · contradiction
    cases buildClient with
    | error e => contradiction
    | ok =>
      obtain rfl := Except.ok.inj h
      exact ⟨rfl, rfl, rfl, rfl, rfl, rfl, halgorithms⟩

theorem signingAlgorithm_ok {value : Text} {alg : Algorithm}
    (h : signingAlgorithm value = .ok alg) :
    alg ∈ rsaAlgorithms ∨ alg ∈ ecAlgorithms := by
  unfold signingAlgorithm at h
  split_ifs at h <;> obtain rfl := Except.ok.inj h <;> decide

/-! ### The keys that are kept -/

section Keys

variable {lib : Jwt} {served : List ServedKey} {kid : Text} {key : ServedKey}

theorem ofSet_mem (h : UniqueUnder served kid key) {decoding : lib.Key} :
    (kid, decoding) ∈ (Jwks.ofSet lib (readSet served)).keys ↔
      decodingKey lib key.toJwk = some (kid, decoding) := by
  simp only [Jwks.ofSet, readSet, List.mem_filterMap, List.mem_map]
  constructor
  · rintro ⟨_, ⟨other, hother, rfl⟩, hdecoding⟩
    obtain ⟨-, hkid, -⟩ := decodingKey_eq_some.mp hdecoding
    rwa [h.unique other hother hkid] at hdecoding
  · intro hdecoding
    exact ⟨_, ⟨key, h.mem, rfl⟩, hdecoding⟩

/-- Under a unique id stands the decoding key of the served key, where that has one. -/
theorem ofSet_get (h : UniqueUnder served kid key) {decoding : lib.Key} :
    (Jwks.ofSet lib (readSet served)).get kid = some decoding ↔
      decodingKey lib key.toJwk = some (kid, decoding) := by
  rw [← ofSet_mem h]
  constructor
  · exact Jwks.get_mem
  · intro hmem
    cases hget : (Jwks.ofSet lib (readSet served)).get kid with
    | none =>
      have hno := List.lookup_eq_none_iff.mp hget (kid, decoding) (List.mem_reverse.mpr hmem)
      simp at hno
    | some other =>
      have hsame := (ofSet_mem h).mp hmem
      rw [(ofSet_mem h).mp (Jwks.get_mem hget)] at hsame
      simpa using hsame

end Keys

/-! ### Which algorithms can be used -/

section Complete

variable {lib : Jwt} {basis : Basis lib.Key} {auth : OidcAuthenticator} {cache : KeyCache lib}
  {call : TokenCall} {served : List ServedKey} {kid token : Text}

/-- The key that the keys consulted have under the id is that of the set. -/
theorem Serves.consulted {set : JwkSet} (h : Serves lib auth cache call kid set) {key : lib.Key} :
    (∃ keys, Consulted lib auth cache call kid keys ∧ keys.get kid = some key) ↔
      (Jwks.ofSet lib set).get kid = some key := by
  simp only [Consulted, h.first, h.second, Except.ok.injEq]
  constructor
  · rintro ⟨keys, ⟨found, hfound, ⟨hcontains, rfl⟩ | ⟨-, rfl⟩⟩, hkey⟩
    · rcases hfound with hcached | ⟨-, rfl⟩
      · rwa [← h.cached keys hcached hcontains]
      · exact hkey
    · exact hkey
  · intro hkey
    have hset : (Jwks.ofSet lib set).containsKey kid = true := by rw [Jwks.containsKey, hkey]; rfl
    cases hfresh : cache.fresh call.now with
    | none => exact ⟨_, ⟨_, Or.inr ⟨rfl, rfl⟩, Or.inl ⟨hset, rfl⟩⟩, hkey⟩
    | some found =>
      cases hcontains : found.containsKey kid with
      | true =>
        refine ⟨found, ⟨found, Or.inl rfl, Or.inl ⟨hcontains, rfl⟩⟩, ?_⟩
        rw [h.cached found hfresh hcontains, hkey]
      | false => exact ⟨_, ⟨found, Or.inl rfl, Or.inr ⟨hcontains, rfl⟩⟩, hkey⟩

/-- With the issuer's keys at hand, a valid token of a configured algorithm is accepted exactly when
its key is kept. -/
theorem accepted_iff_kept (hdoc : Documented lib basis) {set : JwkSet}
    (hserves : Serves lib auth cache call kid set) {alg : Algorithm} (halg : alg ∈ auth.algorithms)
    {key : lib.Key} {claims : Json}
    (hvalid : ValidToken lib basis auth call alg kid key token claims)
    (hkey : ∀ other, (Jwks.ofSet lib set).get kid = some other → other = key) :
    (∃ identity, (authenticateToken lib auth cache call token).1 = .ok (some identity)) ↔
      (Jwks.ofSet lib set).get kid = some key := by
  constructor
  · rintro ⟨identity, haccepted⟩
    obtain ⟨header, hheader, -, kid', hkid, keys, hkeys, other, hother, -⟩ :=
      authenticateToken_some.mp haccepted
    obtain rfl := Except.ok.inj (hvalid.header.symm.trans hheader)
    obtain rfl := Option.some.inj hkid
    have hget := hserves.consulted.mp ⟨keys, hkeys, hother⟩
    rw [hget, hkey other hget]
  · intro hget
    have hdecode : lib.decode token key (oidcValidation auth alg) call.decodedAt = .ok claims :=
      (decode_ok_iff hdoc hvalid.header).mpr ⟨hvalid.signed, hvalid.payload, hvalid.unexpired,
        hvalid.issuer, hvalid.audience⟩
    obtain ⟨name, hname⟩ := hvalid.username
    obtain ⟨keys, hkeys, hfound⟩ := hserves.consulted.mpr hget
    exact ⟨_, authenticateToken_some.mpr ⟨⟨alg, some kid⟩, hvalid.header, halg, kid, rfl, keys,
      hkeys, key, hfound, claims, hdecode, oidcIdentity_string hname⟩⟩

theorem configured_family {issuer clientId usernameClaim usernamePrefix groupsClaim groupsPrefix :
    Text} {algorithms : List Text} (h : Configured issuer clientId usernameClaim usernamePrefix
      groupsClaim groupsPrefix algorithms auth) {alg : Algorithm} (halg : alg ∈ auth.algorithms) :
    alg ∈ rsaAlgorithms ∨ alg ∈ ecAlgorithms := by
  obtain ⟨value, -, hvalue⟩ := forall₂_mem_left (mapM_eq_ok.mp h.algorithms).flip alg halg
  exact signingAlgorithm_ok hvalue

/-- The algorithms of a created authenticator are of the two families, and it accepts the valid
tokens of one exactly when it is an RSA algorithm. -/
theorem oidc_complete_iff (lib : Jwt) (basis : Basis lib.Key) (hdoc : Documented lib basis)
    (fromEcComponents : Text → Text → Option lib.Key)
    {issuer clientId usernameClaim usernamePrefix groupsClaim groupsPrefix : Text}
    {algorithms : List Text} {buildClient : Except Text Unit} {auth : OidcAuthenticator}
    (hnew : OidcAuthenticator.new issuer clientId usernameClaim usernamePrefix groupsClaim
      groupsPrefix algorithms buildClient = .ok auth)
    {alg : Algorithm} (halg : alg ∈ auth.algorithms) {served : List ServedKey} {kid : Text}
    {key : ServedKey} (hunique : UniqueUnder served kid key) {decoding : lib.Key}
    (hkey : PublicKeyOf lib fromEcComponents key decoding alg) {cache : KeyCache lib}
    {call : TokenCall} (hserves : Serves lib auth cache call kid (readSet served)) {token : Text}
    {claims : Json} (hvalid : ValidToken lib basis auth call alg kid decoding token claims) :
    (alg ∈ rsaAlgorithms ∨ alg ∈ ecAlgorithms) ∧
      ((∃ identity, (authenticateToken lib auth cache call token).1 = .ok (some identity)) ↔
        alg ∈ rsaAlgorithms) := by
  refine ⟨configured_family (new_ok hnew) halg, ?_⟩
  cases hkey with
  | rsa family kty modulus exponent components =>
    have hkept : (Jwks.ofSet lib (readSet served)).get kid = some decoding :=
      (ofSet_get hunique).mpr (decodingKey_eq_some.mpr
        ⟨kty, hunique.named, _, _, modulus, exponent, components⟩)
    have haccepted := accepted_iff_kept hdoc hserves halg hvalid fun other hother =>
      Option.some.inj (hother.symm.trans hkept)
    exact iff_of_true (haccepted.mpr hkept) family
  | ec family kty crv abscissa ordinate components =>
    -- the parser of the key set drops every key whose type is not RSA
    have hdropped : ∀ other, (Jwks.ofSet lib (readSet served)).get kid ≠ some other := by
      intro other hother
      have hrsa := (decodingKey_eq_some.mp ((ofSet_get hunique).mp hother)).1
      rw [kty] at hrsa
      contradiction
    have haccepted := accepted_iff_kept hdoc hserves halg hvalid fun other hother =>
      absurd hother (hdropped other)
    refine iff_of_false (mt haccepted.mp (hdropped decoding)) fun hrsa => ?_
    have hdisjoint : ∀ a ∈ ecAlgorithms, a ∉ rsaAlgorithms := by decide
    exact hdisjoint alg family hrsa

end Complete

theorem testAuth_new : OidcAuthenticator.new "https://issuer.example".toList "proxy".toList
    "email".toList [] "groups".toList [] ["RS256".toList] (.ok ()) = .ok testAuth := rfl

def testKey : ServedKey where
  kid := some "test".toList
  kty := "RSA".toList
  n := some testModulus
  e := some "AQAB".toList

theorem unique_single {key : ServedKey} {kid : Text} (h : key.kid = some kid) :
    UniqueUnder [key] kid key :=
  ⟨List.mem_singleton_self key, h, fun _ hother _ => List.mem_singleton.mp hother⟩

theorem oidc_complete_rs256 :
    (Algorithm.RS256 ∈ rsaAlgorithms ∨ Algorithm.RS256 ∈ ecAlgorithms) ∧
      ((∃ identity, (authenticateToken (testLib namedToken namedClaims) testAuth none testCall
        namedToken).1 = .ok (some identity)) ↔ Algorithm.RS256 ∈ rsaAlgorithms) := by
  have hkey : PublicKeyOf (testLib namedToken namedClaims) (fun x y => some (x, y)) testKey
      (testModulus, "AQAB".toList) .RS256 := .rsa (by decide) rfl rfl rfl rfl
  have hserves : Serves (testLib namedToken namedClaims) testAuth none testCall "test".toList
      (readSet [testKey]) := ⟨fun _ h => by contradiction, rfl, rfl⟩
  have hvalid : ValidToken (testLib namedToken namedClaims) (testBasis namedToken namedClaims)
      testAuth testCall .RS256 "test".toList (testModulus, "AQAB".toList) namedToken
      namedClaims :=
    { header := if_pos rfl
      signed := by simp [testBasis]
      payload := if_pos rfl
      unexpired := ⟨4000000000, rfl, by decide⟩
      issuer := by simp [show namedClaims.namesUnder issClaim = some [testAuth.issuer] from rfl]
      audience := by simp [show namedClaims.namesUnder audClaim = some [testAuth.clientId] from rfl]
      username := ⟨"alice".toList, rfl⟩ }
  exact oidc_complete_iff _ _ (testLib_documented namedToken namedClaims) _ testAuth_new
    (by decide) (unique_single rfl) hkey hserves hvalid

/-! ### A token that is signed with ES256 -/

@[irreducible] def ecToken : Text :=
  ("eyJhbGciOiJFUzI1NiIsImtpZCI6InRlc3QifQ." ++
    "eyJpc3MiOiJodHRwczovL2lzc3Vlci5leGFtcGxlIiwiYXVkIjoicHJveHkiLCJlbWFpbCI6ImFsaWNlIiwiZXhw" ++
    "Ijo0MDAwMDAwMDAwfQ." ++
    "A7Fj9ww1VGOh577748zov8SdS45F2iCVFevjAEcsWfltMMUNJeGCigi5Vl3GHdY6dAJ44nsnDd5JZF6ZYyfKZw").toList

def ecPoint : Text × Text :=
  ("05d44Sp73khcHyGrIyoQMENjaKcmIyvFIdsavjOZFRw".toList,
    "lraE5A7v8nAowl8cfkWUgTyyhumvM4zR96IRjZ2YT2M".toList)

def ecKey : ServedKey where
  kid := some "test".toList
  kty := "EC".toList
  n := none
  e := none
  crv := some "P-256".toList
  x := some ecPoint.1
  y := some ecPoint.2

def ecBasis : Basis (Text × Text) :=
  { testBasis ecToken namedClaims with
    verifies := fun t key alg => t == ecToken && key == ecPoint && alg == .ES256 }

def ecLib : Jwt :=
  ofBasis ecBasis (fun n e => some (n, e)) fun t =>
    if t = ecToken then .ok ⟨.ES256, some "test".toList⟩ else .error "InvalidToken".toList

def ecAuth : OidcAuthenticator := { testAuth with algorithms := [.ES256], nonempty := by decide }

def ecAnswers : Answers :=
  { testAnswers with keySet := fun _ => .ok ⟨200, "200 OK".toList, .ok (readSet [ecKey])⟩ }

def ecCall : TokenCall := ⟨0, ecAnswers, 1, ecAnswers, 2, 1700000000⟩

/-- The authenticator is created for ES256, and refuses the token that the issuer's key signed. -/
theorem oidc_refuses_es256 :
    Documented ecLib ecBasis ∧
    OidcAuthenticator.new "https://issuer.example".toList "proxy".toList "email".toList []
      "groups".toList [] ["ES256".toList] (.ok ()) = .ok ecAuth ∧
    UniqueUnder [ecKey] "test".toList ecKey ∧
    PublicKeyOf ecLib (fun x y => some (x, y)) ecKey ecPoint .ES256 ∧
    Serves ecLib ecAuth none ecCall "test".toList (readSet [ecKey]) ∧
    ValidToken ecLib ecBasis ecAuth ecCall .ES256 "test".toList ecPoint ecToken namedClaims ∧
    ¬∃ identity, (authenticateToken ecLib ecAuth none ecCall ecToken).1 = .ok (some identity) := by
  have hdoc : Documented ecLib ecBasis := ofBasis_documented ecBasis _ _
  have hserves : Serves ecLib ecAuth none ecCall "test".toList (readSet [ecKey]) :=
    ⟨fun _ h => by contradiction, rfl, rfl⟩
  have hvalid : ValidToken ecLib ecBasis ecAuth ecCall .ES256 "test".toList ecPoint ecToken
      namedClaims :=
    { header := if_pos rfl
      signed := by simp [ecBasis]
      payload := if_pos rfl
      unexpired := ⟨4000000000, rfl, by decide⟩
      issuer := by simp [show namedClaims.namesUnder issClaim = some [ecAuth.issuer] from rfl]
      audience := by simp [show namedClaims.namesUnder audClaim = some [ecAuth.clientId] from rfl]
      username := ⟨"alice".toList, rfl⟩ }
  have hdropped : (Jwks.ofSet ecLib (readSet [ecKey])).get "test".toList = none := rfl
  refine ⟨hdoc, rfl, unique_single rfl, .ec (by decide) rfl rfl rfl rfl rfl, hserves, hvalid, ?_⟩
  have haccepted := accepted_iff_kept hdoc hserves (by decide) hvalid fun other hother => by
    rw [hdropped] at hother
    contradiction
  rw [haccepted, hdropped]
  simp

end KubeRbacProxy
