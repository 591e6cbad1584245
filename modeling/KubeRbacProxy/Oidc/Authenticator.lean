import KubeRbacProxy.Kube.Client
import KubeRbacProxy.Library.Jwt
import KubeRbacProxy.Authn

/-! The OIDC authenticator: the issuer's signing keys and their cache, and the identity of a token.
Times of the cache are in nanoseconds, those of tokens in seconds since the epoch. -/

namespace KubeRbacProxy

open Library

structure OidcAuthenticator where
  /-- The issuer, without slashes at its end. -/
  issuer : Text
  clientId : Text
  usernameClaim : Text
  usernamePrefix : Text
  groupsClaim : Text
  groupsPrefix : Text
  algorithms : List Jwt.Algorithm
  trimmed : trimEndMatches '/' issuer = issuer
  nonempty : algorithms ≠ []

def signingAlgorithm (value : Text) : Except Text Jwt.Algorithm :=
  if value = "RS256".toList then .ok .RS256
  else if value = "RS384".toList then .ok .RS384
  else if value = "RS512".toList then .ok .RS512
  else if value = "ES256".toList then .ok .ES256
  else if value = "ES384".toList then .ok .ES384
  else .error ("unsupported OIDC signing algorithm ".toList ++ value)

/-- `buildClient` is the outcome of reading the CA file and building the HTTP client. -/
def OidcAuthenticator.new (issuer clientId usernameClaim usernamePrefix groupsClaim
    groupsPrefix : Text) (algorithms : List Text) (buildClient : Except Text Unit) :
    Except Text OidcAuthenticator :=
  match algorithms.mapM signingAlgorithm with
  | .error e => .error e
  | .ok algorithms =>
    if h : algorithms = [] then .error "at least one OIDC signing algorithm is required".toList
    else
      match buildClient with
      | .error e => .error e
      | .ok () => .ok ⟨trimEndMatches '/' issuer, clientId, usernameClaim, usernamePrefix,
          groupsClaim, groupsPrefix, algorithms, List.rdropWhile_idempotent _ issuer, h⟩

/-! ### Signing keys -/

structure Discovery where
  jwksUri : Text

structure Jwk where
  kid : Option Text
  kty : Text
  n : Option Text
  e : Option Text

structure JwkSet where
  keys : List Jwk

/-- Keys by their ids, each made from the components of an RSA key; the last of an id counts. -/
structure Jwks (lib : Jwt) where
  keys : List (Text × lib.Key)
  rsa : ∀ entry ∈ keys, ∃ n e, lib.fromRsaComponents n e = some entry.2

def Jwks.get {lib : Jwt} (jwks : Jwks lib) (kid : Text) : Option lib.Key :=
  jwks.keys.reverse.lookup kid

def Jwks.containsKey {lib : Jwt} (jwks : Jwks lib) (kid : Text) : Bool := (jwks.get kid).isSome

def decodingKey (lib : Jwt) (key : Jwk) : Option (Text × lib.Key) :=
  if key.kty ≠ "RSA".toList then none
  else do
    let kid ← key.kid
    let n ← key.n
    let e ← key.e
    let decoding ← lib.fromRsaComponents n e
    some (kid, decoding)

theorem decodingKey_eq_some {lib : Jwt} {key : Jwk} {entry : Text × lib.Key} :
    decodingKey lib key = some entry ↔ key.kty = "RSA".toList ∧ key.kid = some entry.1 ∧
      ∃ n e, key.n = some n ∧ key.e = some e ∧ lib.fromRsaComponents n e = some entry.2 := by
  obtain ⟨kid, decoding⟩ := entry
  unfold decodingKey
  split
  · rename_i hkty
    exact iff_of_false (by simp) fun h => hkty h.1
  · rename_i hkty
    simp only [Option.bind_eq_bind, Option.bind_eq_some_iff, Option.some.injEq, Prod.mk.injEq]
    constructor
    · rintro ⟨_, hkid, n, hn, e, he, _, hdecoding, rfl, rfl⟩
      exact ⟨not_not.mp hkty, hkid, n, e, hn, he, hdecoding⟩
    · rintro ⟨-, hkid, n, e, hn, he, hdecoding⟩
      exact ⟨kid, hkid, n, hn, e, he, decoding, hdecoding, rfl, rfl⟩

theorem decodingKey_rsa {lib : Jwt} {key : Jwk} {entry : Text × lib.Key}
    (h : decodingKey lib key = some entry) : ∃ n e, lib.fromRsaComponents n e = some entry.2 := by
  obtain ⟨-, -, n, e, -, -, hcomponents⟩ := decodingKey_eq_some.mp h
  exact ⟨n, e, hcomponents⟩

def Jwks.ofSet (lib : Jwt) (set : JwkSet) : Jwks lib where
  keys := set.keys.filterMap (decodingKey lib)
  rsa entry hentry := by
    obtain ⟨key, -, hkey⟩ := List.mem_filterMap.mp hentry
    exact decodingKey_rsa hkey

theorem Jwks.get_mem {lib : Jwt} {jwks : Jwks lib} {kid : Text} {key : lib.Key}
    (h : jwks.get kid = some key) : (kid, key) ∈ jwks.keys := by
  obtain ⟨before, after, hkeys, -⟩ := List.lookup_eq_some_iff.mp h
  rw [← List.mem_reverse, hkeys]
  simp

theorem Jwks.get_rsa {lib : Jwt} {jwks : Jwks lib} {kid : Text} {key : lib.Key}
    (h : jwks.get kid = some key) : ∃ n e, lib.fromRsaComponents n e = some key :=
  jwks.rsa (kid, key) (Jwks.get_mem h)

/-- The body of the answer to a request for `url`: a status of 400 or more is an error. -/
def getJson {Body : Type} (url : Text) (answer : Except Text (Response Body)) : Except Text Body :=
  match answer with
  | .error e => .error e
  | .ok response =>
    if 400 ≤ response.status ∧ response.status < 500 then
      .error ("HTTP status client error (".toList ++ response.statusText ++ ") for url (".toList ++
        url ++ ")".toList)
    else if response.isServerError then
      .error ("HTTP status server error (".toList ++ response.statusText ++ ") for url (".toList ++
        url ++ ")".toList)
    else response.json

structure Answers where
  discovery : Text → Except Text (Response Discovery)
  keySet : Text → Except Text (Response JwkSet)

def fetchKeys (lib : Jwt) (auth : OidcAuthenticator) (answers : Answers) :
    Except Text (Jwks lib) :=
  let url := auth.issuer ++ "/.well-known/openid-configuration".toList
  match getJson url (answers.discovery url) with
  | .error e => .error e
  | .ok discovery =>
    (getJson discovery.jwksUri (answers.keySet discovery.jwksUri)).map (Jwks.ofSet lib)

abbrev KeyCache (lib : Jwt) := Option (Nat × Jwks lib)

def keysTtl : Nat := 3600 * 10 ^ 9

def KeyCache.fresh {lib : Jwt} (cache : KeyCache lib) (now : Nat) : Option (Jwks lib) :=
  match cache with
  | some (time, keys) => if now - time < keysTtl then some keys else none
  | none => none

/-- `jwks`, at `now`: the cached keys, or those that `answers` serve, stored at `later`. -/
def jwks (lib : Jwt) (auth : OidcAuthenticator) (force : Bool) (cache : KeyCache lib) (now : Nat)
    (answers : Answers) (later : Nat) : Except Text (Jwks lib) × KeyCache lib :=
  match if force then none else cache.fresh now with
  | some keys => (.ok keys, cache)
  | none =>
    match fetchKeys lib auth answers with
    | .error e => (.error e, cache)
    | .ok keys => (.ok keys, some (later, keys))

/-! ### Tokens -/

def splitWhitespace (t : Text) : List Text := (t.splitOnP isWhitespace).filter (· ≠ [])

def oidcGroups (auth : OidcAuthenticator) (claims : Json) : List Text :=
  match claims.get auth.groupsClaim with
  | some (.array values) => (values.filterMap Json.asStr).map (auth.groupsPrefix ++ ·)
  | some (.string value) => (splitWhitespace value).map (auth.groupsPrefix ++ ·)
  | _ => []

def oidcIdentity (auth : OidcAuthenticator) (claims : Json) : Except Text Identity :=
  match (claims.get auth.usernameClaim).bind Json.asStr with
  | none => .error "OIDC username claim is missing or not a string".toList
  | some username => .ok ⟨auth.usernamePrefix ++ username, oidcGroups auth claims⟩

/-- The claims required stay the default ones: the expiry alone. -/
def oidcValidation (auth : OidcAuthenticator) (alg : Jwt.Algorithm) : Jwt.Validation :=
  ((Jwt.Validation.new alg).setAudience [auth.clientId]).setIssuer [auth.issuer]

/-- What one call meets: the clock when the cached keys are read, the answers to its two possible
fetches and the times their keys are stored, and the clock when the token is decoded. -/
structure TokenCall where
  now : Nat
  first : Answers
  firstStored : Nat
  second : Answers
  secondStored : Nat
  decodedAt : Nat

def signingKeys (lib : Jwt) (auth : OidcAuthenticator) (cache : KeyCache lib) (call : TokenCall)
    (kid : Text) : Except Text (Jwks lib) × KeyCache lib :=
  match jwks lib auth false cache call.now call.first call.firstStored with
  | (.error e, cache) => (.error e, cache)
  | (.ok keys, cache) =>
    if keys.containsKey kid then (.ok keys, cache)
    else jwks lib auth true cache call.now call.second call.secondStored

/-- `authenticate_token` with no other call between its steps. -/
def authenticateToken (lib : Jwt) (auth : OidcAuthenticator) (cache : KeyCache lib)
    (call : TokenCall) (token : Text) : Except Text (Option Identity) × KeyCache lib :=
  match lib.decodeHeader token with
  | .error _ => (.error "invalid OIDC token header".toList, cache)
  | .ok header =>
    if header.alg ∉ auth.algorithms then (.ok none, cache)
    else
      match header.kid with
      | none => (.error "OIDC token has no key id".toList, cache)
      | some kid =>
        match signingKeys lib auth cache call kid with
        | (.error e, cache) => (.error e, cache)
        | (.ok keys, cache) =>
          match keys.get kid with
          | none => (.ok none, cache)
          | some key =>
            match lib.decode token key (oidcValidation auth header.alg) call.decodedAt with
            | .error e => (.error e, cache)
            | .ok claims => ((oidcIdentity auth claims).map some, cache)

/-- `OidcAuthenticator::authenticate`. -/
def oidcAuthenticate (lib : Jwt) (auth : OidcAuthenticator) (cache : KeyCache lib)
    (call : TokenCall) (request : Request) : Except Text (Option Identity) × KeyCache lib :=
  match bearerToken request with
  | none => (.ok none, cache)
  | some token => authenticateToken lib auth cache call token

end KubeRbacProxy
