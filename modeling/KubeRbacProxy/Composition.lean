import KubeRbacProxy.Kube.TokenCache
import KubeRbacProxy.Main
import KubeRbacProxy.Oidc.Acceptance

/-! Whether the authenticators of `main` compose.  The certificate authenticator never fails, and
the token authenticator does not while the API server answers.  The OIDC authenticator fails on the
tokens that are not its own to read, and then those after it are not asked. -/

namespace KubeRbacProxy

open Library

variable {lib : Jwt}

/-! ### What each authenticator answers alone -/

def IssuerReachable (lib : Jwt) (auth : OidcAuthenticator) (call : TokenCall) : Prop :=
  (∃ keys, fetchKeys lib auth call.first = .ok keys) ∧
    ∃ keys, fetchKeys lib auth call.second = .ok keys

/-- The OIDC authenticator can tell whether the token is one of its own, and reads the identity of
those that are: the header decodes, and where its algorithm is configured there is a key id, and
where the issuer has a key of that id the token decodes under it and its user is a text. -/
def Classified (lib : Jwt) (auth : OidcAuthenticator) (cache : KeyCache lib) (call : TokenCall)
    (token : Text) : Prop :=
  ∃ header, lib.decodeHeader token = .ok header ∧
    (header.alg ∈ auth.algorithms → ∃ kid, header.kid = some kid ∧
      ∀ keys, Consulted lib auth cache call kid keys → ∀ key, keys.get kid = some key →
        ∃ claims name,
          lib.decode token key (oidcValidation auth header.alg) call.decodedAt = .ok claims ∧
          claims.get auth.usernameClaim = some (.string name))

theorem certAuthenticate_ok (usernamePrefix : Text) (request : Request) :
    certAuthenticate usernamePrefix request =
      .ok (((request.headers.get certIdentity).bind namedBy).map fun name =>
        ⟨usernamePrefix ++ name, []⟩) := by
  unfold certAuthenticate
  cases (request.headers.get certIdentity).bind namedBy <;> rfl

theorem tokenAlone_ok {args : Args} {s : Surroundings lib} {request : Request}
    (hserver : ∀ token, bearerToken request = some token →
      ¬ReviewFails (s.post (tokenReviewBody token args.authTokenAudiences))) :
    ∃ found, tokenAlone args s request = .ok found := by
  unfold tokenAlone tokenAuthenticate
  cases hbearer : bearerToken request with
  | none => exact ⟨none, rfl⟩
  | some token =>
    cases hfresh : s.tokenCache.fresh cacheTtl s.now token with
    | some result => exact ⟨result, by simp only [hfresh]⟩
    | none =>
      obtain ⟨hfails, -⟩ | ⟨-, result, -, -, -, hreview⟩ :=
        tokenReview_cases (s.post (tokenReviewBody token args.authTokenAudiences))
      · exact absurd hfails (hserver token hbearer)
      · exact ⟨tokenIdentity result, by simp only [hfresh, hreview]⟩

theorem jwks_reachable {auth : OidcAuthenticator} (force : Bool) (cache : KeyCache lib)
    (now : Nat) {answers : Answers} (later : Nat)
    (h : ∃ keys, fetchKeys lib auth answers = .ok keys) :
    ∃ keys, (jwks lib auth force cache now answers later).1 = .ok keys := by
  obtain ⟨keys, hkeys⟩ := h
  unfold jwks
  split
  · rename_i cached _
    exact ⟨cached, rfl⟩
  · exact ⟨keys, by rw [hkeys]⟩

theorem signingKeys_reachable {auth : OidcAuthenticator} (cache : KeyCache lib) {call : TokenCall}
    (h : IssuerReachable lib auth call) (kid : Text) :
    ∃ keys, (signingKeys lib auth cache call kid).1 = .ok keys := by
  obtain ⟨hfirst, hsecond⟩ := h
  obtain ⟨found, hfound⟩ := jwks_reachable false cache call.now call.firstStored hfirst
  unfold signingKeys
  rcases hjwks : jwks lib auth false cache call.now call.first call.firstStored with
    ⟨result, cache'⟩
  rw [hjwks] at hfound
  obtain rfl := hfound
  dsimp only
  split
  · exact ⟨found, rfl⟩
  · exact jwks_reachable true _ call.now call.secondStored hsecond

theorem authenticateToken_ok_iff {auth : OidcAuthenticator} {cache : KeyCache lib}
    {call : TokenCall} {token : Text} (hissuer : IssuerReachable lib auth call) :
    (∃ found, (authenticateToken lib auth cache call token).1 = .ok found) ↔
      Classified lib auth cache call token := by
  unfold authenticateToken Classified
  cases lib.decodeHeader token with
  | error e => simp
  | ok header =>
    simp only [Except.ok.injEq, exists_eq_left']
    by_cases halg : header.alg ∈ auth.algorithms
    · rw [if_neg (not_not.mpr halg)]
      cases header.kid with
      | none => simp [halg]
      | some kid =>
        simp only [halg, true_implies, Option.some.injEq, exists_eq_left']
        obtain ⟨keys, hkeys⟩ := signingKeys_reachable cache hissuer kid
        -- while the issuer answers there is one set of keys to consult
        have hconsulted : ∀ other, Consulted lib auth cache call kid other ↔ other = keys := by
          intro other
          rw [← signingKeys_ok, hkeys, Except.ok.injEq, eq_comm]
        simp only [hconsulted, forall_eq]
        rcases hpair : signingKeys lib auth cache call kid with ⟨result, cache'⟩
        rw [hpair] at hkeys
        obtain rfl := hkeys
        dsimp only
        cases keys.get kid with
        | none => simp
        | some key =>
          simp only [Option.some.injEq, forall_eq']
          cases lib.decode token key (oidcValidation auth header.alg) call.decodedAt with
          | error e => simp
          | ok claims =>
            simp only [Except.ok.injEq]
            constructor
            · rintro ⟨found, hfound⟩
              cases hidentity : oidcIdentity auth claims with
              | error e => simp [hidentity, Except.map] at hfound
              | ok identity =>
                obtain ⟨name, hname, -⟩ := oidcIdentity_ok hidentity
                exact ⟨claims, name, rfl, hname⟩
            · rintro ⟨_, name, rfl, hname⟩
              rw [oidcIdentity_string hname]
              exact ⟨_, rfl⟩
    · simp [halg]

theorem oidcAlone_ok_iff {auth : OidcAuthenticator} {s : Surroundings lib} {request : Request}
    (hissuer : IssuerReachable lib auth s.call) :
    (∃ found, oidcAlone auth s request = .ok found) ↔
      bearerToken request = none ∨
        ∃ token, bearerToken request = some token ∧
          Classified lib auth s.keyCache s.call token := by
  unfold oidcAlone oidcAuthenticate
  cases bearerToken request with
  | none => simp
  | some token => simp [authenticateToken_ok_iff hissuer]

/-! ### The chain -/

def Certified (args : Args) (request : Request) : Prop :=
  args.clientCaFile.isSome = true ∧
    ((request.headers.get certIdentity).bind namedBy).isSome = true

section Chain

variable {args : Args} {kubeClient : Bool} {s : Surroundings lib} {request : Request}
  (hserver : ∀ token, bearerToken request = some token →
    ¬ReviewFails (s.post (tokenReviewBody token args.authTokenAudiences)))
include hserver

theorem tokenReviews_compose :
    Composes (if kubeClient then [tokenAlone args s] else []) request := by
  split
  · exact (composes_cons_iff_ok (composes_nil request)).mpr (tokenAlone_ok hserver)
  · exact composes_nil request

theorem authenticators_compose_iff {oidc : Option OidcAuthenticator} :
    Composes (authenticators args oidc kubeClient s) request ↔
      Certified args request ∨ ∀ auth, oidc = some auth →
        ∃ found, oidcAlone auth s request = .ok found := by
  have hafter : Composes ((oidc.toList.map fun auth => oidcAlone auth s) ++
        if kubeClient then [tokenAlone args s] else []) request ↔
      ∀ auth, oidc = some auth → ∃ found, oidcAlone auth s request = .ok found := by
    cases oidc with
    | none => simpa using tokenReviews_compose hserver
    | some auth =>
      simpa using composes_cons_iff_ok (a := oidcAlone auth s) (tokenReviews_compose hserver)
  -- a certificate that names the user ends the search before the others are asked
  rw [← hafter, authenticators, List.append_assoc, Certified]
  cases args.clientCaFile with
  | none => simp
  | some file =>
    simp only [Option.isSome_some, if_true, List.cons_append, List.nil_append, true_and,
      composes_cons, certAuthenticate_ok]
    cases (request.headers.get certIdentity).bind namedBy <;> simp

theorem authenticators_compose_iff_classified {oidc : Option OidcAuthenticator}
    (hissuer : ∀ auth, oidc = some auth → IssuerReachable lib auth s.call) :
    Composes (authenticators args oidc kubeClient s) request ↔
      ∀ auth, oidc = some auth → Certified args request ∨ bearerToken request = none ∨
        ∃ token, bearerToken request = some token ∧
          Classified lib auth s.keyCache s.call token := by
  rw [authenticators_compose_iff hserver]
  constructor
  · rintro (hcertified | hanswers) auth hauth
    · exact Or.inl hcertified
    · exact Or.inr ((oidcAlone_ok_iff (hissuer auth hauth)).mp (hanswers auth hauth))
  · intro hcases
    by_cases hcertified : Certified args request
    · exact Or.inl hcertified
    · refine Or.inr fun auth hauth => ?_
      apply (oidcAlone_ok_iff (hissuer auth hauth)).mpr
      exact (hcases auth hauth).resolve_left hcertified

/-- An OIDC authenticator that finds nothing is as good as none, in a chain that composes. -/
theorem authenticators_without {oidc : Option OidcAuthenticator}
    (hcomposes : Composes (authenticators args oidc kubeClient s) request)
    (hnothing : ∀ auth, oidc = some auth → (oidcAlone auth s).finds request = none) :
    authenticateChain (authenticators args oidc kubeClient s) request =
      authenticateChain (authenticators args none kubeClient s) request := by
  have hwithout : Composes (authenticators args none kubeClient s) request :=
    (authenticators_compose_iff hserver).mpr (Or.inr (by simp))
  rw [hcomposes, hwithout]
  cases oidc with
  | none => rfl
  | some auth =>
    simp only [authenticators, List.findSome?_append, Option.toList_some, Option.toList_none,
      List.map_cons, List.map_nil, List.findSome?_cons, List.findSome?_nil, hnothing auth rfl]

end Chain

theorem mainChain_ok {args : Args} {buildClient : Option Text → Except Text Unit}
    {kubeClient : Bool} {s : Surroundings lib} {chain : List Authenticator} :
    mainChain args buildClient kubeClient s = .ok chain ↔
      ∃ oidc, configuredOidc args buildClient = .ok oidc ∧
        authenticators args oidc kubeClient s = chain := by
  unfold mainChain
  cases configuredOidc args buildClient <;> simp [Except.map]

/-- With the issuer and the API server reachable, the chain that `main` builds finds what the first
of its authenticators to find anything finds alone, and OIDC where it finds nothing changes nothing,
exactly when there is no OIDC, or a client certificate names the user, or the request carries no
bearer token, or the OIDC authenticator can classify the token. -/
theorem mainChain_composes_iff (lib : Jwt) (args : Args)
    (buildClient : Option Text → Except Text Unit) (kubeClient : Bool) (s : Surroundings lib)
    (request : Request) (chain : List Authenticator)
    (hchain : mainChain args buildClient kubeClient s = .ok chain)
    (hissuer : ∀ auth, configuredOidc args buildClient = .ok (some auth) →
      IssuerReachable lib auth s.call)
    (hserver : ∀ token, bearerToken request = some token →
      ¬ReviewFails (s.post (tokenReviewBody token args.authTokenAudiences))) :
    (Composes chain request ∧
      ∀ without, mainChain { args with oidcIssuer := none } buildClient kubeClient s = .ok without →
        (∀ auth, configuredOidc args buildClient = .ok (some auth) →
          (oidcAlone auth s).finds request = none) →
        authenticateChain chain request = authenticateChain without request) ↔
    ∀ auth, configuredOidc args buildClient = .ok (some auth) →
      Certified args request ∨ bearerToken request = none ∨
        ∃ token, bearerToken request = some token ∧
          Classified lib auth s.keyCache s.call token := by
  obtain ⟨oidc, hoidc, rfl⟩ := mainChain_ok.mp hchain
  have hwithout : mainChain { args with oidcIssuer := none } buildClient kubeClient s =
      .ok (authenticators args none kubeClient s) := rfl
  simp only [hwithout, hoidc, Except.ok.injEq] at hissuer ⊢
  rw [← authenticators_compose_iff_classified hserver hissuer]
  constructor
  · rintro ⟨hcomposes, -⟩
    exact hcomposes
  · intro hcomposes
    refine ⟨hcomposes, ?_⟩
    rintro without rfl hnothing
    exact authenticators_without hserver hcomposes hnothing

/-! ### Tokens that only the API server knows -/

/-- A token whose algorithm is ES256, without a key id. -/
def foreignToken : Text := "eyJhbGciOiJFUzI1NiJ9.e30.c2ln".toList

def foreignLib : Jwt where
  Key := Unit
  fromRsaComponents _ _ := none
  decodeHeader token :=
    if token = foreignToken then .ok ⟨.ES256, none⟩ else .error "InvalidToken".toList
  decode _ _ _ _ := .error "InvalidToken".toList

def oidcArgs : Args where
  oidcIssuer := some "https://issuer.example".toList
  oidcClientId := some "proxy".toList

theorem configuredOidc_oidcArgs : configuredOidc oidcArgs (fun _ => .ok ()) = .ok (some testAuth) :=
  rfl

def emptyAnswers : Answers where
  discovery _ := .ok ⟨200, "200 OK".toList, .ok ⟨"https://issuer.example/keys".toList⟩⟩
  keySet _ := .ok ⟨200, "200 OK".toList, .ok ⟨[]⟩⟩

/-- The API server knows every token as that of one service account. -/
def podSurroundings : Surroundings foreignLib where
  keyCache := none
  call := ⟨0, emptyAnswers, 1, emptyAnswers, 2, 1700000000⟩
  tokenCache _ := none
  now := 0
  post _ := reviewOf podUser
  later := 1

def bearing (token : Text) : Request where
  method := "GET".toList
  path := "/".toList
  query := none
  headers := [(authorization, encodeUtf8 ("Bearer ".toList ++ token))]

theorem podSurroundings_issuer (auth : OidcAuthenticator) :
    IssuerReachable foreignLib auth podSurroundings.call :=
  ⟨⟨Jwks.ofSet foreignLib ⟨[]⟩, rfl⟩, ⟨Jwks.ofSet foreignLib ⟨[]⟩, rfl⟩⟩

theorem podSurroundings_server (body : ReviewBody TokenSpec) :
    ¬ReviewFails (podSurroundings.post body) := by
  rintro (h | ⟨e, h⟩)
  · revert h
    decide
  · contradiction

theorem mainChain_oidcArgs : mainChain oidcArgs (fun _ => .ok ()) true podSurroundings =
    .ok (authenticators oidcArgs (some testAuth) true podSurroundings) := by
  rw [mainChain, configuredOidc_oidcArgs]
  rfl

theorem bearerToken_foreign : bearerToken (bearing foreignToken) = some foreignToken := by
  decide +kernel

theorem decodeHeader_foreign : foreignLib.decodeHeader foreignToken = .ok ⟨.ES256, none⟩ := by
  show (if foreignToken = foreignToken then Except.ok (Jwt.Header.mk .ES256 none)
    else .error "InvalidToken".toList) = _
  rw [if_pos rfl]

theorem mainChain_composes_foreign : ∃ chain,
    mainChain oidcArgs (fun _ => .ok ()) true podSurroundings = .ok chain ∧
      Composes chain (bearing foreignToken) ∧
      authenticateChain chain (bearing foreignToken) = .ok (some podUser) := by
  refine ⟨_, mainChain_oidcArgs, ?_, by decide +kernel⟩
  refine ((mainChain_composes_iff foreignLib oidcArgs (fun _ => .ok ()) true podSurroundings
    (bearing foreignToken) _ mainChain_oidcArgs (fun auth _ => podSurroundings_issuer auth)
    fun token _ => podSurroundings_server _).mpr ?_).1
  intro auth hauth
  obtain rfl : testAuth = auth :=
    Option.some.inj (Except.ok.inj (configuredOidc_oidcArgs.symm.trans hauth))
  have hforeign : Jwt.Algorithm.ES256 ∉ testAuth.algorithms := by decide
  exact Or.inr (Or.inr ⟨foreignToken, bearerToken_foreign, _, decodeHeader_foreign,
    fun h => absurd h hforeign⟩)

/-- A token that is no JWT fails the chain, though the API server knows its user. -/
theorem mainChain_opaque : ∃ chain,
    mainChain oidcArgs (fun _ => .ok ()) true podSurroundings = .ok chain ∧
      (∀ auth, IssuerReachable foreignLib auth podSurroundings.call) ∧
      (∀ body, ¬ReviewFails (podSurroundings.post body)) ∧
      (tokenAlone oidcArgs podSurroundings).finds (bearing "opaque".toList) = some podUser ∧
      authenticateChain chain (bearing "opaque".toList) =
        .error "invalid OIDC token header".toList ∧
      ¬Composes chain (bearing "opaque".toList) := by
  have hfails : authenticateChain (authenticators oidcArgs (some testAuth) true podSurroundings)
      (bearing "opaque".toList) = .error "invalid OIDC token header".toList := by
    decide +kernel
  refine ⟨_, mainChain_oidcArgs, podSurroundings_issuer, podSurroundings_server, by decide +kernel,
    hfails, ?_⟩
  intro hcomposes
  rw [Composes, hfails] at hcomposes
  contradiction

end KubeRbacProxy
