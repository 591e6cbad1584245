import KubeRbacProxy.Main.Validate
import KubeRbacProxy.Oidc.Completeness

/-! The identity that a valid token is given.  The issuer of the arguments loses the slashes at its
end before the tokens are compared with it, while a token names its issuer as it is; and a signature
is tried with the key that the token's key id has among the keys consulted. -/

namespace KubeRbacProxy

open Library Jwt

/-- The groups of a claim: the texts of a list, the words of a text, or none. -/
inductive MappedGroups (groupsPrefix : Text) : Option Json → List Text → Prop
  | array (values : List Json) : MappedGroups groupsPrefix (some (.array values))
      ((values.filterMap Json.asStr).map (groupsPrefix ++ ·))
  | words (value : Text) : MappedGroups groupsPrefix (some (.string value))
      ((splitWhitespace value).map (groupsPrefix ++ ·))
  | other {claim : Option Json} (array : ∀ values, claim ≠ some (.array values))
      (text : ∀ value, claim ≠ some (.string value)) : MappedGroups groupsPrefix claim []

theorem mappedGroups_iff {auth : OidcAuthenticator} {claims : Json} {groups : List Text} :
    MappedGroups auth.groupsPrefix (claims.get auth.groupsClaim) groups ↔
      groups = oidcGroups auth claims := by
  unfold oidcGroups
  constructor
  · intro h
    generalize claims.get auth.groupsClaim = claim at h ⊢
    cases h with
    | array values => rfl
    | words value => rfl
    | other array text =>
      split
      · exact absurd rfl (array _)
      · exact absurd rfl (text _)
      · rfl
  · rintro rfl
    generalize claims.get auth.groupsClaim = claim
    split
    · exact .array _
    · exact .words _
    · rename_i harray htext
      exact .other (fun values h => harray values h) (fun value h => htext value h)

theorem trimEndMatches_eq_self_iff {c : Char} {t : Text} :
    trimEndMatches c t = t ↔ t.getLast? ≠ some c := by
  rw [trimEndMatches, List.rdropWhile_eq_self_iff]
  rcases List.eq_nil_or_concat' t with rfl | ⟨front, last, rfl⟩
  · simp
  · simp

theorem configuredOidc_ok {args : Args} {buildClient : Option Text → Except Text Unit}
    {auth : OidcAuthenticator} (h : configuredOidc args buildClient = .ok (some auth)) :
    ∃ issuer, args.oidcIssuer = some issuer ∧ Configured issuer (args.oidcClientId.getD [])
      args.oidcUsernameClaim args.oidcUsernamePrefix args.oidcGroupsClaim args.oidcGroupsPrefix
      args.oidcSignAlg auth := by
  unfold configuredOidc at h
  cases hissuer : args.oidcIssuer with
  | none => simp [hissuer] at h
  | some issuer =>
    simp only [hissuer] at h
    cases hnew : OidcAuthenticator.new issuer (args.oidcClientId.getD []) args.oidcUsernameClaim
      args.oidcUsernamePrefix args.oidcGroupsClaim args.oidcGroupsPrefix args.oidcSignAlg
      (buildClient args.oidcCaFile) with
    | error e => simp [hnew, Except.map] at h
    | ok created =>
      obtain rfl : created = auth := by simpa [hnew, Except.map] using h
      exact ⟨issuer, rfl, new_ok hnew⟩

/-- An unexpired token of a configured algorithm that names the issuer, the client, and the user of
valid arguments is given the mapped identity exactly when the issuer has no slash at its end and the
token is signed by the key that the keys consulted have under its key id. -/
theorem oidc_identity_iff (lib : Jwt) (basis : Basis lib.Key) (hdoc : Documented lib basis)
    {parseUrl : Text → Except Text Url} {a : ProxyArgs} (hvalid : a.validate parseUrl = .ok ())
    {issuer : Text} (hissuer : a.oidcIssuer = some issuer)
    {buildClient : Option Text → Except Text Unit} {auth : OidcAuthenticator}
    (hauth : configuredOidc a.toArgs buildClient = .ok (some auth)) {cache : KeyCache lib}
    {call : TokenCall} {token : Text} {header : Header} {claims : Json}
    (hheader : lib.decodeHeader token = .ok header) (halg : header.alg ∈ auth.algorithms)
    (hpayload : basis.payload token = some claims)
    (hunexpired : ∃ exp, basis.timeUnder expClaim claims = some exp ∧ call.decodedAt ≤ exp + 60)
    (hiss : claims.get issClaim = some (.string issuer))
    (haud : ∀ clientId, a.oidcClientId = some clientId → Names claims audClaim clientId)
    {name : Text} (hname : claims.get a.oidcUsernameClaim = some (.string name)) :
    (∃ groups, MappedGroups a.oidcGroupsPrefix (claims.get a.oidcGroupsClaim) groups ∧
      (authenticateToken lib auth cache call token).1 =
        .ok (some ⟨a.oidcUsernamePrefix ++ name, groups⟩)) ↔
      issuer.getLast? ≠ some '/' ∧ ∃ kid keys key, header.kid = some kid ∧
        Consulted lib auth cache call kid keys ∧ keys.get kid = some key ∧
        basis.verifies token key header.alg = true := by
  obtain ⟨issuer', hissuer', hconf⟩ := configuredOidc_ok hauth
  obtain rfl : issuer = issuer' := Option.some.inj (hissuer.symm.trans hissuer')
  obtain ⟨clientId, hclient⟩ := Option.ne_none_iff_exists'.mp
    (((validate_ok_iff parseUrl).mp hvalid).oidc issuer hissuer).1
  have hnames : claims.namesUnder issClaim = some [issuer] := by simp [Json.namesUnder, hiss]
  rw [← trimEndMatches_eq_self_iff, ← hconf.issuer]
  constructor
  · rintro ⟨groups, -, haccepted⟩
    obtain ⟨found, hpasses⟩ := passesOtherwise_of_accepted hdoc haccepted
    obtain rfl := Option.some.inj (hpayload.symm.trans hpasses.vouched.payload)
    obtain ⟨header', kid, keys, key, hheader', -, hkid, hkeys, hkey, -, hverifies⟩ :=
      hpasses.vouched.signed
    obtain rfl := Except.ok.inj (hheader.symm.trans hheader')
    exact ⟨List.mem_singleton.mp (hpasses.issuer _ hnames), kid, keys, key, hkid, hkeys, hkey,
      hverifies⟩
  · rintro ⟨hsame, kid, keys, key, hkid, hkeys, hkey, hverifies⟩
    have hsigned : SignedByIssuer lib basis auth cache call token :=
      ⟨header, kid, keys, key, hheader, halg, hkid, hkeys, hkey, Jwks.get_rsa hkey, hverifies⟩
    have hpasses : PassesOtherwise lib basis auth cache call token claims :=
      { vouched := ⟨hsigned, hpayload, hunexpired⟩
        issuer := by
          intro names h
          obtain rfl := Option.some.inj (hnames.symm.trans h)
          exact List.mem_singleton.mpr hsame
        audience := by
          intro names h
          obtain ⟨found, hfound, hmem⟩ := haud clientId hclient
          obtain rfl := Option.some.inj (hfound.symm.trans h)
          rwa [hconf.clientId, hclient]
        username := ⟨name, by rwa [hconf.usernameClaim]⟩ }
    refine ⟨oidcGroups auth claims, ?_, ?_⟩
    · rw [← hconf.groupsPrefix, ← hconf.groupsClaim]
      exact mappedGroups_iff.mpr rfl
    · rw [← hconf.usernamePrefix]
      exact identity_of_passesOtherwise hdoc hpasses (by rwa [hconf.usernameClaim])

/-! ### An issuer with a slash at its end -/

/-- The URLs of the examples, read as such. -/
def exampleUrl : Text → Except Text Url := fun t =>
  if t = "http://127.0.0.1:8080".toList then .ok ⟨"http".toList, some "127.0.0.1".toList⟩
  else if t = "https://issuer.example".toList ∨ t = "https://issuer.example/".toList then
    .ok ⟨"https".toList, some "issuer.example".toList⟩
  else .error "relative URL without a base".toList

theorem value_zero : binary32.Value 0 := ⟨0, 0, by decide, by decide, by decide, by norm_num⟩

def issuerArgs (issuer : Text) : ProxyArgs where
  oidcIssuer := some issuer
  oidcClientId := some "proxy".toList
  upstream := "http://127.0.0.1:8080".toList
  insecureListenAddress := some "127.0.0.1:8000".toList
  kubeApiQps := .finite 0 value_zero

theorem oidc_identity_named : ∃ groups, MappedGroups [] (namedClaims.get "groups".toList) groups ∧
    (authenticateToken (testLib namedToken namedClaims) testAuth none testCall namedToken).1 =
      .ok (some ⟨[] ++ "alice".toList, groups⟩) := by
  have hvalid : (issuerArgs "https://issuer.example".toList).validate exampleUrl = .ok () := by
    decide +kernel
  have hauth : configuredOidc (issuerArgs "https://issuer.example".toList).toArgs
      (fun _ => .ok ()) = .ok (some testAuth) := rfl
  have haud : ∀ clientId, some "proxy".toList = some clientId →
      Names namedClaims audClaim clientId := by
    rintro _ ⟨⟩
    exact ⟨["proxy".toList], rfl, List.mem_singleton_self _⟩
  obtain ⟨header, kid, keys, key, hheader, halg, hkid, hkeys, hkey, -, hverifies⟩ :=
    testLib_signed namedToken namedClaims
  exact (oidc_identity_iff _ _ (testLib_documented namedToken namedClaims) hvalid rfl hauth hheader
    halg (if_pos rfl) ⟨4000000000, rfl, by decide⟩ rfl haud rfl).mpr
    ⟨by decide, kid, keys, key, hkid, hkeys, hkey, hverifies⟩

/-- A token of the issuer `https://issuer.example/` that the test key signed. -/
@[irreducible] def slashToken : Text :=
  ("eyJhbGciOiJSUzI1NiIsImtpZCI6InRlc3QifQ." ++
    "eyJpc3MiOiJodHRwczovL2lzc3Vlci5leGFtcGxlLyIsImF1ZCI6InByb3h5IiwiZW1haWwiOiJhbGljZSIsImV4" ++
    "cCI6NDAwMDAwMDAwMH0." ++
    "E9OAhOlQcBPDM7kTC-Q-lBleMZuKBLkeyyzuxuF1czpFPvit5qsq0bh_aPau8RXt2S3Fo0I4pf9Sl8xHMh9ML71Z" ++
    "JvaGhNHHF_e7ody38XpZ51WolDEktYc3fgr_G2VYu3Yq_A14SA4IyLF5LVAOfabp566ItdzwqFVoSnMtErKF5CA_" ++
    "X8FCgngKHV0wqG3p1EWpgh4Plr9qFKHR54u6sODT42WWLKBD0YyWLkGDj3HUhlXsS5tOzzuyf-IBInAokrT128b-" ++
    "BouX6BAul8o3pKxxTd2yysKxajbQS3JnAbStfeCVK5ziM0NxvuI0qimnfBbAKqZFAaFtS4_X6iij6w").toList

def slashClaims : Json := .object
  [(issClaim, .string "https://issuer.example/".toList), (audClaim, .string "proxy".toList),
    ("email".toList, .string "alice".toList), (expClaim, .number "4000000000".toList)]

/-- The token names the issuer of the arguments, and is refused. -/
theorem oidc_identity_slash :
    (issuerArgs "https://issuer.example/".toList).validate exampleUrl = .ok () ∧
    configuredOidc (issuerArgs "https://issuer.example/".toList).toArgs (fun _ => .ok ()) =
      .ok (some testAuth) ∧
    Documented (testLib slashToken slashClaims) (testBasis slashToken slashClaims) ∧
    Vouched (testLib slashToken slashClaims) (testBasis slashToken slashClaims) testAuth none
      testCall slashToken slashClaims ∧
    slashClaims.get issClaim = some (.string "https://issuer.example/".toList) ∧
    Names slashClaims audClaim "proxy".toList ∧
    slashClaims.get "email".toList = some (.string "alice".toList) ∧
    ¬∃ identity, (authenticateToken (testLib slashToken slashClaims) testAuth none testCall
      slashToken).1 = .ok (some identity) := by
  have hdoc := testLib_documented slashToken slashClaims
  have hpayload : (testBasis slashToken slashClaims).payload slashToken = some slashClaims :=
    if_pos rfl
  have hnames : slashClaims.namesUnder issClaim = some ["https://issuer.example/".toList] := rfl
  have hvalid : (issuerArgs "https://issuer.example/".toList).validate exampleUrl = .ok () := by
    decide +kernel
  have hauth : configuredOidc (issuerArgs "https://issuer.example/".toList).toArgs
      (fun _ => .ok ()) = .ok (some testAuth) := rfl
  have hvouched : Vouched (testLib slashToken slashClaims) (testBasis slashToken slashClaims)
      testAuth none testCall slashToken slashClaims :=
    ⟨testLib_signed slashToken slashClaims, hpayload, 4000000000, rfl, by decide⟩
  refine ⟨hvalid, hauth, hdoc, hvouched, rfl, ⟨["proxy".toList], rfl, List.mem_singleton_self _⟩,
    rfl, ?_⟩
  rintro ⟨identity, haccepted⟩
  obtain ⟨found, hpasses⟩ := passesOtherwise_of_accepted hdoc haccepted
  obtain rfl := Option.some.inj (hpayload.symm.trans hpasses.vouched.payload)
  have hne : testAuth.issuer ≠ "https://issuer.example/".toList := by decide
  exact hne (List.mem_singleton.mp (hpasses.issuer _ hnames))

end KubeRbacProxy
