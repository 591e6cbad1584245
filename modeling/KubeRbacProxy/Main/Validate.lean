import KubeRbacProxy.Library.Except
import KubeRbacProxy.Library.Float
import KubeRbacProxy.Main
import KubeRbacProxy.Tls

/-! The check of the arguments before `main` starts anything.  Checks are made in order and the
first that fails gives the error; `Valid` says what arguments pass all of them. -/

namespace KubeRbacProxy

open Library

structure Url where
  scheme : Text
  hostStr : Option Text

/-- The arguments, those of the authenticators included. -/
structure ProxyArgs extends Args where
  upstream : Text
  secureListenAddress : Option Text := none
  insecureListenAddress : Option Text := none
  proxyEndpointsPort : UInt16 := 0
  upstreamForceH2c : Bool := false
  upstreamClientCertFile : Option Text := none
  upstreamClientKeyFile : Option Text := none
  allowPaths : List Text := []
  ignorePaths : List Text := []
  authHeaderFieldsEnabled : Bool := false
  authHeaderUserFieldName : Text := "x-remote-user".toList
  authHeaderGroupsFieldName : Text := "x-remote-groups".toList
  tlsCertFile : Option Text := none
  tlsPrivateKeyFile : Option Text := none
  tlsMinVersion : Text := "VersionTLS12".toList
  tlsCipherSuites : List Text := []
  kubeApiQps : FloatNumber binary32
  kubeApiBurst : UInt32 := 0
  http2MaxConcurrentStreams : UInt32 := 100
  http2MaxSize : UInt32 := 256 * 1024
  workerThreads : Option Nat := none

def tlsCipherSuites : List Text :=
  ["TLS13_AES_128_GCM_SHA256".toList, "TLS13_AES_256_GCM_SHA384".toList,
    "TLS13_CHACHA20_POLY1305_SHA256".toList, "TLS_ECDHE_RSA_WITH_AES_128_GCM_SHA256".toList,
    "TLS_ECDHE_RSA_WITH_AES_256_GCM_SHA384".toList,
    "TLS_ECDHE_RSA_WITH_CHACHA20_POLY1305_SHA256".toList,
    "TLS_ECDHE_ECDSA_WITH_AES_128_GCM_SHA256".toList,
    "TLS_ECDHE_ECDSA_WITH_AES_256_GCM_SHA384".toList,
    "TLS_ECDHE_ECDSA_WITH_CHACHA20_POLY1305_SHA256".toList]

def supportedTlsCipherSuite (value : Text) : Bool := tlsCipherSuites.contains value

def check (bad : Prop) [Decidable bad] (message : String) : Except Text Unit :=
  if bad then .error message.toList else .ok ()

def checkCipher : Option Text → Except Text Unit
  | some cipher => .error ("unsupported TLS cipher suite: ".toList ++ cipher)
  | none => .ok ()

section Validate

variable (parseUrl : Text → Except Text Url)

def parseFlag (flag : String) (value : Text) : Except Text Url :=
  (parseUrl value).mapError fun e => "invalid ".toList ++ flag.toList ++ ": ".toList ++ e

def checkIssuer : Option Text → Except Text Unit
  | none => .ok ()
  | some issuer => do
    let parsed ← parseFlag parseUrl "--oidc-issuer" issuer
    check (parsed.scheme ≠ "https".toList) "--oidc-issuer must use HTTPS"

def ProxyArgs.validate (a : ProxyArgs) : Except Text Unit := do
  check (a.allowPaths ≠ [] ∧ a.ignorePaths ≠ [])
    "cannot use --allow-paths and --ignore-paths together"
  let upstream ← parseFlag parseUrl "--upstream" a.upstream
  check (upstream.scheme ∉ ["http".toList, "https".toList, "h2c".toList] ∨
      upstream.hostStr = none)
    "--upstream must be an HTTP, HTTPS, or h2c URL with a host"
  check (a.upstreamForceH2c = true ∧ upstream.scheme ∉ ["http".toList, "h2c".toList])
    "--upstream-force-h2c requires an HTTP upstream"
  check (a.upstreamClientCertFile.isSome ≠ a.upstreamClientKeyFile.isSome)
    "--upstream-client-cert-file and --upstream-client-key-file must be provided together"
  check (a.tlsCertFile.isSome ≠ a.tlsPrivateKeyFile.isSome)
    "--tls-cert-file and --tls-private-key-file must be provided together"
  check (a.clientCaFile.isSome ∧ a.tlsCertFile = none)
    "--client-ca-file requires --tls-cert-file and --tls-private-key-file"
  check (normalizeMinVersion a.tlsMinVersion = none)
    "--tls-min-version must be VersionTLS12, VersionTLS13, TLS1.2, or TLS1.3"
  check (∃ cipher ∈ a.tlsCipherSuites, trim cipher = [])
    "--tls-cipher-suites cannot contain empty values"
  checkCipher (a.tlsCipherSuites.find? (!supportedTlsCipherSuite ·))
  check (a.oidcIssuer.isSome ∧ a.oidcClientId = none)
    "--oidc-clientID is required when --oidc-issuer is set"
  checkIssuer parseUrl a.oidcIssuer
  check (a.authHeaderFieldsEnabled = true ∧
      (a.authHeaderUserFieldName = [] ∨ a.authHeaderGroupsFieldName = []))
    "auth header field names cannot be empty when enabled"
  check (a.kubeApiQps.isNegative = true ∨ (a.kubeApiQps.isPositive = true ∧ a.kubeApiBurst = 0))
    "--kube-api-burst must be positive when --kube-api-qps is set"
  check (a.http2MaxConcurrentStreams = 0 ∨ a.http2MaxSize = 0) "HTTP/2 limits must be positive"
  check (a.workerThreads = some 0) "--worker-threads must be positive"
  check (a.secureListenAddress = none ∧ a.insecureListenAddress = none)
    "at least one of --secure-listen-address or --insecure-listen-address is required"
  check (a.proxyEndpointsPort ≠ 0 ∧ a.secureListenAddress = none)
    "--proxy-endpoints-port requires --secure-listen-address"

/-- Arguments that pass every check. -/
structure ProxyArgs.Valid (a : ProxyArgs) : Prop where
  paths : a.allowPaths = [] ∨ a.ignorePaths = []
  upstream : ∃ url, parseUrl a.upstream = .ok url ∧ url.hostStr ≠ none ∧
    url.scheme ∈ ["http".toList, "https".toList, "h2c".toList] ∧
    (a.upstreamForceH2c = true → url.scheme ∈ ["http".toList, "h2c".toList])
  clientPair : a.upstreamClientCertFile.isSome = a.upstreamClientKeyFile.isSome
  tlsPair : a.tlsCertFile.isSome = a.tlsPrivateKeyFile.isSome
  clientCa : a.clientCaFile.isSome = true → a.tlsCertFile ≠ none
  minVersion : normalizeMinVersion a.tlsMinVersion ≠ none
  ciphers : ∀ cipher ∈ a.tlsCipherSuites, supportedTlsCipherSuite cipher = true
  oidc : ∀ issuer, a.oidcIssuer = some issuer → a.oidcClientId ≠ none ∧
    ∃ url, parseUrl issuer = .ok url ∧ url.scheme = "https".toList
  headers : a.authHeaderFieldsEnabled = true →
    a.authHeaderUserFieldName ≠ [] ∧ a.authHeaderGroupsFieldName ≠ []
  qps : a.kubeApiQps.isNegative = false
  burst : a.kubeApiQps.isPositive = true → a.kubeApiBurst ≠ 0
  http2 : a.http2MaxConcurrentStreams ≠ 0 ∧ a.http2MaxSize ≠ 0
  workers : a.workerThreads ≠ some 0
  listener : a.secureListenAddress ≠ none ∨ a.insecureListenAddress ≠ none
  endpoints : a.proxyEndpointsPort ≠ 0 → a.secureListenAddress ≠ none

theorem check_ok {bad : Prop} [Decidable bad] {message : String} {u : Unit} :
    check bad message = .ok u ↔ ¬bad := by
  unfold check
  split <;> simp [*]

theorem parseFlag_ok {flag : String} {value : Text} {url : Url} :
    parseFlag parseUrl flag value = .ok url ↔ parseUrl value = .ok url := by
  unfold parseFlag
  cases parseUrl value <;> simp [Except.mapError]

theorem checkCipher_ok {ciphers : List Text} {u : Unit} :
    checkCipher (ciphers.find? (!supportedTlsCipherSuite ·)) = .ok u ↔
      ∀ cipher ∈ ciphers, supportedTlsCipherSuite cipher = true := by
  cases hfind : ciphers.find? (!supportedTlsCipherSuite ·) with
  | none =>
    refine iff_of_true rfl fun cipher hcipher => ?_
    simpa using List.find?_eq_none.mp hfind cipher hcipher
  | some cipher =>
    refine iff_of_false (by simp [checkCipher]) fun h => ?_
    have hbad := List.find?_some hfind
    simp [h cipher (List.mem_of_find?_eq_some hfind)] at hbad

theorem checkIssuer_ok {issuer : Option Text} {u : Unit} :
    checkIssuer parseUrl issuer = .ok u ↔
      ∀ i, issuer = some i → ∃ url, parseUrl i = .ok url ∧ url.scheme = "https".toList := by
  cases issuer with
  | none => simp [checkIssuer]
  | some i => simp only [checkIssuer, bind_ok, parseFlag_ok, check_ok, not_not, Option.some.injEq,
      forall_eq']

theorem supported_nonempty {cipher : Text} (h : supportedTlsCipherSuite cipher = true) :
    trim cipher ≠ [] := by
  have hall : ∀ c ∈ tlsCipherSuites, trim c ≠ [] := by decide +kernel
  exact hall cipher (List.contains_iff_mem.mp h)

theorem validate_ok_iff {a : ProxyArgs} : a.validate parseUrl = .ok () ↔ a.Valid parseUrl := by
  unfold ProxyArgs.validate
  simp only [bind_ok, check_ok, parseFlag_ok, checkCipher_ok, checkIssuer_ok, exists_const]
  constructor
  · rintro ⟨hpaths, url, hurl, hscheme, hforce, hclient, htls, hca, hversion, -, hciphers, hid,
      hissuer, hheaders, hrate, hhttp2, hworkers, hlisten, hport⟩
    rw [not_or, not_not] at hscheme
    rw [not_or, Bool.not_eq_true] at hrate
    exact
      { paths := by rwa [not_and_or, not_not, not_not] at hpaths
        upstream := ⟨url, hurl, hscheme.2, hscheme.1,
          fun h => not_not.mp fun hnot => hforce ⟨h, hnot⟩⟩
        clientPair := not_not.mp hclient
        tlsPair := not_not.mp htls
        clientCa := fun h hnone => hca ⟨h, hnone⟩
        minVersion := hversion
        ciphers := hciphers
        oidc := fun issuer h => ⟨fun hnone => hid ⟨by simp [h], hnone⟩, hissuer issuer h⟩
        headers := fun h => by simpa [h, not_or] using hheaders
        qps := hrate.1
        burst := fun h hzero => hrate.2 ⟨h, hzero⟩
        http2 := not_or.mp hhttp2
        workers := hworkers
        listener := not_and_or.mp hlisten
        endpoints := fun h hnone => hport ⟨h, hnone⟩ }
  · intro h
    obtain ⟨url, hurl, hhost, hscheme, hforce⟩ := h.upstream
    refine ⟨fun hp => h.paths.elim hp.1 hp.2, url, hurl, fun hp => hp.elim (· hscheme) hhost,
      fun hp => hp.2 (hforce hp.1), not_not.mpr h.clientPair, not_not.mpr h.tlsPair,
      fun hp => h.clientCa hp.1 hp.2, h.minVersion, ?_, h.ciphers, ?_,
      fun issuer hissuer => (h.oidc issuer hissuer).2, ?_, ?_, not_or.mpr h.http2, h.workers,
      not_and_or.mpr h.listener, fun hp => h.endpoints hp.1 hp.2⟩
    · rintro ⟨cipher, hcipher, hempty⟩
      exact supported_nonempty (h.ciphers cipher hcipher) hempty
    · rintro ⟨hsome, hnone⟩
      obtain ⟨issuer, hissuer⟩ := Option.isSome_iff_exists.mp hsome
      exact (h.oidc issuer hissuer).1 hnone
    · rintro ⟨henabled, hempty⟩
      exact hempty.elim (h.headers henabled).1 (h.headers henabled).2
    · rintro (hneg | ⟨hpos, hzero⟩)
      · rw [h.qps] at hneg
        contradiction
      · exact h.burst hpos hzero

end Validate

end KubeRbacProxy
