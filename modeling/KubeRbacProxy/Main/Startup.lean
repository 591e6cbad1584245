import KubeRbacProxy.Authorization.Defects
import KubeRbacProxy.Proxy.Upstream
import KubeRbacProxy.Server.Sequential
import KubeRbacProxy.Tls.Provider
import Mathlib.Data.PNat.Defs

/-! `main`, from its arguments to the server that runs: the checks, what is read and connected, the
proxy with its upstream, and the listeners of its two services. -/

namespace KubeRbacProxy

open Library

structure MainArgs extends ServerArgs where
  configFile : Option Text := none
  kubeconfig : Option Text := none
  upstreamTimeout : Nat := 30 * 10 ^ 9
  upstreamCaFile : Option Text := none

structure ConfigFile where
  authorization : AuthorizationConfig := {}

/-- The libraries that `main` starts with.  `newServer` and `withCallbacks` make the server and the
settings of a listener, `anchor` parses a root certificate, and `selfSigned` makes a certificate for
a name. -/
structure StartLibrary where
  client : ClientLibrary
  pem : PemLibrary
  parseUrl : Text → Except Text Url
  parseUri : Text → Except Text Uri
  parseConfig : Text → Except Text ConfigFile
  suites : List CipherSuite
  parallelism : Option ℕ+
  newServer : Except Text Unit
  withCallbacks : Except Text Unit
  SelfSigned : Type
  selfSigned : Text → Except Text SelfSigned
  Anchor : Type
  anchor : Bytes → Except Text Anchor
  Verifier : Type
  buildVerifier : List Anchor → Except Text Verifier

/-- How `main` ends without a server. -/
inductive Stopped where
  | error (message : Text)
  | panic (message : Text)

inductive CertResolver (lib : StartLibrary) where
  | reloading (certificate privateKey : Text)
  | selfSigned (key : lib.SelfSigned)

structure TlsSettings (lib : StartLibrary) where
  certResolver : CertResolver lib
  h2 : Bool
  clientCertVerifier : Option lib.Verifier

inductive Listener (lib : StartLibrary) where
  | tls (address : Text) (settings : TlsSettings lib)
  | tcp (address : Text)

structure Service (lib : StartLibrary) where
  operationalEndpoints : Bool
  listeners : List (Listener lib)

/-- A server that runs.  `provider` is the TLS provider that was installed. -/
structure Running (lib : StartLibrary) where
  provider : Option (List CipherSuite)
  threads : Nat
  deployment : Deployment
  kubeClient : Option (KubernetesClientInner lib.client)
  upstream : Upstream lib.pem
  services : List (Service lib)

section Startup

variable (lib : StartLibrary) (host : Host)

/-- `config::load`. -/
def loadConfig (path : Text) : Except Text ConfigFile := do
  let data ← host.readToString path
  let config ← lib.parseConfig data
  (validateAuthorizationConfig config.authorization).mapError (·.message lib.client.debug)
  .ok config

def configured : Option Text → Except Text ConfigFile
  | none => .ok {}
  | some path => loadConfig lib host path

/-- The client of the OIDC authenticator, with a root certificate if there is a file of one. -/
def buildOidcClient : Option Text → Except Text Unit
  | none => (lib.client.build false none).map fun _ => ()
  | some path => do
    let pem ← host.read path
    let root ← lib.client.fromPem pem
    (lib.client.build false (some root)).map fun _ => ()

def defaultWorkerThreads : Nat :=
  match lib.parallelism with
  | none => 1
  | some parallelism => min parallelism 4

def selfSignedResolver : Except Text lib.SelfSigned :=
  lib.selfSigned ((host.var "HOSTNAME".toList).getD "localhost".toList)

def tlsResolver (a : MainArgs) : Except Text (Option (CertResolver lib)) :=
  match a.secureListenAddress with
  | none => .ok none
  | some _ =>
    match a.tlsCertFile, a.tlsPrivateKeyFile with
    | some cert, some key => .ok (some (.reloading cert key))
    | _, _ => (selfSignedResolver lib host).map fun key => some (.selfSigned key)

def clientVerifier : Option Text → Except Text (Option lib.Verifier)
  | none => .ok none
  | some path => do
    let pem ← host.read path
    let roots ← (lib.pem.certs pem).mapM fun certificate => certificate >>= lib.anchor
    (lib.buildVerifier roots).map some

variable {lib}

def makeTls (resolver : Option (CertResolver lib)) (verifier : Option lib.Verifier) :
    Except Stopped (TlsSettings lib) := do
  lib.withCallbacks.mapError .error
  let resolver ← (okOr resolver "TLS resolver exists for TLS service".toList).mapError .panic
  .ok ⟨resolver, true, verifier⟩

def secureListeners (resolver : Option (CertResolver lib)) (verifier : Option lib.Verifier) :
    Option Text → Except Stopped (List (Listener lib))
  | none => .ok []
  | some address => (makeTls resolver verifier).map fun settings => [.tls address settings]

/-- The address of the operational endpoints: the host of the secure listener at their port. -/
def operationalAddress (address : Text) (port : UInt16) : Text :=
  let host := ((rsplitOnce ':' address).map Prod.fst).getD address
  host ++ ":".toList ++ decimal port.toNat

/-- The operational endpoints are at the host of the secure listener, whatever colons it has. -/
theorem operationalAddress_host {host port : Text} (hport : ':' ∉ port) (operational : UInt16) :
    operationalAddress (host ++ ':' :: port) operational =
      host ++ ':' :: decimal operational.toNat := by
  have hsplit : rsplitOnce ':' (host ++ ':' :: port) = some (host, port) :=
    rsplitOnce_eq_some.mpr ⟨rfl, hport⟩
  simp [operationalAddress, hsplit]

def mainService (a : MainArgs) (resolver : Option (CertResolver lib))
    (verifier : Option lib.Verifier) : Except Stopped (Service lib) :=
  (secureListeners resolver verifier a.secureListenAddress).map fun secure =>
    ⟨false, secure ++ (a.insecureListenAddress.map .tcp).toList⟩

def operationalServices (a : MainArgs) (resolver : Option (CertResolver lib))
    (verifier : Option lib.Verifier) : Except Stopped (List (Service lib)) :=
  if a.proxyEndpointsPort = 0 then .ok []
  else
    (secureListeners resolver verifier
      (a.secureListenAddress.map (operationalAddress · a.proxyEndpointsPort))).map fun secure =>
        [⟨true, secure⟩]

variable (lib)

/-- `main`, at the time `now`. -/
def startup (a : MainArgs) (now : Nat) : Except Stopped (Running lib) := do
  (a.validate lib.parseUrl).mapError .error
  let minVersion ← (okOr (normalizeMinVersion a.tlsMinVersion)
    "TLS minimum version was validated above".toList).mapError .panic
  let provider ← (installProvider lib.suites minVersion a.tlsCipherSuites none).mapError .error
  let cfg ← (configured lib host a.configFile).mapError .error
  let kubeClient ← (fromConfiguration lib.client host a.kubeconfig a.kubeApiQps a.kubeApiBurst
    now).mapError .error
  let oidc ← (configuredOidc a.toArgs (buildOidcClient lib host)).mapError .error
  lib.newServer.mapError .error
  let uri ← (lib.parseUri a.upstream).mapError .error
  let upstream ← (buildUpstream lib.pem host uri a.upstreamTimeout a.upstreamForceH2c
    a.upstreamClientCertFile a.upstreamClientKeyFile a.upstreamCaFile a.http2MaxConcurrentStreams
    a.http2MaxSize).mapError .panic
  let resolver ← (tlsResolver lib host a).mapError .error
  let verifier ← (clientVerifier lib host a.clientCaFile).mapError .error
  let service ← mainService a resolver verifier
  let operational ← operationalServices a resolver verifier
  .ok
    { provider := provider
      threads := a.workerThreads.getD (defaultWorkerThreads lib)
      deployment := ⟨a.toServerArgs, cfg.authorization, oidc, kubeClient.isSome⟩
      kubeClient := kubeClient
      upstream := upstream
      services := service :: operational }

end Startup

/-! ### What a server has when it runs -/

section Guarded

variable (lib : StartLibrary) (host : Host) (a : MainArgs) (now : Nat)

/-- The configuration has no defect; without a file, it is the default. -/
inductive Configuration : Option Text → AuthorizationConfig → Prop
  | default : Configuration none {}
  | file {path data : Text} {config : ConfigFile} (hread : host.readToString path = .ok data)
      (hparse : lib.parseConfig data = .ok config) (hvalid : ∀ e, ¬Defect config.authorization e) :
      Configuration (some path) config.authorization

/-- The certificates that clients are checked against are all those of the file. -/
inductive Verifies : Option Text → Option lib.Verifier → Prop
  | none : Verifies none none
  | roots {path : Text} {pem : Bytes} {anchors : List lib.Anchor} {verifier : lib.Verifier}
      (hread : host.read path = .ok pem)
      (hanchors : List.Forall₂ (fun item anchor => ∃ certificate, item = .ok certificate ∧
        lib.anchor certificate = .ok anchor) (lib.pem.certs pem) anchors)
      (hbuild : lib.buildVerifier anchors = .ok verifier) : Verifies (some path) (some verifier)

/-- The certificate of a listener is read from both of the files at each handshake, or made at the
start, and then it knows no client. -/
inductive Resolves : CertResolver lib → Prop
  | reloading {cert key : Text} (hcert : a.tlsCertFile = some cert)
      (hkey : a.tlsPrivateKeyFile = some key) : Resolves (.reloading cert key)
  | selfSigned {key : lib.SelfSigned} (hcert : a.tlsCertFile = none)
      (hkey : a.tlsPrivateKeyFile = none) (hca : a.clientCaFile = none)
      (hself : selfSignedResolver lib host = .ok key) : Resolves (.selfSigned key)

variable {lib} in
structure TlsSettings.Guarded (settings : TlsSettings lib) : Prop where
  resolver : Resolves lib host a settings.certResolver
  verifier : Verifies lib host a.clientCaFile settings.clientCertVerifier

/-- The listeners that there may be, of the service with or without the operational endpoints. -/
inductive Listens : Bool → Listener lib → Prop
  | secure {address : Text} {settings : TlsSettings lib}
      (haddress : a.secureListenAddress = some address) (hsettings : settings.Guarded host a) :
      Listens false (.tls address settings)
  | insecure {address : Text} (haddress : a.insecureListenAddress = some address) :
      Listens false (.tcp address)
  | operational {address : Text} {settings : TlsSettings lib}
      (haddress : a.secureListenAddress = some address) (hport : a.proxyEndpointsPort ≠ 0)
      (hsettings : settings.Guarded host a) :
      Listens true (.tls (operationalAddress address a.proxyEndpointsPort) settings)

/-- The client that reviews are made with, if there is one. -/
def ReviewsWith : Option (KubernetesClientInner lib.client) → Prop
  | none => a.kubeconfig = none ∧ host.var "KUBERNETES_SERVICE_HOST".toList = none
  | some inner => ∃ server token client, Connects lib.client host a.kubeconfig server token client ∧
      inner = freshClient server token client a.kubeApiQps a.kubeApiBurst now

/-- The OIDC authenticator is for the issuer, without the slashes at its end, and for the client. -/
def TrustsIssuer : Option OidcAuthenticator → Prop
  | none => a.oidcIssuer = none
  | some auth => ∃ issuer url, a.oidcIssuer = some issuer ∧ lib.parseUrl issuer = .ok url ∧
      url.scheme = "https".toList ∧ auth.issuer = trimEndMatches '/' issuer ∧
      a.oidcClientId = some auth.clientId ∧
      List.Forall₂ (fun name algorithm => signingAlgorithm name = .ok algorithm) a.oidcSignAlg
        auth.algorithms

/-- What holds of every server that `main` runs. -/
structure Running.Guarded (running : Running lib) : Prop where
  valid : a.Valid lib.parseUrl
  arguments : running.deployment.args = a.toServerArgs
  configuration : Configuration lib host a.configFile running.deployment.authz
  oidc : TrustsIssuer lib a running.deployment.oidc
  client : ReviewsWith lib host a now running.kubeClient
  reviews : running.deployment.kubeClient = running.kubeClient.isSome
  suites : ∀ suite, suite ∈ running.provider.getD lib.suites ↔ suite ∈ lib.suites ∧
    ∃ minVersion, normalizeMinVersion a.tlsMinVersion = some minVersion ∧
      suite.Allowed minVersion a.tlsCipherSuites
  threads : 0 < running.threads
  upstream : ∃ uri, lib.parseUri a.upstream = .ok uri ∧ ∃ certKey roots,
    ClientKey lib.pem host a.upstreamClientCertFile a.upstreamClientKeyFile certKey ∧
    UpstreamRoots lib.pem host a.upstreamCaFile roots ∧
    running.upstream = ⟨uri, a.upstreamTimeout, a.upstreamForceH2c, certKey, roots,
      a.http2MaxConcurrentStreams, a.http2MaxSize⟩
  listeners : ∀ service ∈ running.services, ∀ listener ∈ service.listeners,
    Listens lib host a service.operationalEndpoints listener
  listening : ∃ service ∈ running.services, service.operationalEndpoints = false ∧
    service.listeners ≠ []
  operational : (∃ service ∈ running.services, service.operationalEndpoints = true ∧
    service.listeners ≠ []) ↔ a.proxyEndpointsPort ≠ 0

/-- `main` panics over nothing but the files of the upstream, after valid arguments. -/
def UpstreamPanics : Stopped → Prop
  | .error _ => True
  | .panic _ => a.Valid lib.parseUrl ∧
    ¬∃ certKey roots,
      ClientKey lib.pem host a.upstreamClientCertFile a.upstreamClientKeyFile certKey ∧
        UpstreamRoots lib.pem host a.upstreamCaFile roots

variable {lib host a now}

theorem loadConfig_ok {path : Text} {config : ConfigFile}
    (h : loadConfig lib host path = .ok config) :
    Configuration lib host (some path) config.authorization := by
  simp only [loadConfig, bind_ok, mapError_ok, Except.ok.injEq] at h
  obtain ⟨data, hread, config', hparse, _, hvalid, rfl⟩ := h
  exact .file hread hparse (valid_iff.mp hvalid)

theorem configured_ok {configFile : Option Text} {config : ConfigFile}
    (h : configured lib host configFile = .ok config) :
    Configuration lib host configFile config.authorization := by
  cases configFile with
  | none =>
    obtain rfl := Except.ok.inj h
    exact .default
  | some path => exact loadConfig_ok h

theorem reviewsWith {client : Option (KubernetesClientInner lib.client)}
    (h : fromConfiguration lib.client host a.kubeconfig a.kubeApiQps a.kubeApiBurst now =
      .ok client) : ReviewsWith lib host a now client := by
  cases client with
  | none => exact fromConfiguration_none.mp h
  | some inner => exact fromConfiguration_some.mp h

theorem trustsIssuer (hvalid : a.Valid lib.parseUrl) {buildClient : Option Text → Except Text Unit}
    {oidc : Option OidcAuthenticator} (h : configuredOidc a.toArgs buildClient = .ok oidc) :
    TrustsIssuer lib a oidc := by
  unfold configuredOidc at h
  cases hissuer : a.oidcIssuer with
  | none =>
    rw [hissuer] at h
    obtain rfl := Except.ok.inj h
    exact hissuer
  | some issuer =>
    rw [hissuer] at h
    obtain ⟨auth, hnew, rfl⟩ := map_ok.mp h
    have hconfigured := new_ok hnew
    obtain ⟨hid, url, hurl, hhttps⟩ := hvalid.oidc issuer hissuer
    obtain ⟨clientId, hid⟩ := Option.ne_none_iff_exists'.mp hid
    refine ⟨issuer, url, hissuer, hurl, hhttps, hconfigured.issuer, ?_,
      mapM_eq_ok.mp hconfigured.algorithms⟩
    rw [hconfigured.clientId, hid, Option.getD_some]

theorem tlsResolver_ok (hvalid : a.Valid lib.parseUrl) {resolver : Option (CertResolver lib)}
    (h : tlsResolver lib host a = .ok resolver) (hsecure : a.secureListenAddress ≠ none) :
    ∃ r, resolver = some r ∧ Resolves lib host a r := by
  obtain ⟨address, haddress⟩ := Option.ne_none_iff_exists'.mp hsecure
  simp only [tlsResolver, haddress] at h
  cases hcert : a.tlsCertFile with
  | none =>
    have hkey : a.tlsPrivateKeyFile = none := by
      rw [← Option.not_isSome_iff_eq_none, ← hvalid.tlsPair, hcert]
      decide
    have hca : a.clientCaFile = none := by
      by_contra hsome
      exact hvalid.clientCa (Option.isSome_iff_ne_none.mpr hsome) hcert
    simp only [hcert, map_ok] at h
    obtain ⟨key, hself, rfl⟩ := h
    exact ⟨_, rfl, .selfSigned hcert hkey hca hself⟩
  | some cert =>
    cases hkey : a.tlsPrivateKeyFile with
    | none =>
      have hpair := hvalid.tlsPair
      rw [hcert, hkey] at hpair
      contradiction
    | some key =>
      simp only [hcert, hkey] at h
      obtain rfl := Except.ok.inj h
      exact ⟨_, rfl, .reloading hcert hkey⟩

theorem clientVerifier_ok {clientCaFile : Option Text} {verifier : Option lib.Verifier}
    (h : clientVerifier lib host clientCaFile = .ok verifier) :
    Verifies lib host clientCaFile verifier := by
  cases clientCaFile with
  | none =>
    obtain rfl := Except.ok.inj h
    exact .none
  | some path =>
    simp only [clientVerifier, bind_ok, map_ok] at h
    obtain ⟨pem, hread, anchors, hanchors, verifier, hbuild, rfl⟩ := h
    exact .roots hread ((mapM_eq_ok.mp hanchors).imp fun _ _ h => bind_ok.mp h) hbuild

theorem defaultWorkerThreads_pos : 0 < defaultWorkerThreads lib := by
  unfold defaultWorkerThreads
  split
  · exact Nat.one_pos
  · exact Nat.lt_min.mpr ⟨PNat.pos _, by decide⟩

theorem workers_pos (hvalid : a.Valid lib.parseUrl) :
    0 < a.workerThreads.getD (defaultWorkerThreads lib) := by
  cases hworkers : a.workerThreads with
  | none => exact defaultWorkerThreads_pos
  | some workers =>
    apply Nat.pos_of_ne_zero
    rintro rfl
    exact hvalid.workers hworkers

/-- The resolver is there where there is an address to listen at. -/
theorem secureListeners_outcome {Q : Stopped → Prop} (hQ : ∀ m, Q (.error m))
    {resolver : Option (CertResolver lib)} {verifier : Option lib.Verifier}
    (hverifier : Verifies lib host a.clientCaFile verifier) {address : Option Text}
    (hresolver : address ≠ none → ∃ r, resolver = some r ∧ Resolves lib host a r) :
    Outcome (fun listeners => (listeners = [] ↔ address = none) ∧ ∀ listener ∈ listeners,
        ∃ t settings, address = some t ∧ listener = .tls t settings ∧
          TlsSettings.Guarded host a settings) Q
      (secureListeners resolver verifier address) := by
  cases address with
  | none => exact ⟨iff_of_true rfl rfl, by simp⟩
  | some t =>
    obtain ⟨r, rfl, hr⟩ := hresolver (by simp)
    refine Outcome.map (outcome_bind (outcome_mapError (fun _ _ => ?_) fun m _ => hQ m))
    refine ⟨by simp, fun listener hlistener => ?_⟩
    obtain rfl := List.mem_singleton.mp hlistener
    exact ⟨t, _, rfl, rfl, hr, hverifier⟩

theorem mainService_outcome {Q : Stopped → Prop} (hQ : ∀ m, Q (.error m))
    (hvalid : a.Valid lib.parseUrl) {resolver : Option (CertResolver lib)}
    {verifier : Option lib.Verifier} (hverifier : Verifies lib host a.clientCaFile verifier)
    (hresolver : tlsResolver lib host a = .ok resolver) :
    Outcome (fun service => service.operationalEndpoints = false ∧ service.listeners ≠ [] ∧
        ∀ listener ∈ service.listeners, Listens lib host a false listener) Q
      (mainService a resolver verifier) := by
  refine Outcome.map ((secureListeners_outcome hQ hverifier
    (tlsResolver_ok hvalid hresolver)).mono fun secure hsecure => ⟨rfl, ?_, ?_⟩)
  · intro hnone
    obtain ⟨hleft, hright⟩ := List.append_eq_nil_iff.mp hnone
    have haddress := hsecure.1.mp hleft
    have hinsecure := hvalid.listener.resolve_left (not_not.mpr haddress)
    obtain ⟨address, haddress⟩ := Option.ne_none_iff_exists'.mp hinsecure
    simp [haddress] at hright
  · intro listener hlistener
    rcases List.mem_append.mp hlistener with hleft | hright
    · obtain ⟨address, settings, haddress, rfl, hsettings⟩ := hsecure.2 listener hleft
      exact .secure haddress hsettings
    · obtain ⟨address, haddress, rfl⟩ := Option.map_eq_some_iff.mp (Option.mem_toList.mp hright)
      exact .insecure haddress

theorem operationalServices_outcome {Q : Stopped → Prop} (hQ : ∀ m, Q (.error m))
    (hvalid : a.Valid lib.parseUrl) {resolver : Option (CertResolver lib)}
    {verifier : Option lib.Verifier} (hverifier : Verifies lib host a.clientCaFile verifier)
    (hresolver : tlsResolver lib host a = .ok resolver) :
    Outcome (fun services => (services = [] ↔ a.proxyEndpointsPort = 0) ∧ ∀ service ∈ services,
        service.operationalEndpoints = true ∧ service.listeners ≠ [] ∧
          ∀ listener ∈ service.listeners, Listens lib host a true listener) Q
      (operationalServices a resolver verifier) := by
  unfold operationalServices
  split
  · rename_i hport
    exact ⟨iff_of_true rfl hport, by simp⟩
  · rename_i hport
    refine Outcome.map ((secureListeners_outcome hQ hverifier fun haddress =>
      tlsResolver_ok hvalid hresolver (by simpa using haddress)).mono fun secure hsecure => ?_)
    refine ⟨iff_of_false (by simp) hport, fun service hservice => ?_⟩
    obtain rfl := List.mem_singleton.mp hservice
    refine ⟨rfl, fun hnone => ?_, fun listener hlistener => ?_⟩
    · exact hvalid.endpoints hport (Option.map_eq_none_iff.mp (hsecure.1.mp hnone))
    · obtain ⟨t, settings, ht, rfl, hsettings⟩ := hsecure.2 listener hlistener
      obtain ⟨address, haddress, rfl⟩ := Option.map_eq_some_iff.mp ht
      exact .operational haddress hport hsettings

theorem startup_outcome : Outcome (Running.Guarded lib host a now) (UpstreamPanics lib host a)
    (startup lib host a now) := by
  have hQ : ∀ m, UpstreamPanics lib host a (.error m) := fun _ => trivial
  unfold startup
  refine outcome_bind (outcome_mapError (fun _ hvalidate => ?_) fun m _ => hQ m)
  have hvalid := (validate_ok_iff lib.parseUrl).mp hvalidate
  refine outcome_bind (outcome_mapError (fun minVersion hmin => ?_) fun m hmin => ?_)
  · rw [okOr_ok] at hmin
    refine outcome_bind (outcome_mapError (fun provider hprovider => ?_) fun m _ => hQ m)
    refine outcome_bind (outcome_mapError (fun cfg hcfg => ?_) fun m _ => hQ m)
    refine outcome_bind (outcome_mapError (fun kubeClient hclient => ?_) fun m _ => hQ m)
    refine outcome_bind (outcome_mapError (fun oidc hoidc => ?_) fun m _ => hQ m)
    refine outcome_bind (outcome_mapError (fun _ _ => ?_) fun m _ => hQ m)
    refine outcome_bind (outcome_mapError (fun uri huri => ?_) fun m _ => hQ m)
    refine outcome_bind (outcome_mapError (fun upstream hupstream => ?_) fun m hpanic => ?_)
    · refine outcome_bind (outcome_mapError (fun resolver hresolver => ?_) fun m _ => hQ m)
      refine outcome_bind (outcome_mapError (fun verifier hverifier => ?_) fun m _ => hQ m)
      have hverifies := clientVerifier_ok hverifier
      refine outcome_bind ((mainService_outcome hQ hvalid hverifies hresolver).mono ?_)
      rintro service ⟨hservice, hlistening, hlisteners⟩
      refine outcome_bind ((operationalServices_outcome hQ hvalid hverifies hresolver).mono ?_)
      rintro operational ⟨hport, hoperational⟩
      exact
        { valid := hvalid
          arguments := rfl
          configuration := configured_ok hcfg
          oidc := trustsIssuer hvalid hoidc
          client := reviewsWith hclient
          reviews := rfl
          suites := fun suite => by
            rw [(installProvider_ok hprovider).1]
            simp [hmin]
          threads := workers_pos hvalid
          upstream := ⟨uri, huri, buildUpstream_ok.mp hupstream⟩
          listeners := fun s hs => by
            rcases List.mem_cons.mp hs with rfl | hs
            · rw [hservice]
              exact hlisteners
            · obtain ⟨hs', -, hlistens⟩ := hoperational s hs
              rw [hs']
              exact hlistens
          listening := ⟨service, List.mem_cons_self, hservice, hlistening⟩
          operational := by
            constructor
            · rintro ⟨s, hs, hs', -⟩ hzero
              obtain rfl := hport.mpr hzero
              obtain rfl := List.mem_singleton.mp hs
              rw [hservice] at hs'
              contradiction
            · intro hne
              obtain ⟨s, hs⟩ := List.exists_mem_of_ne_nil _ (mt hport.mp hne)
              obtain ⟨hs', hnonempty, -⟩ := hoperational s hs
              exact ⟨s, List.mem_cons_of_mem _ hs, hs', hnonempty⟩ }
    · exact ⟨hvalid, buildUpstream_error hpanic⟩
  · obtain ⟨minVersion, hsome⟩ := Option.ne_none_iff_exists'.mp hvalid.minVersion
    rw [okOr_ok.mpr hsome] at hmin
    contradiction

theorem startup_ok {running : Running lib} (h : startup lib host a now = .ok running) :
    running.Guarded lib host a now := by
  have houtcome : Outcome (Running.Guarded lib host a now) (UpstreamPanics lib host a) _ :=
    startup_outcome
  rw [h] at houtcome
  exact houtcome

variable (lib host a now)

/-- A server that `main` runs is guarded, and only the files of the upstream can make `main`
panic. -/
theorem startup_guarded :
    (∀ running, startup lib host a now = .ok running → running.Guarded lib host a now) ∧
    ∀ message, startup lib host a now = .error (.panic message) → a.Valid lib.parseUrl ∧
      ¬∃ certKey roots,
        ClientKey lib.pem host a.upstreamClientCertFile a.upstreamClientKeyFile certKey ∧
        UpstreamRoots lib.pem host a.upstreamCaFile roots := by
  refine ⟨fun running => startup_ok, fun message h => ?_⟩
  have houtcome : Outcome (Running.Guarded lib host a now) (UpstreamPanics lib host a) _ :=
    startup_outcome
  rw [h] at houtcome
  exact houtcome

end Guarded

/-! ### A server in a cluster -/

def podConfiguration : Text :=
  "authorization:\n  resourceAttributes:\n    apiVersion: v1\n    resource: pods\n".toList

/-- A pod with a service account and a configuration. -/
def podHost : Host where
  read path :=
    if path = serviceAccount "token" then .ok (encodeUtf8 "account".toList)
    else if path = "config.yaml".toList then .ok (encodeUtf8 podConfiguration)
    else .error "No such file or directory (os error 2)".toList
  var name := if name = "KUBERNETES_SERVICE_HOST".toList then some "10.96.0.1".toList else none

def podClient : ClientLibrary where
  debug t := t
  decodeError _ := "Invalid padding".toList
  parseKubeconfig _ := .error "missing field users".toList
  Certificate := Bytes
  fromPem pem := .ok pem
  fromDer der := .ok der
  HttpClient := Unit
  build _ _ := .ok ()

/-- No file of the pod is a PEM file. -/
def podPem : PemLibrary where
  certs _ := []
  privateKey _ := .ok none
  CertKey := Unit
  newCertKey _ _ := .error "expected a non-empty vector of certificates in CertKey::new".toList
  X509 := Unit
  newX509 _ := .error "Failed to parse certificate from DER format.".toList

def namedSuites : List CipherSuite :=
  tlsCipherSuites.map fun name => ⟨name, "TLS13_".toList.isPrefixOf name⟩

def podLibrary : StartLibrary where
  client := podClient
  pem := podPem
  parseUrl := localUpstream
  parseUri t :=
    if t = "http://127.0.0.1:8080".toList then
      .ok ⟨some "http".toList, some "127.0.0.1".toList, some 8080⟩
    else .error "invalid uri character".toList
  parseConfig data :=
    if data = podConfiguration then .ok ⟨podDeployment.authz⟩
    else .error "invalid type".toList
  suites := namedSuites
  parallelism := none
  newServer := .ok ()
  withCallbacks := .ok ()
  SelfSigned := Text
  selfSigned name := .ok name
  Anchor := Unit
  anchor _ := .error "BadEncoding".toList
  Verifier := Unit
  buildVerifier _ := .error "no root trust anchors were provided".toList

def podMain : MainArgs where
  toServerArgs := podDeployment.args
  configFile := some "config.yaml".toList

theorem podMain_runs : ∃ running, startup podLibrary podHost podMain 0 = .ok running := by
  have hok : (startup podLibrary podHost podMain 0).toBool = true := by decide +kernel
  cases hstart : startup podLibrary podHost podMain 0 with
  | ok running => exact ⟨running, rfl⟩
  | error e =>
    rw [hstart] at hok
    contradiction

/-! ### Its connections -/

section Connections

variable {lib : StartLibrary} {host : Host} {a : MainArgs} {now : Nat}

/-- The upstream of a server has a connection unless it has no host, or one without an address, and
no connection speaks HTTP/2 over TLS without offering HTTP/1.  The two parsers of URLs agree on
`https`. -/
theorem upstreamPeer_started {Addr : Type} (resolve : Text → Option Addr) {running : Running lib}
    (h : startup lib host a now = .ok running)
    (hagree : ∀ url uri, lib.parseUrl a.upstream = .ok url → lib.parseUri a.upstream = .ok uri →
      uri.schemeStr = some "https".toList → url.scheme = "https".toList) :
    lib.parseUri a.upstream = .ok running.upstream.upstream ∧
    running.upstream.upstreamForceH2c = a.upstreamForceH2c ∧
    ((∃ e, upstreamPeer resolve running.upstream = some (.error e)) ↔
      running.upstream.upstream.host = none) ∧
    (upstreamPeer resolve running.upstream = none ↔
      ∃ name, running.upstream.upstream.host = some name ∧
        resolve (running.upstream.upstream.authority name) = none) ∧
    ∀ peer, upstreamPeer resolve running.upstream = some (.ok peer) →
      PeerOf resolve running.upstream peer ∧
      ClientKey lib.pem host a.upstreamClientCertFile a.upstreamClientKeyFile peer.clientCertKey ∧
      UpstreamRoots lib.pem host a.upstreamCaFile peer.ca := by
  obtain ⟨uri, huri, certKey, roots, hkey, hroots, hupstream⟩ := (startup_ok h).upstream
  have hforce : running.upstream.upstream.schemeStr = some "https".toList →
      running.upstream.upstreamForceH2c = false := by
    rw [hupstream]
    intro hscheme
    obtain ⟨url, hurl, -, -, honly⟩ := (startup_ok h).valid.upstream
    by_contra hcon
    have hplain := honly (by simpa using hcon)
    rw [hagree url uri hurl huri hscheme] at hplain
    exact absurd hplain (by decide)
  refine ⟨by rw [hupstream, huri], by rw [hupstream], upstreamPeer_error, upstreamPeer_panics,
    fun peer hpeer => ?_⟩
  have hof := upstreamPeer_ok hforce hpeer
  refine ⟨hof, ?_, ?_⟩
  · rw [hof.clientCertKey, hupstream]
    exact hkey
  · rw [hof.ca, hupstream]
    exact hroots

/-- The addresses of names that are addresses. -/
def localAddress (name : Text) : Option Text :=
  if "127.0.0.1:".toList.isPrefixOf name then some name else none

theorem upstreamPeer_started_pod : ∃ running,
    startup podLibrary podHost podMain 0 = .ok running ∧
    podLibrary.parseUri podMain.upstream = .ok running.upstream.upstream ∧
    running.upstream.upstreamForceH2c = podMain.upstreamForceH2c ∧
    ((∃ e, upstreamPeer localAddress running.upstream = some (.error e)) ↔
      running.upstream.upstream.host = none) ∧
    (upstreamPeer localAddress running.upstream = none ↔
      ∃ name, running.upstream.upstream.host = some name ∧
        localAddress (running.upstream.upstream.authority name) = none) ∧
    ∀ peer, upstreamPeer localAddress running.upstream = some (.ok peer) →
      PeerOf localAddress running.upstream peer ∧
      ClientKey podPem podHost podMain.upstreamClientCertFile podMain.upstreamClientKeyFile
        peer.clientCertKey ∧
      UpstreamRoots podPem podHost podMain.upstreamCaFile peer.ca := by
  obtain ⟨running, hstart⟩ := podMain_runs
  refine ⟨running, hstart, upstreamPeer_started localAddress hstart ?_⟩
  intro url uri _ huri hscheme
  obtain rfl : ⟨some "http".toList, some "127.0.0.1".toList, some 8080⟩ = uri :=
    Except.ok.inj huri
  exact absurd hscheme (by decide)

/-- The suites of the default provider are those that the arguments may name, and the names tell
the version. -/
structure Supported (suites : List CipherSuite) : Prop where
  named : ∀ name, supportedTlsCipherSuite name = true → ∃ suite ∈ suites, suite.name = name
  tls13 : ∀ suite ∈ suites, suite.tls13 = true ↔ "TLS13_".toList <+: suite.name

/-- Arguments that are valid are refused for their TLS settings exactly where these ask for TLS 1.3
and name suites of TLS 1.2 only. -/
theorem installProvider_refuses {suites : List CipherSuite} (hsuites : Supported suites)
    (hvalid : a.Valid lib.parseUrl) {minVersion : Text} :
    (∃ e, installProvider suites minVersion a.tlsCipherSuites none = .error e) ↔
      minVersion = "VersionTLS13".toList ∧ a.tlsCipherSuites ≠ [] ∧
        ∀ name ∈ a.tlsCipherSuites, ¬"TLS13_".toList <+: name := by
  have hdefault : supportedTlsCipherSuite "TLS13_AES_128_GCM_SHA256".toList = true := by
    decide +kernel
  constructor
  · rintro ⟨e, he⟩
    -- no supported name is both among the names and of a version that is wanted
    have hnone : ∀ name, supportedTlsCipherSuite name = true →
        (a.tlsCipherSuites ≠ [] → name ∈ a.tlsCipherSuites) →
        ¬(minVersion = "VersionTLS13".toList → "TLS13_".toList <+: name) := by
      intro name hname hamong hversion
      obtain ⟨suite, hsuite, rfl⟩ := hsuites.named name hname
      exact installProvider_error he suite hsuite
        ⟨fun h => (hsuites.tls13 suite hsuite).mpr (hversion h), hamong⟩
    have hne : a.tlsCipherSuites ≠ [] := by
      intro hall
      refine hnone _ hdefault (fun h => absurd hall h) fun _ => ?_
      exact List.isPrefixOf_iff_prefix.mp (by decide +kernel)
    obtain ⟨first, hfirst⟩ := List.exists_mem_of_ne_nil _ hne
    refine ⟨?_, hne, fun name hname hprefix => ?_⟩
    · by_contra hother
      exact hnone first (hvalid.ciphers first hfirst) (fun _ => hfirst) fun h => absurd h hother
    · exact hnone name (hvalid.ciphers name hname) (fun _ => hname) fun _ => hprefix
  · rintro ⟨hversion, hne, hold⟩
    cases hinstall : installProvider suites minVersion a.tlsCipherSuites none with
    | error e => exact ⟨e, rfl⟩
    | ok installed =>
      obtain ⟨hkept, hnonempty⟩ := installProvider_ok hinstall
      have hempty : installed.getD suites = [] := by
        refine List.eq_nil_iff_forall_not_mem.mpr fun suite hsuite => ?_
        obtain ⟨hin, hallowed⟩ := (hkept suite).mp hsuite
        exact hold _ (hallowed.name hne) ((hsuites.tls13 suite hin).mp (hallowed.version hversion))
      cases installed with
      | none =>
        obtain ⟨suite, hsuite, -⟩ := hsuites.named _ hdefault
        rw [Option.getD_none] at hempty
        simp [hempty] at hsuite
      | some kept => exact absurd (congrArg some hempty) hnonempty

theorem namedSuites_supported : Supported namedSuites where
  named name hname := by
    obtain hmem := List.contains_iff_mem.mp hname
    exact ⟨_, List.mem_map_of_mem hmem, rfl⟩
  tls13 suite hsuite := by
    obtain ⟨name, -, rfl⟩ := List.mem_map.mp hsuite
    exact List.isPrefixOf_iff_prefix

/-- Arguments that ask for TLS 1.3 and name a suite of TLS 1.2. -/
def mixedMain : MainArgs :=
  { podMain with
    tlsMinVersion := "TLS1.3".toList
    tlsCipherSuites := ["TLS_ECDHE_RSA_WITH_AES_128_GCM_SHA256".toList] }

theorem installProvider_refuses_mixed :
    (∃ e, installProvider namedSuites "VersionTLS13".toList mixedMain.tlsCipherSuites none =
      .error e) ↔ "VersionTLS13".toList = "VersionTLS13".toList ∧ mixedMain.tlsCipherSuites ≠ [] ∧
        ∀ name ∈ mixedMain.tlsCipherSuites, ¬"TLS13_".toList <+: name := by
  have haccepted : mixedMain.validate podLibrary.parseUrl = .ok () := by decide +kernel
  exact installProvider_refuses namedSuites_supported
    ((validate_ok_iff podLibrary.parseUrl).mp haccepted)

end Connections

end KubeRbacProxy
