import KubeRbacProxy.Kube.Limiter
import KubeRbacProxy.Library.Base64
import KubeRbacProxy.Library.Utf8

/-! Where the Kubernetes client comes from: the kubeconfig file that was named, the service account
of the cluster that the proxy runs in, or neither, and then there is no client.  Files, variables,
and the libraries that parse and encode are parameters. -/

namespace KubeRbacProxy

open Library

/-- What can be read from the machine: its files, and the variables of the environment. -/
structure Host where
  read : Text → Except Text Bytes
  var : Text → Option Text

/-- A file of UTF-8 text. -/
def Host.readToString (host : Host) (path : Text) : Except Text Text :=
  match host.read path with
  | .error e => .error e
  | .ok bytes =>
    if encodeUtf8 (decodeUtf8Lossy bytes) = bytes then .ok (decodeUtf8Lossy bytes)
    else .error "stream did not contain valid UTF-8".toList

structure Cluster where
  server : Text
  certificateAuthorityData : Option Text
  insecureSkipTlsVerify : Bool := false

structure NamedCluster where
  name : Text
  cluster : Cluster

structure User where
  token : Option Text := none
  tokenFile : Option Text := none

structure NamedUser where
  name : Text
  user : User

structure KubeContext where
  cluster : Text
  user : Text

structure NamedContext where
  name : Text
  context : KubeContext

structure KubeConfig where
  currentContext : Option Text
  clusters : List NamedCluster
  users : List NamedUser
  contexts : List NamedContext

/-- The libraries: the parser of kubeconfig files, certificates, and the HTTP client, which is built
to accept any certificate or not, and with a root certificate or not.  `debug` prints a text in the
debug format, and `decodeError` says why a text is not base64. -/
structure ClientLibrary where
  debug : Text → Text
  decodeError : Text → Text
  parseKubeconfig : Bytes → Except Text KubeConfig
  Certificate : Type
  fromPem : Bytes → Except Text Certificate
  fromDer : Bytes → Except Text Certificate
  HttpClient : Type
  build : Bool → Option Certificate → Except Text HttpClient

/-- `KubernetesClientInner`, with the limiter of its `rate`. -/
structure KubernetesClientInner (lib : ClientLibrary) where
  client : lib.HttpClient
  baseUrl : Text
  token : Text
  tokenCache : ReviewCache.Table Text (Option Identity)
  authzCache : ReviewCache.Table Text Bool
  qps : FloatNumber binary32
  burst : Nat
  rate : Limiter

/-- How to reach the API server. -/
structure ServerSettings where
  server : Text
  token : Text
  ca : Option Text
  insecure : Bool

def okOr {α : Type} (value : Option α) (message : Text) : Except Text α :=
  match value with
  | some a => .ok a
  | none => .error message

section Configuration

variable (lib : ClientLibrary) (host : Host)

def userToken (user : User) : Option Text :=
  user.token.or (user.tokenFile.bind fun p => (host.readToString p).toOption.map trim)

def kubeconfigSettings (path : Text) : Except Text ServerSettings := do
  let bytes ← (host.read path).mapError fun _ => "reading kubeconfig ".toList ++ path
  let value ← lib.parseKubeconfig bytes
  let contextName ← okOr value.currentContext "kubeconfig has no current-context".toList
  let context ← okOr (value.contexts.find? (·.name = contextName))
    ("kubeconfig context ".toList ++ lib.debug contextName ++ " not found".toList)
  let cluster ← okOr (value.clusters.find? (·.name = context.context.cluster))
    "kubeconfig cluster not found".toList
  let user ← okOr (value.users.find? (·.name = context.context.user))
    "kubeconfig user not found".toList
  let token ← okOr (userToken host user.user) "kubeconfig user has no token".toList
  .ok ⟨cluster.cluster.server, token, cluster.cluster.certificateAuthorityData,
    cluster.cluster.insecureSkipTlsVerify⟩

def serviceAccount (file : String) : Text :=
  "/var/run/secrets/kubernetes.io/serviceaccount/".toList ++ file.toList

def inClusterSettings (serviceHost : Text) : Except Text ServerSettings := do
  let port := (host.var "KUBERNETES_SERVICE_PORT".toList).getD "443".toList
  let token ← (host.readToString (serviceAccount "token")).mapError fun _ =>
    "reading in-cluster service account token".toList
  let ca := (host.read (serviceAccount "ca.crt")).toOption.map Base64.encode
  .ok ⟨"https://".toList ++ serviceHost ++ ":".toList ++ port, trim token, ca, false⟩

def certificate (bytes : Bytes) : Except Text lib.Certificate :=
  if (encodeUtf8 "-----BEGIN".toList).isPrefixOf bytes then lib.fromPem bytes
  else lib.fromDer bytes

def rootCertificate : Option Text → Except Text (Option lib.Certificate)
  | none => .ok none
  | some encoded => do
    let bytes ← okOr (Base64.decode encoded) (lib.decodeError encoded)
    (certificate lib bytes).map some

def connect (settings : ServerSettings) (qps : FloatNumber binary32) (burst : UInt32)
    (start : Nat) : Except Text (KubernetesClientInner lib) := do
  let root ← rootCertificate lib settings.ca
  let client ← lib.build settings.insecure root
  .ok
    { client := client
      baseUrl := trimEndMatches '/' settings.server
      token := settings.token
      tokenCache := fun _ => none
      authzCache := fun _ => none
      qps := qps
      burst := max burst.toNat 1
      rate := limiterInit burst start }

/-- `KubernetesClient::from_configuration`, called at `start`. -/
def fromConfiguration (kubeconfig : Option Text) (qps : FloatNumber binary32) (burst : UInt32)
    (start : Nat) : Except Text (Option (KubernetesClientInner lib)) :=
  match kubeconfig with
  | some path => do
    let settings ← kubeconfigSettings lib host path
    (connect lib settings qps burst start).map some
  | none =>
    match host.var "KUBERNETES_SERVICE_HOST".toList with
    | none => .ok none
    | some serviceHost => do
      let settings ← inClusterSettings host serviceHost
      (connect lib settings qps burst start).map some

/-! ### What a client is configured with -/

/-- The first of the entries with the name. -/
def FirstNamed {α : Type} (nameOf : α → Text) (entries : List α) (name : Text) (entry : α) : Prop :=
  ∃ before after, entries = before ++ entry :: after ∧ nameOf entry = name ∧
    ∀ other ∈ before, nameOf other ≠ name

/-- The user's own token, or else the text of the file that is named for it, trimmed. -/
inductive HasToken (user : User) : Text → Prop
  | own {token : Text} (hown : user.token = some token) : HasToken user token
  | file {path content : Text} (hown : user.token = none) (hfile : user.tokenFile = some path)
      (hread : host.readToString path = .ok content) : HasToken user (trim content)

/-- The root certificate that is added is the one in these bytes; without bytes, none is. -/
inductive IsRoot : Option Bytes → Option lib.Certificate → Prop
  | none : IsRoot none none
  | some {bytes : Bytes} {c : lib.Certificate} (hc : certificate lib bytes = .ok c) :
      IsRoot (some bytes) (some c)

/-- How a client reaches the API server: by a context of the kubeconfig file, or, without one, by
the service account.  `IsRoot` is of the bytes behind the base64 of the file, or of the certificate
file as it is. -/
inductive Connects : Option Text → Text → Text → lib.HttpClient → Prop
  | kubeconfig {path : Text} {bytes : Bytes} {config : KubeConfig} {name token : Text}
      {context : NamedContext} {cluster : NamedCluster} {user : NamedUser} {ca : Option Bytes}
      {root : Option lib.Certificate} {client : lib.HttpClient}
      (hread : host.read path = .ok bytes) (hparse : lib.parseKubeconfig bytes = .ok config)
      (hname : config.currentContext = some name)
      (hcontext : FirstNamed NamedContext.name config.contexts name context)
      (hcluster : FirstNamed NamedCluster.name config.clusters context.context.cluster cluster)
      (huser : FirstNamed NamedUser.name config.users context.context.user user)
      (htoken : HasToken host user.user token)
      (hca : cluster.cluster.certificateAuthorityData = ca.map Base64.encode)
      (hroot : IsRoot lib ca root)
      (hbuild : lib.build cluster.cluster.insecureSkipTlsVerify root = .ok client) :
      Connects (some path) cluster.cluster.server token client
  | inCluster {serviceHost content : Text} {root : Option lib.Certificate}
      {client : lib.HttpClient}
      (hhost : host.var "KUBERNETES_SERVICE_HOST".toList = some serviceHost)
      (htoken : host.readToString (serviceAccount "token") = .ok content)
      (hroot : IsRoot lib (host.read (serviceAccount "ca.crt")).toOption root)
      (hbuild : lib.build false root = .ok client) :
      Connects none ("https://".toList ++ serviceHost ++ ":".toList ++
        (host.var "KUBERNETES_SERVICE_PORT".toList).getD "443".toList) (trim content) client

variable {lib host}

theorem okOr_ok {α : Type} {value : Option α} {message : Text} {a : α} :
    okOr value message = .ok a ↔ value = some a := by
  cases value <;> simp [okOr]

theorem find?_firstNamed {α : Type} {nameOf : α → Text} {entries : List α} {name : Text}
    {entry : α} : entries.find? (nameOf · = name) = some entry ↔
      FirstNamed nameOf entries name entry := by
  rw [List.find?_eq_some_iff_append, FirstNamed]
  simp only [decide_eq_true_eq, Bool.not_eq_true', decide_eq_false_iff_not]
  constructor
  · rintro ⟨hname, before, after, hsplit, hbefore⟩
    exact ⟨before, after, hsplit, hname, hbefore⟩
  · rintro ⟨before, after, hsplit, hname, hbefore⟩
    exact ⟨hname, before, after, hsplit, hbefore⟩

theorem userToken_eq_some {user : User} {token : Text} :
    userToken host user = some token ↔ HasToken host user token := by
  unfold userToken
  constructor
  · intro h
    cases hown : user.token with
    | some own =>
      rw [hown, Option.some_or] at h
      obtain rfl := Option.some.inj h
      exact .own hown
    | none =>
      rw [hown, Option.none_or, Option.bind_eq_some_iff] at h
      obtain ⟨path, hfile, h⟩ := h
      cases hread : host.readToString path with
      | error e => simp [hread, Except.toOption] at h
      | ok content =>
        obtain rfl : trim content = token := by simpa [hread, Except.toOption] using h
        exact .file hown hfile hread
  · rintro (hown | ⟨hown, hfile, hread⟩)
    · simp [hown]
    · simp [hown, hfile, hread, Except.toOption]

theorem rootCertificate_ok {ca : Option Text} {root : Option lib.Certificate} :
    rootCertificate lib ca = .ok root ↔
      ∃ bytes, ca = bytes.map Base64.encode ∧ IsRoot lib bytes root := by
  cases ca with
  | none =>
    constructor
    · intro h
      obtain rfl := Except.ok.inj h
      exact ⟨none, rfl, .none⟩
    · rintro ⟨bytes, hbytes, hroot⟩
      cases hroot with
      | none => rfl
      | some hc => simp at hbytes
  | some encoded =>
    simp only [rootCertificate, bind_ok, okOr_ok, Base64.decode_eq_some, map_ok]
    constructor
    · rintro ⟨bytes, rfl, c, hc, rfl⟩
      exact ⟨some bytes, rfl, .some hc⟩
    · rintro ⟨bytes, hbytes, hroot⟩
      cases hroot with
      | none => simp at hbytes
      | @some bytes c hc =>
        obtain rfl := Option.some.inj hbytes
        exact ⟨bytes, rfl, c, hc, rfl⟩

/-- A client as `from_configuration` makes it, with empty caches and a full limiter. -/
def freshClient (server token : Text) (client : lib.HttpClient) (qps : FloatNumber binary32)
    (burst : UInt32) (start : Nat) : KubernetesClientInner lib :=
  ⟨client, trimEndMatches '/' server, token, fun _ => none, fun _ => none, qps,
    max burst.toNat 1, limiterInit burst start⟩

variable {qps : FloatNumber binary32} {burst : UInt32} {start : Nat}

theorem connect_ok {settings : ServerSettings} {inner : KubernetesClientInner lib} :
    connect lib settings qps burst start = .ok inner ↔ ∃ bytes root client,
      settings.ca = bytes.map Base64.encode ∧ IsRoot lib bytes root ∧
      lib.build settings.insecure root = .ok client ∧
      inner = freshClient settings.server settings.token client qps burst start := by
  simp only [connect, bind_ok, rootCertificate_ok, Except.ok.injEq]
  constructor
  · rintro ⟨root, ⟨bytes, hca, hroot⟩, client, hbuild, rfl⟩
    exact ⟨bytes, root, client, hca, hroot, hbuild, rfl⟩
  · rintro ⟨bytes, root, client, hca, hroot, hbuild, rfl⟩
    exact ⟨root, ⟨bytes, hca, hroot⟩, client, hbuild, rfl⟩

theorem kubeconfig_ok {path : Text} {inner : KubernetesClientInner lib} :
    (kubeconfigSettings lib host path >>= fun settings => connect lib settings qps burst start) =
      .ok inner ↔ ∃ server token client, Connects lib host (some path) server token client ∧
        inner = freshClient server token client qps burst start := by
  simp only [kubeconfigSettings, bind_ok, mapError_ok, okOr_ok, connect_ok, find?_firstNamed,
    userToken_eq_some, Except.ok.injEq]
  constructor
  · rintro ⟨-, ⟨bytes, hread, config, hparse, name, hname, context, hcontext, cluster, hcluster,
      user, huser, token, htoken, rfl⟩, ca, root, client, hca, hroot, hbuild, rfl⟩
    exact ⟨cluster.cluster.server, token, client, .kubeconfig hread hparse hname hcontext hcluster
      huser htoken hca hroot hbuild, rfl⟩
  · rintro ⟨server, token, client, hconnects, rfl⟩
    cases hconnects with
    | kubeconfig hread hparse hname hcontext hcluster huser htoken hca hroot hbuild =>
      exact ⟨_, ⟨_, hread, _, hparse, _, hname, _, hcontext, _, hcluster, _, huser, _, htoken, rfl⟩,
        _, _, _, hca, hroot, hbuild, rfl⟩

theorem inCluster_ok {serviceHost : Text} {inner : KubernetesClientInner lib}
    (hhost : host.var "KUBERNETES_SERVICE_HOST".toList = some serviceHost) :
    (inClusterSettings host serviceHost >>= fun settings => connect lib settings qps burst start) =
      .ok inner ↔ ∃ server token client, Connects lib host none server token client ∧
        inner = freshClient server token client qps burst start := by
  have hencode : Function.Injective (Option.map Base64.encode) := by
    refine Option.map_injective fun a b hab => Option.some.inj ?_
    rw [← Base64.decode_encode a, hab, Base64.decode_encode]
  simp only [inClusterSettings, bind_ok, mapError_ok, connect_ok, Except.ok.injEq]
  constructor
  · rintro ⟨-, ⟨content, htoken, rfl⟩, bytes, root, client, hca, hroot, hbuild, rfl⟩
    -- what was encoded from the file is decoded to the same bytes
    obtain rfl : (host.read (serviceAccount "ca.crt")).toOption = bytes := hencode hca
    exact ⟨_, _, client, .inCluster hhost htoken hroot hbuild, rfl⟩
  · rintro ⟨server, token, client, hconnects, rfl⟩
    cases hconnects with
    | inCluster hhost' htoken hroot hbuild =>
      obtain rfl := Option.some.inj (hhost.symm.trans hhost')
      exact ⟨_, ⟨_, htoken, rfl⟩, _, _, client, rfl, hroot, hbuild, rfl⟩

theorem trimEndMatches_ne (c : Char) (t s : Text) : trimEndMatches c t ≠ s ++ [c] := by
  intro h
  have hagain := List.rdropWhile_idempotent (· == c) t
  rw [show t.rdropWhile (· == c) = s ++ [c] from h, List.rdropWhile_concat_pos _ _ _ (by simp)]
    at hagain
  have hlength := (List.rdropWhile_prefix (· == c) s).length_le
  rw [hagain, List.length_append, List.length_singleton] at hlength
  omega

theorem fromConfiguration_none {kubeconfig : Option Text} :
    fromConfiguration lib host kubeconfig qps burst start = .ok none ↔
      kubeconfig = none ∧ host.var "KUBERNETES_SERVICE_HOST".toList = none := by
  unfold fromConfiguration
  cases kubeconfig with
  | some path => simp [bind_ok, map_ok]
  | none =>
    cases host.var "KUBERNETES_SERVICE_HOST".toList with
    | none => simp
    | some serviceHost => simp [bind_ok, map_ok]

theorem fromConfiguration_some {kubeconfig : Option Text} {inner : KubernetesClientInner lib} :
    fromConfiguration lib host kubeconfig qps burst start = .ok (some inner) ↔
      ∃ server token client, Connects lib host kubeconfig server token client ∧
        inner = freshClient server token client qps burst start := by
  unfold fromConfiguration
  cases kubeconfig with
  | some path => simp only [bind_ok, map_ok, Option.some.injEq, exists_eq_right, ← kubeconfig_ok]
  | none =>
    cases hhost : host.var "KUBERNETES_SERVICE_HOST".toList with
    | none =>
      refine iff_of_false (by simp) ?_
      rintro ⟨server, token, client, hconnects, -⟩
      cases hconnects with
      | inCluster hhost' =>
        rw [hhost] at hhost'
        contradiction
    | some serviceHost =>
      simp only [bind_ok, map_ok, Option.some.injEq, exists_eq_right, ← inCluster_ok hhost]

/-- There is no client exactly where no kubeconfig file is named and the proxy runs in no cluster;
otherwise there is an error, or a client that reaches the server as it was told to, whose URL does
not end in a slash. -/
theorem fromConfiguration_connects (lib : ClientLibrary) (host : Host) (kubeconfig : Option Text)
    (qps : FloatNumber binary32) (burst : UInt32) (start : Nat) :
    (fromConfiguration lib host kubeconfig qps burst start = .ok none ↔
      kubeconfig = none ∧ host.var "KUBERNETES_SERVICE_HOST".toList = none) ∧
    (∀ inner, fromConfiguration lib host kubeconfig qps burst start = .ok (some inner) ↔
      ∃ server token client, Connects lib host kubeconfig server token client ∧
        inner = freshClient server token client qps burst start) ∧
    ∀ inner, fromConfiguration lib host kubeconfig qps burst start = .ok (some inner) →
      ∀ s, inner.baseUrl ≠ s ++ ['/'] := by
  refine ⟨fromConfiguration_none, fun inner => fromConfiguration_some, fun inner h s => ?_⟩
  obtain ⟨server, token, client, -, rfl⟩ := fromConfiguration_some.mp h
  exact trimEndMatches_ne '/' server s

end Configuration

end KubeRbacProxy
