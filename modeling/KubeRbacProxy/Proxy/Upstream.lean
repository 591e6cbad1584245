import KubeRbacProxy.Kube.Configuration

/-! The connection to the upstream: the certificates that the proxy reads for it when it is built,
and how a request is sent.  PEM files and certificates are parsed by a library, and the name of a
host is looked up by the system. -/

namespace KubeRbacProxy

open Library

structure Uri where
  schemeStr : Option Text
  host : Option Text
  portU16 : Option UInt16

/-- The items of a PEM file, and what a connection needs of them.  To make a key or a certificate
fails with a panic. -/
structure PemLibrary where
  certs : Bytes → List (Except Text Bytes)
  privateKey : Bytes → Except Text (Option Bytes)
  CertKey : Type
  newCertKey : List Bytes → Bytes → Except Text CertKey
  X509 : Type
  newX509 : Bytes → Except Text X509

/-- The value, or else the message that `expect` panics with. -/
def expectOk {α : Type} (value : Except Text α) (message : String) : Except Text α :=
  value.mapError fun _ => message.toList

section Build

variable (lib : PemLibrary) (host : Host)

def upstreamClientCertKey (certFile keyFile : Option Text) : Except Text (Option lib.CertKey) :=
  match certFile, keyFile with
  | some cert, some key => do
    let pem ← expectOk (host.read cert) "upstream certificate"
    let certs ← expectOk ((lib.certs pem).mapM id) "upstream certificate PEM"
    let keyPem ← expectOk (host.read key) "upstream key"
    let found ← expectOk (lib.privateKey keyPem) "upstream key PEM"
    let der ← okOr found "upstream private key".toList
    (lib.newCertKey certs der).map some
  | _, _ => .ok none

def upstreamCa : Option Text → Except Text (Option (List lib.X509))
  | none => .ok none
  | some path => do
    let pem ← expectOk (host.read path) "upstream CA"
    let certs ← expectOk ((lib.certs pem).mapM id) "upstream CA PEM"
    (certs.mapM lib.newX509).map some

/-- The fields of the proxy that `upstream_peer` reads.  A duration is in nanoseconds. -/
structure Upstream where
  upstream : Uri
  upstreamTimeout : Nat
  upstreamForceH2c : Bool
  upstreamClientCertKey : Option lib.CertKey
  upstreamCa : Option (List lib.X509)
  http2MaxConcurrentStreams : UInt32
  http2MaxSize : UInt32

/-- `build_proxy` on these fields. -/
def buildUpstream (upstream : Uri) (upstreamTimeout : Nat) (upstreamForceH2c : Bool)
    (clientCertFile clientKeyFile caFile : Option Text)
    (http2MaxConcurrentStreams http2MaxSize : UInt32) : Except Text (Upstream lib) := do
  let certKey ← upstreamClientCertKey lib host clientCertFile clientKeyFile
  let ca ← upstreamCa lib host caFile
  .ok ⟨upstream, upstreamTimeout, upstreamForceH2c, certKey, ca, http2MaxConcurrentStreams,
    http2MaxSize⟩

end Build

/-- The HTTP versions of a connection are the most and the least that it may have. -/
structure HttpPeer (lib : PemLibrary) (Addr : Type) where
  address : Addr
  tls : Bool
  sni : Text
  connectionTimeout : Nat
  readTimeout : Nat
  writeTimeout : Nat
  httpVersion : Nat × Nat
  maxH2Streams : Nat
  h2StreamWindowSize : UInt32
  h2ConnectionWindowSize : UInt32
  clientCertKey : Option lib.CertKey
  ca : Option (List lib.X509)

variable {lib : PemLibrary} {host : Host} {Addr : Type}

/-- The name of the host and the port, which is that of the protocol where there is none. -/
def Uri.authority (uri : Uri) (host : Text) : Text :=
  let tls := uri.schemeStr = some "https".toList
  let port := uri.portU16.getD (if tls then 443 else 80)
  host ++ ":".toList ++ decimal port.toNat

/-- `resolve` gives the first address of a name with a port.  Where there is none, a peer is made
with a panic. -/
def upstreamPeer (resolve : Text → Option Addr) (proxy : Upstream lib) :
    Option (Except Text (HttpPeer lib Addr)) :=
  match proxy.upstream.host with
  | none => some (.error "upstream has no host".toList)
  | some host =>
    let h2c := proxy.upstream.schemeStr = some "h2c".toList ∨ proxy.upstreamForceH2c = true
    let tls := proxy.upstream.schemeStr = some "https".toList
    (resolve (proxy.upstream.authority host)).map fun address =>
      .ok
        { address := address
          tls := decide tls
          sni := host
          connectionTimeout := proxy.upstreamTimeout
          readTimeout := proxy.upstreamTimeout
          writeTimeout := proxy.upstreamTimeout
          httpVersion := if h2c then (2, 2) else if tls then (2, 1) else (1, 1)
          maxH2Streams := proxy.http2MaxConcurrentStreams.toNat
          h2StreamWindowSize := proxy.http2MaxSize
          h2ConnectionWindowSize := proxy.http2MaxSize
          clientCertKey := proxy.upstreamClientCertKey
          ca := proxy.upstreamCa }

/-! ### What a connection is made with -/

/-- The certificates of a PEM file, each of them well formed. -/
def PemCerts (lib : PemLibrary) (host : Host) (path : Text) (certs : List Bytes) : Prop :=
  ∃ pem, host.read path = .ok pem ∧ lib.certs pem = certs.map .ok

/-- The key that the proxy shows to the upstream, if there are both of its files. -/
inductive ClientKey (lib : PemLibrary) (host : Host) :
    Option Text → Option Text → Option lib.CertKey → Prop
  | none {certFile keyFile : Option Text} (h : certFile = none ∨ keyFile = none) :
      ClientKey lib host certFile keyFile none
  | files {cert key : Text} {certs : List Bytes} {keyPem der : Bytes} {certKey : lib.CertKey}
      (hcerts : PemCerts lib host cert certs) (hread : host.read key = .ok keyPem)
      (hkey : lib.privateKey keyPem = .ok (some der))
      (hnew : lib.newCertKey certs der = .ok certKey) :
      ClientKey lib host (some cert) (some key) (some certKey)

/-- The roots that the certificate of the upstream is checked against, if there is a file of
them. -/
inductive UpstreamRoots (lib : PemLibrary) (host : Host) :
    Option Text → Option (List lib.X509) → Prop
  | none : UpstreamRoots lib host none none
  | file {path : Text} {certs : List Bytes} {roots : List lib.X509}
      (hcerts : PemCerts lib host path certs)
      (hnew : List.Forall₂ (fun der root => lib.newX509 der = .ok root) certs roots) :
      UpstreamRoots lib host (some path) (some roots)

theorem mapM_id_ok {items : List (Except Text Bytes)} {certs : List Bytes} :
    items.mapM id = .ok certs ↔ items = certs.map .ok := by
  rw [mapM_eq_ok, ← List.forall₂_eq_eq_eq, List.forall₂_map_right_iff]
  rfl

theorem expectOk_ok {α : Type} {value : Except Text α} {message : String} {a : α} :
    expectOk value message = .ok a ↔ value = .ok a := mapError_ok

theorem upstreamClientCertKey_ok {certFile keyFile : Option Text} {certKey : Option lib.CertKey} :
    upstreamClientCertKey lib host certFile keyFile = .ok certKey ↔
      ClientKey lib host certFile keyFile certKey := by
  unfold upstreamClientCertKey
  split
  · rename_i cert key
    simp only [bind_ok, expectOk_ok, mapM_id_ok, okOr_ok, map_ok]
    constructor
    · rintro ⟨pem, hpem, certs, hcerts, keyPem, hread, found, hfound, der, rfl, new, hnew, rfl⟩
      exact .files ⟨pem, hpem, hcerts⟩ hread hfound hnew
    · intro h
      cases h with
      | none h => simp at h
      | files hcerts hread hkey hnew =>
        obtain ⟨pem, hpem, hcerts⟩ := hcerts
        exact ⟨pem, hpem, _, hcerts, _, hread, _, hkey, _, rfl, _, hnew, rfl⟩
  · rename_i hnot
    constructor
    · intro h
      obtain rfl := Except.ok.inj h
      refine .none ?_
      cases certFile with
      | none => exact Or.inl rfl
      | some cert =>
        cases keyFile with
        | none => exact Or.inr rfl
        | some key => exact absurd rfl (hnot cert key rfl)
    · intro h
      cases h with
      | none h => rfl
      | files hcerts hread hkey hnew => exact absurd rfl (hnot _ _ rfl)

theorem upstreamCa_ok {caFile : Option Text} {ca : Option (List lib.X509)} :
    upstreamCa lib host caFile = .ok ca ↔ UpstreamRoots lib host caFile ca := by
  cases caFile with
  | none =>
    constructor
    · intro h
      obtain rfl := Except.ok.inj h
      exact .none
    · intro h
      cases h
      rfl
  | some path =>
    simp only [upstreamCa, bind_ok, expectOk_ok, mapM_id_ok, map_ok]
    constructor
    · rintro ⟨pem, hpem, certs, hcerts, roots, hroots, rfl⟩
      exact .file ⟨pem, hpem, hcerts⟩ (mapM_eq_ok.mp hroots)
    · intro h
      cases h with
      | file hcerts hnew =>
        obtain ⟨pem, hpem, hcerts⟩ := hcerts
        exact ⟨pem, hpem, _, hcerts, _, mapM_eq_ok.mpr hnew, rfl⟩

theorem buildUpstream_ok {uri : Uri} {timeout : Nat} {force : Bool}
    {certFile keyFile caFile : Option Text} {streams size : UInt32} {upstream : Upstream lib} :
    buildUpstream lib host uri timeout force certFile keyFile caFile streams size = .ok upstream ↔
      ∃ certKey roots, ClientKey lib host certFile keyFile certKey ∧
        UpstreamRoots lib host caFile roots ∧
        upstream = ⟨uri, timeout, force, certKey, roots, streams, size⟩ := by
  simp only [buildUpstream, bind_ok, upstreamClientCertKey_ok, upstreamCa_ok, Except.ok.injEq]
  constructor
  · rintro ⟨certKey, hkey, roots, hroots, rfl⟩
    exact ⟨certKey, roots, hkey, hroots, rfl⟩
  · rintro ⟨certKey, roots, hkey, hroots, rfl⟩
    exact ⟨certKey, hkey, roots, hroots, rfl⟩

theorem buildUpstream_error {uri : Uri} {timeout : Nat} {force : Bool}
    {certFile keyFile caFile : Option Text} {streams size : UInt32} {message : Text}
    (h : buildUpstream lib host uri timeout force certFile keyFile caFile streams size =
      .error message) :
    ¬∃ certKey roots, ClientKey lib host certFile keyFile certKey ∧
      UpstreamRoots lib host caFile roots := by
  rintro ⟨certKey, roots, hkey, hroots⟩
  rw [buildUpstream_ok.mpr ⟨certKey, roots, hkey, hroots, rfl⟩] at h
  contradiction

/-- How a connection speaks: HTTP/2 or else HTTP/1 over TLS, HTTP/2 from the start without TLS, or
HTTP/1 without TLS. -/
inductive Speaks (uri : Uri) (forceH2c : Bool) : Bool → Nat × Nat → Prop
  | https (hscheme : uri.schemeStr = some "https".toList) (hforce : forceH2c = false) :
      Speaks uri forceH2c true (2, 1)
  | h2c (hscheme : uri.schemeStr ≠ some "https".toList)
      (hh2c : uri.schemeStr = some "h2c".toList ∨ forceH2c = true) :
      Speaks uri forceH2c false (2, 2)
  | http (hscheme : uri.schemeStr ≠ some "https".toList)
      (hh2c : uri.schemeStr ≠ some "h2c".toList) (hforce : forceH2c = false) :
      Speaks uri forceH2c false (1, 1)

/-- The connection goes to the address of the upstream's host, at its port or at that of the
protocol, with what the proxy was built with. -/
structure PeerOf (resolve : Text → Option Addr) (proxy : Upstream lib) (peer : HttpPeer lib Addr) :
    Prop where
  sni : proxy.upstream.host = some peer.sni
  address : resolve (peer.sni ++ ":".toList ++
    decimal (proxy.upstream.portU16.getD (if peer.tls then 443 else 80)).toNat) = some peer.address
  speaks : Speaks proxy.upstream proxy.upstreamForceH2c peer.tls peer.httpVersion
  timeouts : peer.connectionTimeout = proxy.upstreamTimeout ∧
    peer.readTimeout = proxy.upstreamTimeout ∧ peer.writeTimeout = proxy.upstreamTimeout
  limits : peer.maxH2Streams = proxy.http2MaxConcurrentStreams.toNat ∧
    peer.h2StreamWindowSize = proxy.http2MaxSize ∧ peer.h2ConnectionWindowSize = proxy.http2MaxSize
  clientCertKey : peer.clientCertKey = proxy.upstreamClientCertKey
  ca : peer.ca = proxy.upstreamCa

/-- HTTP/2 from the start is never spoken over TLS if it is not forced on an HTTPS upstream. -/
theorem speaks_of_scheme {uri : Uri} {forceH2c : Bool}
    (h : uri.schemeStr = some "https".toList → forceH2c = false) :
    Speaks uri forceH2c (decide (uri.schemeStr = some "https".toList))
      (if uri.schemeStr = some "h2c".toList ∨ forceH2c = true then (2, 2)
        else if uri.schemeStr = some "https".toList then (2, 1) else (1, 1)) := by
  by_cases hhttps : uri.schemeStr = some "https".toList
  · have hh2c : ¬(uri.schemeStr = some "h2c".toList ∨ forceH2c = true) := by
      rw [hhttps, h hhttps]
      decide
    rw [if_neg hh2c, if_pos hhttps, decide_eq_true hhttps]
    exact .https hhttps (h hhttps)
  · rw [decide_eq_false hhttps, if_neg hhttps]
    split
    · rename_i hh2c
      exact .h2c hhttps hh2c
    · rename_i hh2c
      rw [not_or, Bool.not_eq_true] at hh2c
      exact .http hhttps hh2c.1 hh2c.2

variable {resolve : Text → Option Addr}

theorem upstreamPeer_error {proxy : Upstream lib} :
    (∃ e, upstreamPeer resolve proxy = some (.error e)) ↔ proxy.upstream.host = none := by
  unfold upstreamPeer
  cases proxy.upstream.host with
  | none => exact iff_of_true ⟨_, rfl⟩ rfl
  | some name => simp

theorem upstreamPeer_panics {proxy : Upstream lib} :
    upstreamPeer resolve proxy = none ↔
      ∃ name, proxy.upstream.host = some name ∧ resolve (proxy.upstream.authority name) = none := by
  unfold upstreamPeer
  cases proxy.upstream.host with
  | none => simp
  | some name => simp

theorem upstreamPeer_ok {proxy : Upstream lib} {peer : HttpPeer lib Addr}
    (hforce : proxy.upstream.schemeStr = some "https".toList → proxy.upstreamForceH2c = false)
    (h : upstreamPeer resolve proxy = some (.ok peer)) : PeerOf resolve proxy peer := by
  unfold upstreamPeer at h
  split at h
  · simp at h
  · rename_i name hname
    simp only [Option.map_eq_some_iff, Except.ok.injEq] at h
    obtain ⟨address, haddress, rfl⟩ := h
    exact
      { sni := hname
        address := by
          simp only [decide_eq_true_eq]
          exact haddress
        speaks := speaks_of_scheme hforce
        timeouts := ⟨rfl, rfl, rfl⟩
        limits := ⟨rfl, rfl, rfl⟩
        clientCertKey := rfl
        ca := rfl }

end KubeRbacProxy
