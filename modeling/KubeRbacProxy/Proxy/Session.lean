import KubeRbacProxy.CertAuth

/-! A session of the proxy and the request that its authenticators read.  Listeners with TLS and
without it feed the same proxy.  The identity recorded by the handshake replaces every header of
the internal name, but where nothing was recorded a header of that name sent by the client stays. -/

namespace KubeRbacProxy

open Library

structure SslDigest where
  extension : Option Text

structure Digest where
  sslDigest : Option SslDigest

structure Session where
  reqHeader : Request
  digest : Option Digest

/-- The identity that the TLS layer recorded for the connection. -/
def Session.recorded (session : Session) : Option Text :=
  (session.digest.bind (·.sslDigest)).bind (·.extension)

/-- `request_from_session`; none stands for the panic on an identity that is no header value. -/
def requestFromSession (session : Session) : Option Request :=
  match session.recorded with
  | none => some session.reqHeader
  | some identity =>
    (headerValue identity).map fun value =>
      { session.reqHeader with headers := session.reqHeader.headers.insert certIdentity value }

/-- A client's connection: to a plain listener, or to a TLS listener with the certificate that the
client showed. -/
inductive Connection where
  | plain
  | tls (peerCertificate : Option Bytes)

def Connection.recorded (parseX509 : Bytes → Option Certificate) : Connection → Option Text
  | .plain => none
  | .tls peerCertificate => handshakeCompleteCallback parseX509 peerCertificate

def Connection.session (parseX509 : Bytes → Option Certificate) (connection : Connection)
    (request : Request) : Session where
  reqHeader := request
  digest := some
    { sslDigest :=
        match connection with
        | .plain => none
        | .tls _ => some ⟨connection.recorded parseX509⟩ }

theorem Connection.session_recorded (parseX509 : Bytes → Option Certificate)
    (connection : Connection) (request : Request) :
    (connection.session parseX509 request).recorded = connection.recorded parseX509 := by
  cases connection <;> rfl

/-- The answer of the certificate authenticator on a session; none stands for a panic. -/
def certAnswer (usernamePrefix : Text) (session : Session) :
    Option (Except Text (Option Identity)) :=
  (requestFromSession session).map (certAuthenticate usernamePrefix)

theorem certAnswer_not_recorded (usernamePrefix : Text) {session : Session}
    (h : session.recorded = none) :
    certAnswer usernamePrefix session =
      some (certAuthenticate usernamePrefix session.reqHeader) := by
  simp only [certAnswer, requestFromSession, h, Option.map_some]

theorem certAnswer_recorded {usernamePrefix cn : Text} {session : Session}
    (h : session.recorded = some cn) :
    certAnswer usernamePrefix session = (headerValue cn).map fun value =>
      match namedBy value with
      | none => .ok none
      | some name => .ok (some ⟨usernamePrefix ++ name, []⟩) := by
  simp only [certAnswer, requestFromSession, h, Option.map_map]
  congr 1
  funext value
  cases hname : namedBy value <;>
    simp [certAuthenticate, HeaderMap.get_insert_self, hname]

theorem namedBy_headerValue {t name : Text} {value : Bytes} (h : headerValue t = some value)
    (hname : namedBy value = some name) : name = t := by
  unfold headerValue at h
  split at h
  · obtain rfl := Option.some.inj h
    exact toStr_encodeUtf8 (Option.filter_eq_some_iff.mp hname).1
  · contradiction

/-- The answer names the recorded identity, and nobody where none was recorded. -/
def NamesRecorded (usernamePrefix : Text) (session : Session) : Prop :=
  ∀ identity, certAnswer usernamePrefix session = some (.ok (some identity)) →
    ∃ cn, session.recorded = some cn ∧ identity.name = usernamePrefix ++ cn

theorem namesRecorded_of_recorded {usernamePrefix cn : Text} {session : Session}
    (h : session.recorded = some cn) : NamesRecorded usernamePrefix session := by
  intro identity hanswer
  rw [certAnswer_recorded h] at hanswer
  obtain ⟨value, hvalue, hidentity⟩ := Option.map_eq_some_iff.mp hanswer
  cases hname : namedBy value with
  | none => rw [hname] at hidentity; simp at hidentity
  | some name =>
    rw [hname] at hidentity
    obtain rfl : (⟨usernamePrefix ++ name, []⟩ : Identity) = identity := by simpa using hidentity
    exact ⟨cn, h, by rw [namedBy_headerValue hvalue hname]⟩

/-- A user found by the certificate authenticator has the name that was recorded, or a name that
the client sent where none was. -/
theorem certAuthenticate_session {usernamePrefix : Text} {session : Session} {request : Request}
    {identity : Identity} (hrequest : requestFromSession session = some request)
    (h : certAuthenticate usernamePrefix request = .ok (some identity)) :
    (∃ cn, session.recorded = some cn ∧ identity = ⟨usernamePrefix ++ cn, []⟩) ∨
      session.recorded = none ∧
        certAuthenticate usernamePrefix session.reqHeader = .ok (some identity) := by
  have hanswer : certAnswer usernamePrefix session = some (.ok (some identity)) := by
    rw [certAnswer, hrequest, Option.map_some, h]
  cases hrecorded : session.recorded with
  | none =>
    rw [certAnswer_not_recorded usernamePrefix hrecorded] at hanswer
    exact Or.inr ⟨rfl, Option.some.inj hanswer⟩
  | some cn =>
    obtain ⟨name, -, rfl⟩ := certAuthenticate_some.mp h
    obtain ⟨cn', hcn, hname⟩ := namesRecorded_of_recorded hrecorded _ hanswer
    obtain rfl := Option.some.inj (hrecorded.symm.trans hcn)
    exact Or.inl ⟨cn, rfl, by rw [← hname]⟩

def forged : Request :=
  ⟨"GET".toList, "/".toList, none, [(certIdentity, encodeUtf8 "eve".toList)]⟩

def bare : Request := ⟨"GET".toList, "/".toList, none, []⟩

/-- On every connection and for every request, the answer names the recorded identity exactly when
one was recorded or the request's own header of the internal name names nobody; and the answer is
the same for all requests on the connection exactly when an identity was recorded. -/
theorem certAnswer_names_recorded_iff (parseX509 : Bytes → Option Certificate)
    (usernamePrefix : Text) (connection : Connection) :
    (∀ request, NamesRecorded usernamePrefix (connection.session parseX509 request) ↔
      (connection.recorded parseX509).isSome ∨
        (request.headers.get certIdentity).bind namedBy = none) ∧
    ((∀ request other, certAnswer usernamePrefix (connection.session parseX509 request) =
        certAnswer usernamePrefix (connection.session parseX509 other)) ↔
      (connection.recorded parseX509).isSome) := by
  have hsession := connection.session_recorded parseX509
  cases hrecorded : connection.recorded parseX509 with
  | some cn =>
    rw [hrecorded] at hsession
    refine ⟨fun request => ?_, ?_⟩
    · simp [namesRecorded_of_recorded (hsession request)]
    · simp only [certAnswer_recorded (hsession _), implies_true, Option.isSome_some]
  | none =>
    rw [hrecorded] at hsession
    have hanswer := fun request => certAnswer_not_recorded usernamePrefix (hsession request)
    refine ⟨fun request => ?_, ?_⟩
    · simp only [NamesRecorded, hanswer, Option.some.injEq, hsession, certAuthenticate_some,
        Option.isSome_none, Bool.false_eq_true, false_or]
      constructor
      · intro h
        refine Option.eq_none_iff_forall_ne_some.mpr fun name hname => ?_
        obtain ⟨cn, hcn, -⟩ := h _ ⟨name, hname, rfl⟩
        contradiction
      · rintro hnone identity ⟨name, hname, -⟩
        have : none = some name := hnone.symm.trans hname
        contradiction
    · simp only [Option.isSome_none, Bool.false_eq_true, iff_false]
      intro h
      have hsame := h forged bare
      rw [hanswer, hanswer] at hsame
      have hforged : certAuthenticate usernamePrefix forged =
          .ok (some ⟨usernamePrefix ++ "eve".toList, []⟩) :=
        certAuthenticate_some.mpr ⟨_, by decide +kernel, rfl⟩
      have hbare : certAuthenticate usernamePrefix bare = .ok none := rfl
      change some (certAuthenticate usernamePrefix forged) =
        some (certAuthenticate usernamePrefix bare) at hsame
      rw [hforged, hbare] at hsame
      simp at hsame

/-- A client of the plain listener is given the name that it sends. -/
theorem certAnswer_forged :
    ¬NamesRecorded [] (Connection.plain.session (fun _ => none) forged) := by
  intro h
  obtain ⟨cn, hcn, -⟩ := h ⟨"eve".toList, []⟩ (by decide +kernel)
  contradiction

/-! ### Names that reach the authenticator -/

/-- The request is built, and the authenticator gives the recorded name if there is one. -/
def CarriesName (usernamePrefix cn : Text) (session : Session) : Prop :=
  (requestFromSession session).isSome ∧
    (cn ≠ [] → certAnswer usernamePrefix session = some (.ok (some ⟨usernamePrefix ++ cn, []⟩)))

/-- The common name of a certificate reaches the authenticator exactly when all its characters are
visible ASCII, spaces, or tabs. -/
theorem certAnswer_carries_iff (parseX509 : Bytes → Option Certificate) (usernamePrefix : Text)
    {connection : Connection} {cn : Text} (h : connection.recorded parseX509 = some cn)
    (request : Request) :
    CarriesName usernamePrefix cn (connection.session parseX509 request) ↔
      ∀ c ∈ cn, VisibleChar c := by
  have hrecorded : (connection.session parseX509 request).recorded = some cn :=
    (connection.session_recorded parseX509 request).trans h
  rw [CarriesName, certAnswer_recorded hrecorded]
  constructor
  · rintro ⟨-, hanswer⟩
    by_cases hnil : cn = []
    · simp [hnil]
    obtain ⟨value, hvalue, hidentity⟩ := Option.map_eq_some_iff.mp (hanswer hnil)
    obtain rfl := headerValue_some hvalue
    cases hname : namedBy (encodeUtf8 cn) with
    | none => simp [hname] at hidentity
    | some name => exact (toStr_encodeUtf8_iff.mp (Option.filter_eq_some_iff.mp hname).1).2
  · intro hvisible
    have hvalue := headerValue_visible hvisible
    refine ⟨by simp [requestFromSession, hrecorded, hvalue], fun hne => ?_⟩
    have hname : namedBy (encodeUtf8 cn) = some cn :=
      Option.filter_eq_some_iff.mpr ⟨toStr_encodeUtf8_iff.mpr ⟨rfl, hvisible⟩, by simpa using hne⟩
    simp only [hvalue, Option.map_some, hname]

/-- The handshake of a client whose certificate has the common name `cn`. -/
def named (cn : Text) : Bytes → Option Certificate := fun _ => some ⟨[some cn]⟩

theorem certAnswer_carries_iff_alice :
    CarriesName "cert:".toList "alice".toList
      ((Connection.tls (some [])).session (named "alice".toList) bare) ↔
    ∀ c ∈ "alice".toList, VisibleChar c :=
  certAnswer_carries_iff _ _ rfl bare

/-- A name with a letter beyond ASCII gives no identity, and one with a line feed a panic. -/
theorem certAnswer_loses_name :
    (Connection.tls (some [])).recorded (named "José".toList) = some "José".toList ∧
    certAnswer [] ((Connection.tls (some [])).session (named "José".toList) bare) =
      some (.ok none) ∧
    (Connection.tls (some [])).recorded (named "ops\n".toList) = some "ops\n".toList ∧
    requestFromSession ((Connection.tls (some [])).session (named "ops\n".toList) bare) = none :=
  ⟨rfl, by decide +kernel, rfl, by decide +kernel⟩

end KubeRbacProxy
