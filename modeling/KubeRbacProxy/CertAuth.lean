import KubeRbacProxy.Authn

/-! Client certificates.  The handshake callback records the first common name of the peer's
certificate, and the authenticator reads an identity from an internal header. -/

namespace KubeRbacProxy

open Library

/-- What a parsed certificate says of its subject: the common names, each as text where it is. -/
structure Certificate where
  commonNames : List (Option Text)

/-- `ClientCertificateCallback::handshake_complete_callback`, on the certificate of the peer. -/
def handshakeCompleteCallback (parseX509 : Bytes → Option Certificate)
    (peerCertificate : Option Bytes) : Option Text := do
  let der ← peerCertificate
  let certificate ← parseX509 der
  let first ← certificate.commonNames.head?
  first

def certIdentity : HeaderName := ⟨"x-pingora-client-cert-identity".toList, by decide⟩

def namedBy (value : Bytes) : Option Text := (toStr value).filter (· ≠ [])

/-- `ClientCertificateAuthenticator::authenticate`. -/
def certAuthenticate (usernamePrefix : Text) : Authenticator := fun request =>
  match (request.headers.get certIdentity).bind namedBy with
  | none => .ok none
  | some name => .ok (some ⟨usernamePrefix ++ name, []⟩)

example : certAuthenticate "cert:".toList ⟨"GET".toList, "/".toList, none,
    [(certIdentity, encodeUtf8 "alice".toList)]⟩ = .ok (some ⟨"cert:alice".toList, []⟩) := by
  decide +kernel

theorem certAuthenticate_some {usernamePrefix : Text} {request : Request} {identity : Identity} :
    certAuthenticate usernamePrefix request = .ok (some identity) ↔
      ∃ name, (request.headers.get certIdentity).bind namedBy = some name ∧
        identity = ⟨usernamePrefix ++ name, []⟩ := by
  unfold certAuthenticate
  cases (request.headers.get certIdentity).bind namedBy with
  | none => simp
  | some name => simp [eq_comm]

end KubeRbacProxy
