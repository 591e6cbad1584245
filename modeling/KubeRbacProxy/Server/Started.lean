import KubeRbacProxy.Main.Startup
import KubeRbacProxy.Server.Safety

/-! From the arguments to a request that is forwarded.  What a run of the server lets through rests
on what `main` was given: the files and the addresses that the arguments name, and the cluster. -/

namespace KubeRbacProxy

open Library ReviewCache

section Started

variable (lib : StartLibrary) (host : Host) (a : MainArgs) {jwt : Jwt} (s : Backend jwt) (i : Nat)

/-- There is an API server to ask. -/
def HasApiServer : Prop :=
  ∃ server token client, Connects lib.client host a.kubeconfig server token client

/-- Who vouches for the user of task `i`: the certificate whose name TLS recorded, a key of the
issuer, or the API server; or nobody, where TLS recorded no name and the client sent this one under
the name of the internal header. -/
inductive Authenticated (session : Session) (request : Request) (user : Identity) : Prop
  | certificate {path cn : Text} (hca : a.clientCaFile = some path)
      (hrecorded : session.recorded = some cn) (huser : user = ⟨cn, []⟩)
  | selfNamed {path : Text} (hca : a.clientCaFile = some path)
      (hunrecorded : session.recorded = none)
      (hheader : certAuthenticate [] session.reqHeader = .ok (some user))
  | oidc {auth : OidcAuthenticator} {read : TokenRead jwt auth} {k : Nat}
      (htrusts : TrustsIssuer lib a (some auth)) (htoken : bearerToken request = some read.token)
      (haccepted : AcceptedBy (s.oidc auth) (Nat.pair i k) read user)
  | review {token : Text} {review : Review TokenSpec (Attempts TokenResponse)} {k : Nat}
      (hserver : HasApiServer lib host a) (htoken : bearerToken request = some token)
      (hvouched : TokenVouched a.authTokenAudiences s.tokens (Nat.pair i k) token user review)

/-- A record that a static rule or the API server allows. -/
def Granted (cfg : AuthorizationConfig) (attr : Attributes) : Prop :=
  staticAllows cfg.staticRules attr = true ∨
    HasApiServer lib host a ∧ ∃ k review, AccessVouched s.access (Nat.pair i k) attr review

variable {lib host a s i} {start : Nat} {running : Running lib}

theorem Running.Guarded.hasApiServer (h : running.Guarded lib host a start)
    (hclient : running.deployment.kubeClient = true) : HasApiServer lib host a := by
  rw [h.reviews] at hclient
  obtain ⟨inner, hinner⟩ := Option.isSome_iff_exists.mp hclient
  have hwith := h.client
  rw [hinner] at hwith
  obtain ⟨server, token, client, hconnects, -⟩ := hwith
  exact ⟨server, token, client, hconnects⟩

theorem Running.Guarded.authenticated (h : running.Guarded lib host a start) {session : Session}
    {request : Request} {user : Identity}
    (huser : UserVouched running.deployment s i session request user ∨
      SelfNamed running.deployment session user) :
    Authenticated lib host a s i session request user := by
  have hargs := congrArg ProxyArgs.toArgs (congrArg ServerArgs.toProxyArgs h.arguments)
  rcases huser with hvouched | hself
  swap
  · have hca := hself.ca
    rw [hargs] at hca
    obtain ⟨path, hpath⟩ := Option.isSome_iff_exists.mp hca
    exact .selfNamed hpath hself.unrecorded hself.header
  cases hvouched with
  | certificate hca hrecorded huser =>
    rw [hargs] at hca
    obtain ⟨path, hpath⟩ := Option.isSome_iff_exists.mp hca
    exact .certificate hpath hrecorded huser
  | oidc hauth htoken haccepted =>
    have htrusts := h.oidc
    rw [hauth] at htrusts
    exact .oidc htrusts htoken haccepted
  | review hclient htoken hvouched =>
    rw [hargs] at hvouched
    exact .review (h.hasApiServer hclient) htoken hvouched

theorem Running.Guarded.granted (h : running.Guarded lib host a start) {attr : Attributes}
    (hpermitted : Permitted running.deployment s i attr) :
    Granted lib host a s i running.deployment.authz attr :=
  hpermitted.imp id fun ⟨hclient, hreview⟩ => ⟨h.hasApiServer hclient, hreview⟩

end Started

end KubeRbacProxy
