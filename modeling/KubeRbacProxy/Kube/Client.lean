import KubeRbacProxy.Http
import KubeRbacProxy.Types
import KubeRbacProxy.Library.ReviewCache

/-! The Kubernetes client: token reviews, access reviews, and the retries of both.  Times are in
nanoseconds.  `Attempts` gives the outcome of each request that `requestWithRetry` sends, and a body
that is not the JSON expected is an error of its response. -/

namespace KubeRbacProxy

open Library

structure Response (Body : Type) where
  status : Nat
  statusText : Text
  json : Except Text Body

def Response.isSuccess {Body : Type} (r : Response Body) : Bool := 200 ≤ r.status && r.status < 300

def Response.isServerError {Body : Type} (r : Response Body) : Bool :=
  500 ≤ r.status && r.status < 600

/-- The outcome of sending attempt 0, 1, or 2 of a request. -/
abbrev Attempts (Body : Type) := Nat → Except Text (Response Body)

def Response.retryable {Body : Type} (r : Response Body) : Bool :=
  r.status == 429 || r.isServerError

def retryLoop {Body : Type} (send : Attempts Body) (attempt : Nat) :
    Nat → Except Text (Response Body)
  | 0 => send attempt
  | left + 1 =>
    match send attempt with
    | .error e => .error e
    | .ok response => if response.retryable then retryLoop send (attempt + 1) left else .ok response

/-- Three attempts at most; the last response is returned whatever its status. -/
def requestWithRetry {Body : Type} (send : Attempts Body) : Except Text (Response Body) :=
  retryLoop send 0 2

/-- The number of requests that `retryLoop` sends. -/
def requestsSent {Body : Type} (send : Attempts Body) (attempt : Nat) : Nat → Nat
  | 0 => 1
  | left + 1 =>
    match send attempt with
    | .error _ => 1
    | .ok response =>
      if response.retryable then requestsSent send (attempt + 1) left + 1 else 1

structure ReviewBody (Spec : Type) where
  apiVersion : Text
  kind : Text
  spec : Spec

/-! ### Token reviews -/

structure TokenSpec where
  token : Text
  audiences : List Text
  deriving DecidableEq

structure ReviewUser where
  username : Option Text
  groups : Option (List Text)

structure TokenStatus where
  authenticated : Option Bool
  user : Option ReviewUser

structure TokenResponse where
  status : Option TokenStatus

def tokenReviewBody (token : Text) (audiences : List Text) : ReviewBody TokenSpec where
  apiVersion := "authentication.k8s.io/v1".toList
  kind := "TokenReview".toList
  spec := ⟨token, audiences⟩

def tokenIdentity (result : TokenResponse) : Option Identity :=
  match result.status with
  | none => none
  | some status =>
    if status.authenticated = some true then
      let user := status.user.getD ⟨none, none⟩
      user.username.map fun name => ⟨name, user.groups.getD []⟩
    else none

def tokenReview (send : Attempts TokenResponse) : Except Text (Option Identity) :=
  match requestWithRetry send with
  | .error e => .error e
  | .ok response =>
    if response.isSuccess then response.json.map tokenIdentity
    else .error ("TokenReview returned ".toList ++ response.statusText)

/-! ### Access reviews -/

structure ResourceSpec where
  namespace_ : Text
  verb : Text
  group : Text
  version : Text
  resource : Text
  subresource : Text
  name : Text
  deriving DecidableEq

structure NonResourceSpec where
  path : Text
  verb : Text
  deriving DecidableEq

structure AccessSpec where
  user : Text
  groups : List Text
  resource : Option ResourceSpec
  nonResource : Option NonResourceSpec
  deriving DecidableEq

structure AccessStatus where
  allowed : Option Bool

structure AccessResponse where
  status : Option AccessStatus

def accessKey (attrs : Attributes) : Text :=
  ['|'].intercalate [attrs.user.name, attrs.verb, attrs.namespace_, attrs.apiGroup,
    attrs.apiVersion, attrs.resource, attrs.path]

def accessReviewBody (attrs : Attributes) : ReviewBody AccessSpec where
  apiVersion := "authorization.k8s.io/v1".toList
  kind := "SubjectAccessReview".toList
  spec :=
    { user := attrs.user.name
      groups := attrs.user.groups
      resource :=
        if attrs.resourceRequest then
          some ⟨attrs.namespace_, attrs.verb, attrs.apiGroup, attrs.apiVersion, attrs.resource,
            attrs.subresource, attrs.name⟩
        else none
      nonResource := if attrs.resourceRequest then none else some ⟨attrs.path, attrs.verb⟩ }

/-- The decision in a parsed response: no `allowed` bit is a denial. -/
def accessAllowed (result : AccessResponse) : Bool :=
  (result.status.bind (·.allowed)).getD false

def accessReview (send : Attempts AccessResponse) : Except Text Bool :=
  match requestWithRetry send with
  | .error e => .error e
  | .ok response =>
    if response.isSuccess then response.json.map accessAllowed
    else .error ("SubjectAccessReview returned ".toList ++ response.statusText)

def cacheTtl : Nat := 30 * 10 ^ 9

/-- `authorize` with no other call between its steps: the cache is looked up at `now` and the
decision stored at `later`. -/
def authorize (cache : ReviewCache.Table Text Bool) (attrs : Attributes) (now : Nat)
    (post : ReviewBody AccessSpec → Attempts AccessResponse) (later : Nat) :
    Except Text Bool × ReviewCache.Table Text Bool :=
  match cache.fresh cacheTtl now (accessKey attrs) with
  | some result => (.ok result, cache)
  | none =>
    match accessReview (post (accessReviewBody attrs)) with
    | .error e => (.error e, cache)
    | .ok allowed => (.ok allowed, cache.insert (accessKey attrs) later allowed)

/-! ### The token authenticator -/

def authorization : HeaderName := ⟨"authorization".toList, by decide⟩

/-- The bearer token of a request: what follows `Bearer ` or `bearer ` in its first
`authorization` header, when that is readable as text. -/
def bearerToken (request : Request) : Option Text :=
  (request.headers.get authorization).bind fun value => (toStr value).bind fun x =>
    (stripPrefix "Bearer ".toList x).or (stripPrefix "bearer ".toList x)

/-- `KubernetesAuthenticator::authenticate` with no other call between its steps. -/
def tokenAuthenticate (audiences : List Text) (cache : ReviewCache.Table Text (Option Identity))
    (request : Request) (now : Nat) (post : ReviewBody TokenSpec → Attempts TokenResponse)
    (later : Nat) :
    Except Text (Option Identity) × ReviewCache.Table Text (Option Identity) :=
  match bearerToken request with
  | none => (.ok none, cache)
  | some token =>
    match cache.fresh cacheTtl now token with
    | some result => (.ok result, cache)
    | none =>
      match tokenReview (post (tokenReviewBody token audiences)) with
      | .error e => (.error e, cache)
      | .ok result => (.ok result, cache.insert token later result)

end KubeRbacProxy
