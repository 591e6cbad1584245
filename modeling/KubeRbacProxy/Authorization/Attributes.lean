import KubeRbacProxy.Authorization.Template
import KubeRbacProxy.Config
import KubeRbacProxy.Http
import KubeRbacProxy.Library.Except
import KubeRbacProxy.Types

/-! The attributes that a request is authorized with.  The first endpoint whose pattern matches the
path decides; without one, the resource attributes of the configuration or the path itself do. -/

namespace KubeRbacProxy

open Library

def kubeVerb (method : Text) : Text :=
  if method = "GET".toList then "get".toList
  else if method = "POST".toList then "create".toList
  else if method = "PUT".toList then "update".toList
  else if method = "PATCH".toList then "patch".toList
  else if method = "DELETE".toList then "delete".toList
  else if method = "OPTIONS".toList then "options".toList
  else if method = "HEAD".toList then "head".toList
  else ['*']

def queryValue (req : Request) (name : Text) : Option Text :=
  ((parseForm (req.query.getD [])).find? fun pair => pair.1 = name).map Prod.snd

def headerText (req : Request) (name : Text) : Option Text :=
  (req.headers.getText name).bind toStr

/-- The values that the rewrites of a rule take from a request: the replacement, the header, and the
query parameter. -/
def endpointRewrites (req : Request) (r : Rewrites) : Except Text (List (Text × Text × Text)) :=
  let header := r.byHttpHeader.map fun h => (headerText req h.name).getD []
  let query := r.byQueryParameter.map fun q => (queryValue req q.name).getD []
  match r.byHttpHeader, header == some [] with
  | some h, true => .error ("required header ".toList ++ h.name ++ " is missing".toList)
  | _, _ =>
    match r.byQueryParameter, query == some [] with
    | some q, true => .error ("required query parameter ".toList ++ q.name ++ " is missing".toList)
    | _, _ =>
      let h := header.getD []
      let q := query.getD []
      if h = [] ∧ q = [] then .ok [] else .ok [(if h ≠ [] then h else q, h, q)]

def toAttr (ra : ResourceAttributes) (req : Request) (user : Identity) (resource : Bool) :
    Attributes where
  user := user
  verb := if ra.verb = [] then kubeVerb req.method else ra.verb
  namespace_ := ra.namespace_
  apiGroup := ra.apiGroup
  apiVersion := ra.apiVersion
  resource := ra.resource
  subresource := ra.subresource
  name := ra.name
  resourceRequest := resource
  path := req.path

/-- The values of the rewrites of the first format, from the query and then from the headers. -/
def collect (req : Request) (r : Rewrites) : List Text :=
  (match r.byQueryParameter with
    | some q => (parseForm (req.query.getD [])).filterMap fun pair =>
      if pair.1 = q.name then some pair.2 else none
    | none => []) ++
  match r.byHttpHeader with
  | some h => (req.headers.getAllText h.name).filterMap toStr
  | none => []

def matchedEndpoint (path : Text) : List Endpoint → Option (Endpoint × Captures)
  | [] => none
  | endpoint :: rest =>
    match endpointMatch endpoint.path path with
    | some captures => some (endpoint, captures)
    | none => matchedEndpoint path rest

def Mapping.accepts (m : Mapping) (method : Text) : Bool :=
  m.methods.any fun x => eqIgnoreAsciiCase x (toAsciiLowercase method)

def expandRule (req : Request) (identity : Identity) (captures : Captures)
    (ra : ResourceAttributes) (rewrite : List (Text × Text × Text)) : Attributes :=
  let (v, header, query) := rewrite.head?.getD ([], [], [])
  let expand := fun template => endpointValue template v header query (kubeVerb req.method) captures
  toAttr
    { verb := expand ra.verb
      namespace_ := expand ra.namespace_
      apiGroup := expand ra.apiGroup
      apiVersion := expand ra.apiVersion
      resource := expand ra.resource
      subresource := expand ra.subresource
      name := expand ra.name } req identity true

def ruleAttributes (req : Request) (identity : Identity) (captures : Captures) (rule : Rule) :
    Except Text Attributes :=
  (endpointRewrites req rule.rewrites).map
    (expandRule req identity captures rule.resourceAttributes)

/-- The attributes of a matched endpoint: those of the first mapping that accepts the method. -/
def endpointAttributes (req : Request) (identity : Identity) (endpoint : Endpoint)
    (captures : Captures) : Except Text (List Attributes) :=
  match endpoint.mappings.find? (·.accepts req.method) with
  | none => .error "HTTP method not allowed for matched authorization endpoint".toList
  | some mapping => mapping.resources.mapM (ruleAttributes req identity captures)

def expandValue (ra : ResourceAttributes) (v : Text) : ResourceAttributes :=
  { ra with
    namespace_ := value ra.namespace_ v .empty
    apiGroup := value ra.apiGroup v .empty
    apiVersion := value ra.apiVersion v .empty
    resource := value ra.resource v .empty
    subresource := value ra.subresource v .empty
    name := value ra.name v .empty }

def defaultAttributes (cfg : AuthorizationConfig) (req : Request) (identity : Identity) :
    List Attributes :=
  match cfg.resourceAttributes with
  | some ra =>
    let verb := if ra.verb ≠ [] then ra.verb else kubeVerb req.method
    let values := match cfg.rewrites with
      | some r => collect req r
      | none => [[]]
    values.map fun v => { toAttr (expandValue ra v) req identity true with verb := verb }
  | none =>
    [{ user := identity, verb := kubeVerb req.method, namespace_ := [], apiGroup := []
       apiVersion := [], resource := [], subresource := [], name := [], resourceRequest := false
       path := req.path }]

/-- `attributes`, where maps of captures are iterated in the order of `iter`. -/
def attributes (iter : Iteration) (cfg : AuthorizationConfig) (req : Request)
    (identity : Identity) : Except Text (List Attributes) :=
  match matchedEndpoint req.path cfg.endpoints with
  | some (endpoint, captures) => endpointAttributes req identity endpoint (iter.order captures)
  | none => .ok (defaultAttributes cfg req identity)

/-- A field of a static rule: an empty one accepts everything. -/
def wildcard (rule actual : Text) : Bool := rule.isEmpty || rule == actual

def staticAllows (rules : List StaticRule) (a : Attributes) : Bool :=
  rules.any fun r =>
    wildcard r.user.name a.user.name && wildcard r.verb a.verb &&
      wildcard r.namespace_ a.namespace_ && wildcard r.apiGroup a.apiGroup &&
      wildcard r.resource a.resource && wildcard r.subresource a.subresource &&
      wildcard r.name a.name && wildcard r.path a.path && r.resourceRequest == a.resourceRequest

/-! ### What the attributes are made from -/

theorem matchedEndpoint_some {path : Text} {endpoints : List Endpoint} {endpoint : Endpoint}
    {captures : Captures} :
    matchedEndpoint path endpoints = some (endpoint, captures) ↔
      endpointMatch endpoint.path path = some captures ∧ ∃ before after,
        endpoints = before ++ endpoint :: after ∧
        ∀ e ∈ before, endpointMatch e.path path = none := by
  induction endpoints with
  | nil => simp [matchedEndpoint]
  | cons e endpoints ih =>
    unfold matchedEndpoint
    constructor
    · intro h
      split at h
      · rename_i found hfound
        obtain ⟨rfl, rfl⟩ := Prod.mk.inj (Option.some.inj h)
        exact ⟨hfound, [], endpoints, rfl, by simp⟩
      · rename_i hnone
        obtain ⟨hmatch, before, after, rfl, hbefore⟩ := ih.mp h
        refine ⟨hmatch, e :: before, after, rfl, ?_⟩
        intro e' he'
        rcases List.mem_cons.mp he' with rfl | he'
        · exact hnone
        · exact hbefore e' he'
    · rintro ⟨hmatch, before, after, hsplit, hbefore⟩
      cases before with
      | nil =>
        obtain ⟨rfl, rfl⟩ := List.cons.inj hsplit
        simp only [hmatch]
      | cons b before =>
        obtain ⟨rfl, rfl⟩ := List.cons.inj hsplit
        simp only [hbefore e List.mem_cons_self]
        exact ih.mpr ⟨hmatch, before, after, rfl, fun e' he' =>
          hbefore e' (List.mem_cons_of_mem _ he')⟩

theorem matchedEndpoint_none {path : Text} {endpoints : List Endpoint} :
    matchedEndpoint path endpoints = none ↔ ∀ e ∈ endpoints, endpointMatch e.path path = none := by
  induction endpoints with
  | nil => simp [matchedEndpoint]
  | cons e endpoints ih =>
    unfold matchedEndpoint
    cases hmatch : endpointMatch e.path path with
    | some captures => simp [hmatch]
    | none => simp [hmatch, ih]

structure RewritesPresent (req : Request) (r : Rewrites) : Prop where
  header : ∀ h, r.byHttpHeader = some h → ∃ x, headerText req h.name = some x ∧ x ≠ []
  query : ∀ q, r.byQueryParameter = some q → ∃ x, queryValue req q.name = some x ∧ x ≠ []

theorem endpointRewrites_present {req : Request} {r : Rewrites}
    {rewrite : List (Text × Text × Text)} (h : endpointRewrites req r = .ok rewrite) :
    RewritesPresent req r := by
  have present : ∀ {x : Option Text}, x.getD [] ≠ [] → ∃ y, x = some y ∧ y ≠ [] := by
    intro x hx
    cases x with
    | none => simp at hx
    | some y => exact ⟨y, rfl, by simpa using hx⟩
  unfold endpointRewrites at h
  simp only at h
  split at h
  · contradiction
  rename_i hheader
  split at h
  · contradiction
  rename_i hquery
  refine ⟨fun n hn => present fun hempty => ?_, fun n hn => present fun hempty => ?_⟩
  · exact hheader n hn (by simp [hn, hempty])
  · exact hquery n hn (by simp [hn, hempty])

end KubeRbacProxy
