import KubeRbacProxy.Authorization.Attributes

/-! Validation of the authorization configuration.  An error says where the configuration is wrong;
its message prints texts in the debug format, which `debug` stands for. -/

namespace KubeRbacProxy

open Library

inductive ConfigError where
  | emptyPath (endpoint : Nat)
  | noMappings (endpoint : Nat) (path : Text)
  | malformedCapture (endpoint : Nat) (path segment : Text)
  | invalidCaptureName (endpoint : Nat) (path name : Text)
  | duplicateCapture (endpoint : Nat) (path name : Text)
  | noMethods (endpoint : Nat) (path : Text) (mapping : Nat)
  | noResources (endpoint : Nat) (path : Text) (mapping : Nat)
  | emptyHeaderName (endpoint : Nat) (path : Text) (mapping resource : Nat)
  | emptyQueryName (endpoint : Nat) (path : Text) (mapping resource : Nat)
  | staticPath (index : Nat)
  deriving DecidableEq

def ConfigError.message (debug : Text → Text) : ConfigError → Text
  | .emptyPath i =>
    "authorization.endpoints[".toList ++ decimal i ++ "]: path must be non-empty".toList
  | .noMappings i path => endpointPrefix i path ++ "mappings must contain at least one entry".toList
  | .malformedCapture i path segment =>
    endpointPrefix i path ++ "malformed path capture ".toList ++ debug segment
  | .invalidCaptureName i path name =>
    endpointPrefix i path ++ "invalid path capture name ".toList ++ debug name
  | .duplicateCapture i path name =>
    endpointPrefix i path ++ "duplicate path capture ".toList ++ debug name
  | .noMethods i path m =>
    mappingPrefix i path m ++ " must specify a non-empty methods list".toList
  | .noResources i path m =>
    mappingPrefix i path m ++ " must contain at least one resource rule".toList
  | .emptyHeaderName i path m r =>
    rewritePrefix i path m r ++ "byHttpHeader must specify a non-empty name".toList
  | .emptyQueryName i path m r =>
    rewritePrefix i path m r ++ "byQueryParameter must specify a non-empty name".toList
  | .staticPath i => "authorization.static[".toList ++ decimal i ++
    "]: resource requests must not include a path".toList
where
  endpointPrefix (i : Nat) (path : Text) : Text :=
    "authorization.endpoints[".toList ++ decimal i ++ "] (path ".toList ++ debug path ++
      "): ".toList
  mappingPrefix (i : Nat) (path : Text) (m : Nat) : Text :=
    endpointPrefix i path ++ "mappings[".toList ++ decimal m ++ "]".toList
  rewritePrefix (i : Nat) (path : Text) (m r : Nat) : Text :=
    mappingPrefix i path m ++ ".resources[".toList ++ decimal r ++ "].rewrites.".toList

def hasBrace (segment : Text) : Bool := segment.any fun c => c == '{' || c == '}'

/-- The segments of a pattern, after the names in `captures`.  A capture has a text between its
braces when it has three characters. -/
def checkSegments (i : Nat) (path : Text) : List Text → List Text → Except ConfigError Unit
  | _, [] => .ok ()
  | captures, segment :: rest =>
    if hasBrace segment then
      if ¬(isCapture segment ∧ 3 ≤ segment.length) then .error (.malformedCapture i path segment)
      else if ¬captureNameChars (captureName segment) then
        .error (.invalidCaptureName i path (captureName segment))
      else if captureName segment ∈ captures then
        .error (.duplicateCapture i path (captureName segment))
      else checkSegments i path (captureName segment :: captures) rest
    else checkSegments i path captures rest

def checkRules (i : Nat) (path : Text) (m : Nat) : Nat → List Rule → Except ConfigError Unit
  | _, [] => .ok ()
  | r, rule :: rest =>
    if (rule.rewrites.byHttpHeader.map fun h => trim h.name) = some [] then
      .error (.emptyHeaderName i path m r)
    else if (rule.rewrites.byQueryParameter.map fun q => trim q.name) = some [] then
      .error (.emptyQueryName i path m r)
    else checkRules i path m (r + 1) rest

def checkMappings (i : Nat) (path : Text) : Nat → List Mapping → Except ConfigError Unit
  | _, [] => .ok ()
  | m, mapping :: rest =>
    if mapping.methods.isEmpty then .error (.noMethods i path m)
    else if mapping.resources.isEmpty then .error (.noResources i path m)
    else
      match checkRules i path m 0 mapping.resources with
      | .error e => .error e
      | .ok () => checkMappings i path (m + 1) rest

def checkEndpoints : Nat → List Endpoint → Except ConfigError Unit
  | _, [] => .ok ()
  | i, endpoint :: rest =>
    if trim endpoint.path = [] then .error (.emptyPath i)
    else if endpoint.mappings.isEmpty then .error (.noMappings i endpoint.path)
    else
      match checkSegments i endpoint.path [] (endpoint.path.splitOn '/') with
      | .error e => .error e
      | .ok () =>
        match checkMappings i endpoint.path 0 endpoint.mappings with
        | .error e => .error e
        | .ok () => checkEndpoints (i + 1) rest

def checkStatic : Nat → List StaticRule → Except ConfigError Unit
  | _, [] => .ok ()
  | i, rule :: rest =>
    if rule.resourceRequest ≠ rule.path.isEmpty then .error (.staticPath i)
    else checkStatic (i + 1) rest

def validateAuthorizationConfig (cfg : AuthorizationConfig) : Except ConfigError Unit :=
  match checkEndpoints 0 cfg.endpoints with
  | .error e => .error e
  | .ok () => checkStatic 0 cfg.staticRules

/-- Every message names the part of the configuration that it is about. -/
theorem ConfigError.message_prefix (debug : Text → Text) (e : ConfigError) :
    "authorization.".toList <+: e.message debug := by
  have hkey : "authorization.".toList <+: "authorization.endpoints[".toList := by decide +kernel
  have hstatic : "authorization.".toList <+: "authorization.static[".toList := by decide +kernel
  have append : ∀ {s t : Text}, "authorization.".toList <+: s →
      "authorization.".toList <+: s ++ t :=
    fun h => h.trans (List.prefix_append _ _)
  have hpath : ∀ i path, "authorization.".toList <+: message.endpointPrefix debug i path :=
    fun _ _ => append (append (append (append hkey)))
  cases e with
  | emptyPath i => exact append (append hkey)
  | noMappings i path => exact append (hpath i path)
  | malformedCapture i path segment => exact append (append (hpath i path))
  | invalidCaptureName i path name => exact append (append (hpath i path))
  | duplicateCapture i path name => exact append (append (hpath i path))
  | noMethods i path m => exact append (append (append (append (hpath i path))))
  | noResources i path m => exact append (append (append (append (hpath i path))))
  | emptyHeaderName i path m r =>
    exact append (append (append (append (append (append (append (hpath i path)))))))
  | emptyQueryName i path m r =>
    exact append (append (append (append (append (append (append (hpath i path)))))))
  | staticPath i => exact append (append hstatic)

/-! ### What a valid configuration has -/

theorem checkSegments_ok {i : Nat} {path : Text} {captures segments : List Text}
    (h : checkSegments i path captures segments = .ok ()) :
    ∀ segment ∈ segments, hasBrace segment = true →
      isCapture segment = true ∧ validCaptureName (captureName segment) = true := by
  induction segments generalizing captures with
  | nil => simp
  | cons first rest ih =>
    unfold checkSegments at h
    intro segment hsegment hbrace
    split at h
    · split at h
      · contradiction
      rename_i hcapture
      split at h
      · contradiction
      rename_i hname
      split at h
      · contradiction
      rcases List.mem_cons.mp hsegment with rfl | hsegment
      · rw [not_not] at hcapture hname
        refine ⟨hcapture.1, ?_⟩
        have hlen : captureName segment ≠ [] := fun hnil => by
          have := congrArg List.length hnil
          simp [captureName] at this
          omega
        simp [validCaptureName, hname, hlen]
      · exact ih h segment hsegment hbrace
    · rename_i hplain
      rcases List.mem_cons.mp hsegment with rfl | hsegment
      · contradiction
      · exact ih h segment hsegment hbrace

theorem checkEndpoints_ok {i : Nat} {endpoints : List Endpoint}
    (h : checkEndpoints i endpoints = .ok ()) : ∀ endpoint ∈ endpoints,
      ∃ j, checkSegments j endpoint.path [] (endpoint.path.splitOn '/') = .ok () := by
  induction endpoints generalizing i with
  | nil => simp
  | cons first rest ih =>
    unfold checkEndpoints at h
    intro endpoint hendpoint
    split at h
    · contradiction
    split at h
    · contradiction
    split at h
    · contradiction
    rename_i hsegments
    split at h
    · contradiction
    rcases List.mem_cons.mp hendpoint with rfl | hendpoint
    · exact ⟨i, hsegments⟩
    · exact ih h endpoint hendpoint

/-- In a valid configuration, a pattern segment with a brace is a capture with a valid name. -/
theorem valid_capture {cfg : AuthorizationConfig} (h : validateAuthorizationConfig cfg = .ok ())
    {endpoint : Endpoint} (hendpoint : endpoint ∈ cfg.endpoints) {segment : Text}
    (hsegment : segment ∈ endpoint.path.splitOn '/') (hbrace : hasBrace segment = true) :
    isCapture segment = true ∧ validCaptureName (captureName segment) = true := by
  unfold validateAuthorizationConfig at h
  split at h
  · contradiction
  rename_i hendpoints
  obtain ⟨j, hsegments⟩ := checkEndpoints_ok hendpoints endpoint hendpoint
  exact checkSegments_ok hsegments segment hsegment hbrace

end KubeRbacProxy
