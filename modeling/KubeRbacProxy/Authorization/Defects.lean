import KubeRbacProxy.Authorization.Matching
import KubeRbacProxy.Authorization.Rewriting
import KubeRbacProxy.Library.Report
import Mathlib.Data.List.Lex

/-! What validation says about a configuration.  `Defect` is everything that is wrong with one, each
with the place in the document that its error names.  Validation stops at the first error, so it
reports one defect, at the first place that has any, and accepts the configurations without. -/

namespace KubeRbacProxy

open Library

/-- Endpoints before static rules, and of an endpoint the path, the number of mappings, the
captures, and then the mappings one by one. -/
def ConfigError.place : ConfigError → List Nat
  | .emptyPath i => [0, i, 0]
  | .noMappings i _ => [0, i, 1]
  | .malformedCapture i _ _ | .invalidCaptureName i _ _ | .duplicateCapture i _ _ => [0, i, 2]
  | .noMethods i _ m => [0, i, 3, m, 0]
  | .noResources i _ m => [0, i, 3, m, 1]
  | .emptyHeaderName i _ m r => [0, i, 3, m, 2, r, 0]
  | .emptyQueryName i _ m r => [0, i, 3, m, 2, r, 1]
  | .staticPath i => [1, i]

/-! ### Defects -/

/-- A segment with a brace that is no name in braces, or not with a name that may be used. -/
inductive SegmentDefect (i : Nat) (path : Text) (earlier : Text → Prop) (segment : Text) :
    ConfigError → Prop
  | malformed (hbrace : hasBrace segment = true)
      (hform : ∀ name, name ≠ [] → segment ≠ '{' :: (name ++ ['}'])) :
      SegmentDefect i path earlier segment (.malformedCapture i path segment)
  | invalid {name : Text} (hname : name ≠ []) (hform : segment = '{' :: (name ++ ['}']))
      (hchars : captureNameChars name = false) :
      SegmentDefect i path earlier segment (.invalidCaptureName i path name)
  | duplicate {name : Text} (hname : name ≠ []) (hform : segment = '{' :: (name ++ ['}']))
      (hchars : captureNameChars name = true) (hearlier : earlier name) :
      SegmentDefect i path earlier segment (.duplicateCapture i path name)

/-- A defect of one of the segments, after the names in `captures` and those of the captures before
it. -/
def PatternDefect (i : Nat) (path : Text) (captures segments : List Text) (e : ConfigError) :
    Prop :=
  ∃ before segment after, segments = before ++ segment :: after ∧
    SegmentDefect i path (fun name => name ∈ captures ∨ name ∈ captureNames before) segment e

def RuleDefect (i : Nat) (path : Text) (m r : Nat) (rule : Rule) (e : ConfigError) : Prop :=
  ((∃ h, rule.rewrites.byHttpHeader = some h ∧ trim h.name = []) ∧
    e = .emptyHeaderName i path m r) ∨
  ((∃ q, rule.rewrites.byQueryParameter = some q ∧ trim q.name = []) ∧
    e = .emptyQueryName i path m r)

def MappingDefect (i : Nat) (path : Text) (m : Nat) (mapping : Mapping) (e : ConfigError) : Prop :=
  (mapping.methods = [] ∧ e = .noMethods i path m) ∨
  (mapping.resources = [] ∧ e = .noResources i path m) ∨
  ∃ r rule, mapping.resources[r]? = some rule ∧ RuleDefect i path m r rule e

def EndpointDefect (i : Nat) (endpoint : Endpoint) (e : ConfigError) : Prop :=
  (trim endpoint.path = [] ∧ e = .emptyPath i) ∨
  (endpoint.mappings = [] ∧ e = .noMappings i endpoint.path) ∨
  PatternDefect i endpoint.path [] (endpoint.path.splitOn '/') e ∨
  ∃ m mapping, endpoint.mappings[m]? = some mapping ∧ MappingDefect i endpoint.path m mapping e

/-- A rule for resources with a path, or one for paths without. -/
def StaticDefect (i : Nat) (rule : StaticRule) (e : ConfigError) : Prop :=
  (rule.resourceRequest = true ∧ rule.path ≠ [] ∨ rule.resourceRequest = false ∧ rule.path = []) ∧
    e = .staticPath i

def Defect (cfg : AuthorizationConfig) (e : ConfigError) : Prop :=
  (∃ i endpoint, cfg.endpoints[i]? = some endpoint ∧ EndpointDefect i endpoint e) ∨
  ∃ i rule, cfg.staticRules[i]? = some rule ∧ StaticDefect i rule e

/-! ### The places of defects -/

theorem SegmentDefect.place {i : Nat} {path segment : Text} {earlier : Text → Prop}
    {e : ConfigError} (h : SegmentDefect i path earlier segment e) : e.place = [0, i, 2] := by
  cases h <;> rfl

theorem PatternDefect.place {i : Nat} {path : Text} {captures segments : List Text}
    {e : ConfigError} (h : PatternDefect i path captures segments e) : e.place = [0, i, 2] := by
  obtain ⟨before, segment, after, -, hdefect⟩ := h
  exact hdefect.place

theorem RuleDefect.place {i : Nat} {path : Text} {m r : Nat} {rule : Rule} {e : ConfigError}
    (h : RuleDefect i path m r rule e) : ∃ k, e.place = [0, i, 3, m, 2, r, k] := by
  rcases h with ⟨-, rfl⟩ | ⟨-, rfl⟩
  · exact ⟨0, rfl⟩
  · exact ⟨1, rfl⟩

theorem MappingDefect.place {i : Nat} {path : Text} {m : Nat} {mapping : Mapping} {e : ConfigError}
    (h : MappingDefect i path m mapping e) : ∃ k rest, e.place = [0, i, 3, m, k] ++ rest := by
  rcases h with ⟨-, rfl⟩ | ⟨-, rfl⟩ | ⟨r, rule, -, h⟩
  · exact ⟨0, [], rfl⟩
  · exact ⟨1, [], rfl⟩
  · obtain ⟨k, hplace⟩ := h.place
    exact ⟨2, [r, k], hplace⟩

theorem EndpointDefect.place {i : Nat} {endpoint : Endpoint} {e : ConfigError}
    (h : EndpointDefect i endpoint e) : ∃ rest, e.place = [0, i] ++ rest := by
  rcases h with ⟨-, rfl⟩ | ⟨-, rfl⟩ | h | ⟨m, mapping, -, h⟩
  · exact ⟨[0], rfl⟩
  · exact ⟨[1], rfl⟩
  · exact ⟨[2], h.place⟩
  · obtain ⟨k, rest, hplace⟩ := h.place
    exact ⟨[3, m, k] ++ rest, hplace⟩

theorem StaticDefect.place {i : Nat} {rule : StaticRule} {e : ConfigError}
    (h : StaticDefect i rule e) : e.place = [1, i] := by
  obtain ⟨-, rfl⟩ := h
  rfl

/-! ### What each check reports -/

theorem SegmentDefect.congr {i : Nat} {path segment : Text} {earlier other : Text → Prop}
    {e : ConfigError} (h : ∀ name, earlier name ↔ other name) :
    SegmentDefect i path earlier segment e ↔ SegmentDefect i path other segment e := by
  rw [funext fun name => propext (h name)]

theorem patternDefect_cons {i : Nat} {path segment : Text} {captures rest : List Text}
    {e : ConfigError} : PatternDefect i path captures (segment :: rest) e ↔
      SegmentDefect i path (· ∈ captures) segment e ∨
        PatternDefect i path (captureNames [segment] ++ captures) rest e := by
  have hlater : ∀ before name, (name ∈ captures ∨ name ∈ captureNames (segment :: before)) ↔
      (name ∈ captureNames [segment] ++ captures ∨ name ∈ captureNames before) := by
    intro before name
    have hsplit : captureNames (segment :: before) =
        captureNames [segment] ++ captureNames before := by
      simp only [captureNames, ← List.map_append, ← List.filter_append, List.singleton_append]
    rw [hsplit, List.mem_append, List.mem_append]
    tauto
  have hfirst : ∀ name, (name ∈ captures ∨ name ∈ captureNames []) ↔ name ∈ captures := by
    simp [captureNames]
  constructor
  · rintro ⟨before, s, after, hsplit, hdefect⟩
    cases before with
    | nil =>
      obtain ⟨rfl, rfl⟩ := List.cons.inj hsplit
      exact Or.inl ((SegmentDefect.congr hfirst).mp hdefect)
    | cons first before =>
      obtain ⟨rfl, rfl⟩ := List.cons.inj hsplit
      exact Or.inr ⟨before, s, after, rfl, (SegmentDefect.congr (hlater before)).mp hdefect⟩
  · rintro (hdefect | ⟨before, s, after, rfl, hdefect⟩)
    · exact ⟨[], segment, rest, rfl, (SegmentDefect.congr hfirst).mpr hdefect⟩
    · exact ⟨segment :: before, s, after, rfl, (SegmentDefect.congr (hlater before)).mpr hdefect⟩

/-- All defects of a pattern are at one place, so any of them is the first. -/
theorem PatternDefect.reported {i : Nat} {path : Text} {captures segments : List Text}
    {e : ConfigError} (h : PatternDefect i path captures segments e) :
    Reports ConfigError.place (PatternDefect i path captures segments) (.error e) :=
  ⟨h, fun _ h' => le_of_eq (h.place.trans h'.place.symm)⟩

theorem captureName_capture (name : Text) : captureName ('{' :: (name ++ ['}'])) = name := by
  simp [captureName]

theorem checkSegments_reports (i : Nat) (path : Text) (captures segments : List Text) :
    Reports ConfigError.place (PatternDefect i path captures segments)
      (checkSegments i path captures segments) := by
  induction segments generalizing captures with
  | nil =>
    rintro e ⟨before, segment, after, hsplit, -⟩
    simp at hsplit
  | cons segment rest ih =>
    -- a segment without a defect leaves the defects of the others
    have skip : ∀ captures', captureNames [segment] ++ captures = captures' →
        (∀ e, ¬SegmentDefect i path (· ∈ captures) segment e) →
        Reports ConfigError.place (PatternDefect i path captures (segment :: rest))
          (checkSegments i path captures' rest) := by
      rintro _ rfl hnone
      refine (ih _).congr fun e => ?_
      rw [patternDefect_cons, or_iff_right (hnone e)]
    have report : ∀ {e}, SegmentDefect i path (· ∈ captures) segment e →
        Reports ConfigError.place (PatternDefect i path captures (segment :: rest)) (.error e) :=
      fun h => (patternDefect_cons.mpr (Or.inl h)).reported
    unfold checkSegments
    split
    · rename_i hbrace
      split
      · rename_i hform
        refine report (.malformed hbrace fun name hname heq => hform ?_)
        refine ⟨isCapture_iff.mpr ⟨name, heq⟩, ?_⟩
        have := List.length_pos_of_ne_nil hname
        rw [heq, List.length_cons, List.length_append, List.length_singleton]
        omega
      rename_i hform
      rw [not_not] at hform
      obtain ⟨name, hsegment⟩ := isCapture_iff.mp hform.1
      have hname : name ≠ [] := by
        rintro rfl
        rw [hsegment] at hform
        simp at hform
      have hcaptured : captureName segment = name := by rw [hsegment, captureName_capture]
      rw [hcaptured]
      -- the name between the braces is the only one
      have only : ∀ {other}, segment = '{' :: (other ++ ['}']) → other = name := by
        intro other hother
        rw [hsegment] at hother
        exact (List.append_inj_left' (List.cons.inj hother).2 rfl).symm
      split
      · rename_i hchars
        exact report (.invalid hname hsegment (by simpa using hchars))
      rename_i hchars
      split
      · rename_i hearlier
        exact report (.duplicate hname hsegment (by simpa using hchars) hearlier)
      rename_i hearlier
      refine skip _ ?_ fun e hdefect => ?_
      · simp [captureNames, hform.1, hcaptured]
      · cases hdefect with
        | malformed _ hother => exact hother name hname hsegment
        | invalid _ hother hbad =>
          obtain rfl := only hother
          exact hchars (by simp [hbad])
        | duplicate _ hother _ hseen =>
          obtain rfl := only hother
          exact hearlier hseen
    · rename_i hplain
      refine skip _ ?_ fun e hdefect => ?_
      · have hnot : isCapture segment = false :=
          Bool.eq_false_iff.mpr fun hcapture => hplain (hasBrace_of_isCapture hcapture)
        simp [captureNames, hnot]
      · cases hdefect with
        | malformed hbrace _ => exact hplain hbrace
        | invalid _ hform _ | duplicate _ hform _ _ =>
          exact hplain (hasBrace_of_isCapture (isCapture_iff.mpr ⟨_, hform⟩))

/-- Of two places, the one with the lesser number after the same beginning comes first. -/
theorem place_lt (before rest rest' : List Nat) {n n' : Nat} (h : n < n') :
    before ++ n :: rest ≤ before ++ n' :: rest' :=
  le_of_lt (List.Lex.append_left _ (List.Lex.rel h) before)

def checkRule (i : Nat) (path : Text) (m r : Nat) (rule : Rule) : Except ConfigError Unit :=
  if (rule.rewrites.byHttpHeader.map fun h => trim h.name) = some [] then
    .error (.emptyHeaderName i path m r)
  else if (rule.rewrites.byQueryParameter.map fun q => trim q.name) = some [] then
    .error (.emptyQueryName i path m r)
  else .ok ()

theorem checkRules_eq (i : Nat) (path : Text) (m r : Nat) (rules : List Rule) :
    checkRules i path m r rules = checkEach (checkRule i path m) r rules := by
  induction rules generalizing r with
  | nil => rfl
  | cons rule rest ih =>
    simp only [checkRules, checkEach, checkRule, ih]
    split
    · rfl
    split <;> rfl

theorem checkRule_reports (i : Nat) (path : Text) (m r : Nat) (rule : Rule) :
    Reports ConfigError.place (RuleDefect i path m r rule) (checkRule i path m r rule) := by
  refine (reports_guard reports_last ?_).congr fun e => ?_
  · rintro e ⟨-, rfl⟩
    exact place_lt [0, i, 3, m, 2, r] [] [] (by omega)
  · simp only [RuleDefect, Option.map_eq_some_iff]

theorem checkRules_reports (i : Nat) (path : Text) (m : Nat) (rules : List Rule) :
    Reports ConfigError.place
      (fun e => ∃ r rule, rules[r]? = some rule ∧ RuleDefect i path m r rule e)
      (checkRules i path m 0 rules) := by
  rw [checkRules_eq]
  refine (reports_each (checkRule_reports i path m) ?_ 0 rules).congr fun e => ?_
  · intro j k rule rule' e e' hlt h h'
    obtain ⟨n, hplace⟩ := h.place
    obtain ⟨n', hplace'⟩ := h'.place
    rw [hplace, hplace']
    exact place_lt [0, i, 3, m, 2] [n] [n'] hlt
  · simp only [numbered_zero]

def checkMapping (i : Nat) (path : Text) (m : Nat) (mapping : Mapping) : Except ConfigError Unit :=
  if mapping.methods.isEmpty then .error (.noMethods i path m)
  else if mapping.resources.isEmpty then .error (.noResources i path m)
  else checkRules i path m 0 mapping.resources

theorem checkMappings_eq (i : Nat) (path : Text) (m : Nat) (mappings : List Mapping) :
    checkMappings i path m mappings = checkEach (checkMapping i path) m mappings := by
  induction mappings generalizing m with
  | nil => rfl
  | cons mapping rest ih =>
    simp only [checkMappings, checkEach, checkMapping, ih]
    split
    · rfl
    split
    · rfl
    cases checkRules i path m 0 mapping.resources <;> rfl

theorem checkMapping_reports (i : Nat) (path : Text) (m : Nat) (mapping : Mapping) :
    Reports ConfigError.place (MappingDefect i path m mapping) (checkMapping i path m mapping) := by
  refine (reports_guard (reports_guard (checkRules_reports i path m mapping.resources) ?_)
    ?_).congr fun e => ?_
  · rintro e ⟨r, rule, -, h⟩
    obtain ⟨n, hplace⟩ := h.place
    rw [hplace]
    exact place_lt [0, i, 3, m] [] [r, n] (by omega)
  · rintro e (⟨-, rfl⟩ | ⟨r, rule, -, h⟩)
    · exact place_lt [0, i, 3, m] [] [] (by omega)
    · obtain ⟨n, hplace⟩ := h.place
      rw [hplace]
      exact place_lt [0, i, 3, m] [] [r, n] (by omega)
  · simp only [MappingDefect, List.isEmpty_iff]

theorem checkMappings_reports (i : Nat) (path : Text) (mappings : List Mapping) :
    Reports ConfigError.place
      (fun e => ∃ m mapping, mappings[m]? = some mapping ∧ MappingDefect i path m mapping e)
      (checkMappings i path 0 mappings) := by
  rw [checkMappings_eq]
  refine (reports_each (checkMapping_reports i path) ?_ 0 mappings).congr fun e => ?_
  · intro j k mapping mapping' e e' hlt h h'
    obtain ⟨n, rest, hplace⟩ := h.place
    obtain ⟨n', rest', hplace'⟩ := h'.place
    rw [hplace, hplace']
    exact place_lt [0, i, 3] (n :: rest) (n' :: rest') hlt
  · simp only [numbered_zero]

def checkEndpoint (i : Nat) (endpoint : Endpoint) : Except ConfigError Unit :=
  if trim endpoint.path = [] then .error (.emptyPath i)
  else if endpoint.mappings.isEmpty then .error (.noMappings i endpoint.path)
  else andThen (checkSegments i endpoint.path [] (endpoint.path.splitOn '/'))
    (checkMappings i endpoint.path 0 endpoint.mappings)

theorem checkEndpoints_eq (i : Nat) (endpoints : List Endpoint) :
    checkEndpoints i endpoints = checkEach checkEndpoint i endpoints := by
  induction endpoints generalizing i with
  | nil => rfl
  | cons endpoint rest ih =>
    simp only [checkEndpoints, checkEach, checkEndpoint, ih]
    split
    · rfl
    split
    · rfl
    cases checkSegments i endpoint.path [] (endpoint.path.splitOn '/') with
    | error e => rfl
    | ok u => cases checkMappings i endpoint.path 0 endpoint.mappings <;> rfl

theorem checkEndpoint_reports (i : Nat) (endpoint : Endpoint) :
    Reports ConfigError.place (EndpointDefect i endpoint) (checkEndpoint i endpoint) := by
  have hsegments := checkSegments_reports i endpoint.path [] (endpoint.path.splitOn '/')
  have hmappings := checkMappings_reports i endpoint.path endpoint.mappings
  -- the places after the check of the mappings' number
  have later : ∀ e, (PatternDefect i endpoint.path [] (endpoint.path.splitOn '/') e ∨
      ∃ m mapping, endpoint.mappings[m]? = some mapping ∧
        MappingDefect i endpoint.path m mapping e) →
      ∃ n rest, 2 ≤ n ∧ e.place = [0, i] ++ n :: rest := by
    rintro e (h | ⟨m, mapping, -, h⟩)
    · exact ⟨2, [], le_rfl, h.place⟩
    · obtain ⟨k, rest, hplace⟩ := h.place
      exact ⟨3, m :: k :: rest, by omega, hplace⟩
  refine (reports_guard (reports_guard (reports_andThen hsegments hmappings ?_) ?_)
    ?_).congr fun e => ?_
  · rintro e e' h ⟨m, mapping, -, h'⟩
    obtain ⟨k, rest, hplace⟩ := h'.place
    rw [h.place, hplace]
    exact place_lt [0, i] [] (m :: k :: rest) (by omega)
  · intro e h
    obtain ⟨n, rest, hn, hplace⟩ := later e h
    rw [hplace]
    exact place_lt [0, i] [] rest (by omega)
  · rintro e (⟨-, rfl⟩ | h)
    · exact place_lt [0, i] [] [] (by omega)
    · obtain ⟨n, rest, hn, hplace⟩ := later e h
      rw [hplace]
      exact place_lt [0, i] [] rest (by omega)
  · simp only [EndpointDefect, List.isEmpty_iff]

theorem checkEndpoints_reports (endpoints : List Endpoint) :
    Reports ConfigError.place
      (fun e => ∃ i endpoint, endpoints[i]? = some endpoint ∧ EndpointDefect i endpoint e)
      (checkEndpoints 0 endpoints) := by
  rw [checkEndpoints_eq]
  refine (reports_each checkEndpoint_reports ?_ 0 endpoints).congr fun e => ?_
  · intro j k endpoint endpoint' e e' hlt h h'
    obtain ⟨rest, hplace⟩ := h.place
    obtain ⟨rest', hplace'⟩ := h'.place
    rw [hplace, hplace']
    exact place_lt [0] rest rest' hlt
  · simp only [numbered_zero]

def checkStaticRule (i : Nat) (rule : StaticRule) : Except ConfigError Unit :=
  if rule.resourceRequest ≠ rule.path.isEmpty then .error (.staticPath i) else .ok ()

theorem checkStatic_eq (i : Nat) (rules : List StaticRule) :
    checkStatic i rules = checkEach checkStaticRule i rules := by
  induction rules generalizing i with
  | nil => rfl
  | cons rule rest ih =>
    simp only [checkStatic, checkEach, checkStaticRule, ih]
    split <;> rfl

theorem checkStaticRule_reports (i : Nat) (rule : StaticRule) :
    Reports ConfigError.place (StaticDefect i rule) (checkStaticRule i rule) := by
  refine reports_last.congr fun e => ?_
  unfold StaticDefect
  cases rule.resourceRequest <;> cases rule.path <;> simp

theorem checkStatic_reports (rules : List StaticRule) :
    Reports ConfigError.place
      (fun e => ∃ i rule, rules[i]? = some rule ∧ StaticDefect i rule e) (checkStatic 0 rules) := by
  rw [checkStatic_eq]
  refine (reports_each checkStaticRule_reports ?_ 0 rules).congr fun e => ?_
  · intro j k rule rule' e e' hlt h h'
    rw [h.place, h'.place]
    exact place_lt [1] [] [] hlt
  · simp only [numbered_zero]

theorem validate_reports (cfg : AuthorizationConfig) :
    Reports ConfigError.place (Defect cfg) (validateAuthorizationConfig cfg) := by
  have hcheck : validateAuthorizationConfig cfg =
      andThen (checkEndpoints 0 cfg.endpoints) (checkStatic 0 cfg.staticRules) := by
    unfold validateAuthorizationConfig
    cases checkEndpoints 0 cfg.endpoints <;> rfl
  rw [hcheck]
  refine reports_andThen (checkEndpoints_reports cfg.endpoints)
    (checkStatic_reports cfg.staticRules) ?_
  rintro e e' ⟨i, endpoint, -, h⟩ ⟨j, rule, -, h'⟩
  obtain ⟨rest, hplace⟩ := h.place
  rw [hplace, h'.place]
  exact place_lt [] (i :: rest) [j] (by omega)

theorem valid_iff {cfg : AuthorizationConfig} :
    validateAuthorizationConfig cfg = .ok () ↔ ∀ e, ¬Defect cfg e :=
  (validate_reports cfg).ok_iff

/-- Validation accepts exactly the configurations without a defect, and of others it reports a
defect at the first place in the document that has one. -/
theorem validateAuthorizationConfig_reports (cfg : AuthorizationConfig) :
    (validateAuthorizationConfig cfg = .ok () ↔ ∀ e, ¬Defect cfg e) ∧
    ∀ e, validateAuthorizationConfig cfg = .error e →
      Defect cfg e ∧ ∀ e', Defect cfg e' → e.place ≤ e'.place := by
  refine ⟨valid_iff, fun e he => ?_⟩
  have hreports := validate_reports cfg
  rw [he] at hreports
  exact hreports

/-! ### What a valid configuration asks for -/

theorem valid_resources {cfg : AuthorizationConfig} (h : validateAuthorizationConfig cfg = .ok ())
    {endpoint : Endpoint} (hendpoint : endpoint ∈ cfg.endpoints) {mapping : Mapping}
    (hmapping : mapping ∈ endpoint.mappings) : mapping.resources ≠ [] := by
  intro hnone
  obtain ⟨i, hi⟩ := List.mem_iff_getElem?.mp hendpoint
  obtain ⟨m, hm⟩ := List.mem_iff_getElem?.mp hmapping
  apply valid_iff.mp h (.noResources i endpoint.path m)
  refine Or.inl ⟨i, endpoint, hi, Or.inr (Or.inr (Or.inr ⟨m, mapping, hm, ?_⟩))⟩
  exact Or.inr (Or.inl ⟨hnone, rfl⟩)

/-- Under a valid configuration a request asks for nothing exactly where no endpoint matches it and
it has none of the values that the resource attributes are rewritten with. -/
theorem attributes_eq_nil_iff {cfg : AuthorizationConfig}
    (hvalid : validateAuthorizationConfig cfg = .ok ()) (iter : Iteration) (req : Request)
    (identity : Identity) : attributes iter cfg req identity = .ok [] ↔
      (∀ e ∈ cfg.endpoints, endpointMatch e.path req.path = none) ∧
        cfg.resourceAttributes.isSome ∧ ∃ r, cfg.rewrites = some r ∧ collect req r = [] := by
  rw [← matchedEndpoint_none]
  unfold attributes
  cases hmatch : matchedEndpoint req.path cfg.endpoints with
  | none =>
    simp only [true_and, Except.ok.injEq, defaultAttributes]
    cases cfg.resourceAttributes with
    | none => simp
    | some ra =>
      cases cfg.rewrites with
      | none => simp
      | some r => simp
  | some found =>
    obtain ⟨endpoint, captures⟩ := found
    obtain ⟨-, before, after, hsplit, -⟩ := matchedEndpoint_some.mp hmatch
    have hendpoint : endpoint ∈ cfg.endpoints := by
      rw [hsplit]
      exact List.mem_append_right _ List.mem_cons_self
    refine iff_of_false (fun hnil => ?_) (by simp)
    simp only [endpointAttributes] at hnil
    split at hnil
    · contradiction
    · rename_i mapping hfind
      -- the accepted mapping has rules, and each of them asks for something
      have hrules := valid_resources hvalid hendpoint (List.mem_of_find?_eq_some hfind)
      have hlength := (mapM_eq_ok.mp hnil).length_eq
      exact hrules (List.length_eq_zero_iff.mp hlength)

def tenantsConfig : AuthorizationConfig where
  rewrites := some { byQueryParameter := some ⟨"tenant".toList⟩ }
  resourceAttributes := some { namespace_ := "\x7b\x7b .Value \x7d\x7d".toList }

theorem tenantsConfig_valid : validateAuthorizationConfig tenantsConfig = .ok () := rfl

/-- A request without the parameter asks for nothing. -/
theorem attributes_eq_nil_tenants :
    attributes insertionOrder tenantsConfig (metricsRequest []) ⟨"alice".toList, []⟩ = .ok [] ↔
      (∀ e ∈ tenantsConfig.endpoints, endpointMatch e.path (metricsRequest []).path = none) ∧
        tenantsConfig.resourceAttributes.isSome ∧
        ∃ r, tenantsConfig.rewrites = some r ∧ collect (metricsRequest []) r = [] :=
  attributes_eq_nil_iff tenantsConfig_valid insertionOrder (metricsRequest []) ⟨"alice".toList, []⟩

end KubeRbacProxy
