import KubeRbacProxy.Authorization.Attributes

/-! The values that rewrites take from a request.  The rules of an endpoint take the first value of
a header and of a query parameter, whatever values follow; the rewrites of the configuration take
every value, except those of a header that cannot be read as text. -/

namespace KubeRbacProxy

open Library

/-- The values of a query parameter, in the order of the query. -/
def queryOccurrences (req : Request) (name : Text) : List Text :=
  ((parseForm (req.query.getD [])).filter fun pair => pair.1 = name).map Prod.snd

theorem queryValue_eq (req : Request) (name : Text) :
    queryValue req name = (queryOccurrences req name).head? := by
  rw [queryValue, queryOccurrences, List.head?_map, List.head?_filter]

theorem headerText_eq (req : Request) (name : Text) :
    headerText req name = (req.headers.getAllText name).head?.bind toStr := rfl

theorem encodeUtf8_of_toStr {value : Bytes} {t : Text} (h : toStr value = some t) :
    value = encodeUtf8 t := by
  unfold toStr at h
  split at h
  · rename_i hall
    obtain rfl := Option.some.inj h
    clear h
    induction value with
    | nil => rfl
    | cons b value ih =>
      rw [List.all_cons, Bool.and_eq_true] at hall
      have hb := visible_lt hall.1
      have hchar : (Char.ofNat b.toNat).toNat = b.toNat := by
        have hvalid : b.toNat.isValidChar := Or.inl (by omega)
        rw [Char.ofNat, dif_pos hvalid]
        rfl
      rw [List.map_cons, encodeUtf8_cons, encodeChar_one (by omega), hchar, UInt8.ofNat_toNat,
        List.singleton_append, ← ih hall.2]
  · contradiction

/-! ### Rules of an endpoint -/

/-- The attributes of the request are those of the rules of an endpoint, `rule` among them. -/
def Through (iter : Iteration) (cfg : AuthorizationConfig) (req : Request) (identity : Identity)
    (rule : Rule) (captures : Captures) (attrs : List Attributes) : Prop :=
  ∃ endpoint mapping, matchedEndpoint req.path cfg.endpoints = some (endpoint, captures) ∧
    endpoint.mappings.find? (·.accepts req.method) = some mapping ∧ rule ∈ mapping.resources ∧
    attributes iter cfg req identity = .ok attrs

/-- One of the attributes is that of the rule with these texts for its header and its query
parameter. -/
def Substitutes (iter : Iteration) (req : Request) (identity : Identity) (rule : Rule)
    (captures : Captures) (attrs : List Attributes) (header query : Text) : Prop :=
  ∃ v, endpointRewrites req rule.rewrites = .ok [(v, header, query)] ∧
    expandRule req identity (iter.order captures) rule.resourceAttributes [(v, header, query)] ∈
      attrs

/-- Every value of the rewritten header and of the rewritten query parameter is the one that is
authorized. -/
def NoDuplicate (iter : Iteration) (req : Request) (identity : Identity) (rule : Rule)
    (captures : Captures) (attrs : List Attributes) : Prop :=
  ∀ header query, Substitutes iter req identity rule captures attrs header query →
    (∀ h, rule.rewrites.byHttpHeader = some h →
      ∀ value ∈ req.headers.getAllText h.name, value = encodeUtf8 header) ∧
    ∀ q, rule.rewrites.byQueryParameter = some q →
      ∀ value ∈ queryOccurrences req q.name, value = query

/-- The request has no two values for the rewritten header, nor for the rewritten parameter. -/
def SingleValued (req : Request) (r : Rewrites) : Prop :=
  (∀ h, r.byHttpHeader = some h → ∀ value ∈ req.headers.getAllText h.name,
    ∀ other ∈ req.headers.getAllText h.name, value = other) ∧
  ∀ q, r.byQueryParameter = some q → ∀ value ∈ queryOccurrences req q.name,
    ∀ other ∈ queryOccurrences req q.name, value = other

/-- The second request repeats a header or a query parameter of the first at the end. -/
inductive LaterRepetition (req : Request) : Request → Prop
  | header (name : HeaderName) (value : Bytes) (h : req.headers.getAll name ≠ []) :
      LaterRepetition req { req with headers := req.headers ++ [(name, value)] }
  | query (text last name value : Text) (htext : req.query = some text)
      (hlast : parseForm last = [(name, value)]) (h : queryOccurrences req name ≠ []) :
      LaterRepetition req { req with query := some (text ++ '&' :: last) }

theorem endpointRewrites_first {req : Request} {r : Rewrites} {rewrite : List (Text × Text × Text)}
    (h : endpointRewrites req r = .ok rewrite)
    (hsome : r.byHttpHeader ≠ none ∨ r.byQueryParameter ≠ none) :
    ∃ v header query, rewrite = [(v, header, query)] ∧
      (∀ n, r.byHttpHeader = some n → headerText req n.name = some header) ∧
      ∀ q, r.byQueryParameter = some q → queryValue req q.name = some query := by
  obtain ⟨hheader, hquery⟩ := endpointRewrites_present h
  obtain ⟨byQuery, byHeader⟩ := r
  cases byHeader with
  | none =>
    cases byQuery with
    | none => simp at hsome
    | some q =>
      obtain ⟨y, hy, hyne⟩ := hquery q rfl
      simp [endpointRewrites, hy, hyne] at h
      exact ⟨_, _, y, h.symm, by simp, by simp [hy]⟩
  | some n =>
    obtain ⟨x, hx, hxne⟩ := hheader n rfl
    cases byQuery with
    | none =>
      simp [endpointRewrites, hx, hxne] at h
      exact ⟨_, x, _, h.symm, by simp [hx], by simp⟩
    | some q =>
      obtain ⟨y, hy, hyne⟩ := hquery q rfl
      simp [endpointRewrites, hx, hxne, hy, hyne] at h
      exact ⟨_, x, y, h.symm, by simp [hx], by simp [hy]⟩

theorem Through.rewrites {iter : Iteration} {cfg : AuthorizationConfig} {req : Request}
    {identity : Identity} {rule : Rule} {captures : Captures} {attrs : List Attributes}
    (h : Through iter cfg req identity rule captures attrs) :
    ∃ rewrite, endpointRewrites req rule.rewrites = .ok rewrite ∧
      expandRule req identity (iter.order captures) rule.resourceAttributes rewrite ∈ attrs := by
  obtain ⟨endpoint, mapping, hendpoint, hmapping, hrule, hattrs⟩ := h
  simp only [attributes, hendpoint, endpointAttributes, hmapping] at hattrs
  obtain ⟨attr, hattr, hexpand⟩ := forall₂_mem_left (mapM_eq_ok.mp hattrs) rule hrule
  unfold ruleAttributes at hexpand
  cases hrewrite : endpointRewrites req rule.rewrites with
  | error e => rw [hrewrite] at hexpand; contradiction
  | ok rewrite =>
    rw [hrewrite] at hexpand
    obtain rfl := Except.ok.inj hexpand
    exact ⟨rewrite, rfl, hattr⟩

theorem noDuplicate_iff {iter : Iteration} {cfg : AuthorizationConfig} {req : Request}
    {identity : Identity} {rule : Rule} {captures : Captures} {attrs : List Attributes}
    (h : Through iter cfg req identity rule captures attrs)
    (hsome : rule.rewrites.byHttpHeader ≠ none ∨ rule.rewrites.byQueryParameter ≠ none) :
    NoDuplicate iter req identity rule captures attrs ↔ SingleValued req rule.rewrites := by
  obtain ⟨rewrite, hrewrite, hmem⟩ := h.rewrites
  obtain ⟨v, header, query, rfl, hheader, hquery⟩ := endpointRewrites_first hrewrite hsome
  constructor
  · intro hsole
    obtain ⟨hheaders, hqueries⟩ := hsole header query ⟨v, hrewrite, hmem⟩
    exact ⟨fun n hn value hvalue other hother =>
        (hheaders n hn value hvalue).trans (hheaders n hn other hother).symm,
      fun q hq value hvalue other hother =>
        (hqueries q hq value hvalue).trans (hqueries q hq other hother).symm⟩
  · rintro ⟨hheaders, hqueries⟩ header' query' ⟨v', hrewrite', -⟩
    rw [hrewrite] at hrewrite'
    obtain ⟨-, rfl, rfl⟩ : v = v' ∧ header = header' ∧ query = query' := by
      simpa using Except.ok.inj hrewrite'
    constructor
    · intro n hn value hvalue
      have hfirst := hheader n hn
      rw [headerText_eq] at hfirst
      obtain ⟨first, hhead, hstr⟩ := Option.bind_eq_some_iff.mp hfirst
      rw [hheaders n hn value hvalue first (List.mem_of_head? hhead)]
      exact encodeUtf8_of_toStr hstr
    · intro q hq value hvalue
      have hfirst := hquery q hq
      rw [queryValue_eq] at hfirst
      exact hqueries q hq value hvalue query (List.mem_of_head? hfirst)

/-! ### Repetitions -/

/-- An endpoint's attributes depend on the headers and the query only through the first values. -/
theorem attributes_first_values {req other : Request} (hmethod : req.method = other.method)
    (hpath : req.path = other.path) (hheader : ∀ name, headerText req name = headerText other name)
    (hquery : ∀ name, queryValue req name = queryValue other name) {cfg : AuthorizationConfig}
    (hmatched : (matchedEndpoint req.path cfg.endpoints).isSome) (iter : Iteration)
    (identity : Identity) :
    attributes iter cfg req identity = attributes iter cfg other identity := by
  obtain ⟨⟨endpoint, captures⟩, hfound⟩ := Option.isSome_iff_exists.mp hmatched
  have hrule : ruleAttributes req identity (iter.order captures) =
      ruleAttributes other identity (iter.order captures) := by
    funext rule
    have hrewrites : endpointRewrites req rule.rewrites = endpointRewrites other rule.rewrites := by
      simp only [endpointRewrites, hheader, hquery]
    have hexpand : expandRule req identity (iter.order captures) rule.resourceAttributes =
        expandRule other identity (iter.order captures) rule.resourceAttributes := by
      funext rewrite
      simp only [expandRule, toAttr, hmethod, hpath]
    rw [ruleAttributes, ruleAttributes, hrewrites, hexpand]
  simp only [attributes, ← hpath, hfound, endpointAttributes, ← hmethod, hrule]

theorem parseForm_append (text last : Text) :
    parseForm (text ++ '&' :: last) = parseForm text ++ parseForm last := by
  have hamp : encodeUtf8 (text ++ '&' :: last) = encodeUtf8 text ++ 0x26 :: encodeUtf8 last := by
    rw [encodeUtf8_append, encodeUtf8_cons]
    rfl
  rw [parseForm, hamp, List.splitOn_append_cons_self, List.filter_append, List.map_append]
  rfl

theorem head?_append_of_ne_nil {α : Type} {l : List α} (h : l ≠ []) (m : List α) :
    (l ++ m).head? = l.head? := by
  cases l with
  | nil => contradiction
  | cons a l => rfl

theorem LaterRepetition.first_values {req repeated : Request} (h : LaterRepetition req repeated) :
    req.method = repeated.method ∧ req.path = repeated.path ∧
      (∀ name, headerText req name = headerText repeated name) ∧
      ∀ name, queryValue req name = queryValue repeated name := by
  cases h with
  | header name value hpresent =>
    refine ⟨rfl, rfl, fun t => ?_, fun _ => rfl⟩
    rw [headerText_eq, headerText_eq]
    congr 1
    unfold HeaderMap.getAllText
    cases HeaderName.parse t with
    | none => rfl
    | some n =>
      by_cases hn : name = n
      · subst hn
        simp only [HeaderMap.getAll, List.filter_append, List.map_append] at hpresent ⊢
        exact (head?_append_of_ne_nil hpresent _).symm
      · simp [HeaderMap.getAll, List.filter_append, hn]
  | query text last name value htext hlast hpresent =>
    refine ⟨rfl, rfl, fun _ => rfl, fun t => ?_⟩
    rw [queryValue_eq, queryValue_eq]
    unfold queryOccurrences at hpresent ⊢
    simp only [htext, Option.getD_some, parseForm_append, hlast, List.filter_append,
      List.map_append] at hpresent ⊢
    by_cases ht : name = t
    · subst ht
      exact (head?_append_of_ne_nil hpresent _).symm
    · simp [ht]

/-- When attributes come from a rule with rewrites, all values of its header and its parameter are
the authorized ones exactly when the request has no two values for either.  A later repetition,
whatever its value, changes nothing in what is authorized. -/
theorem attributes_duplicate_iff {iter : Iteration} {cfg : AuthorizationConfig} {req : Request}
    {identity : Identity} {rule : Rule} {captures : Captures} {attrs : List Attributes}
    (h : Through iter cfg req identity rule captures attrs)
    (hsome : rule.rewrites.byHttpHeader ≠ none ∨ rule.rewrites.byQueryParameter ≠ none) :
    (NoDuplicate iter req identity rule captures attrs ↔ SingleValued req rule.rewrites) ∧
    ∀ repeated, LaterRepetition req repeated →
      attributes iter cfg repeated identity = .ok attrs := by
  refine ⟨noDuplicate_iff h hsome, fun repeated hrepeated => ?_⟩
  obtain ⟨endpoint, mapping, hendpoint, -, -, hattrs⟩ := h
  obtain ⟨hmethod, hpath, hheader, hquery⟩ := hrepeated.first_values
  rw [← hattrs]
  refine (attributes_first_values hmethod hpath hheader hquery ?_ iter identity).symm
  rw [hendpoint]
  rfl

def tenantRule : Rule where
  rewrites := { byQueryParameter := some ⟨"tenant".toList⟩ }
  resourceAttributes := { namespace_ := fromQueryString, verb := fromMethod }

def eventsConfig : AuthorizationConfig where
  endpoints := [⟨"/events".toList, [⟨["post".toList], [tenantRule]⟩]⟩]

def tenantAttributes : List Attributes :=
  [{ user := ⟨"alice".toList, []⟩, verb := "create".toList, namespace_ := "team-a".toList
     apiGroup := [], apiVersion := [], resource := [], subresource := [], name := []
     resourceRequest := true, path := "/events".toList }]

def eventsRequest (query : String) : Request := ⟨"POST".toList, "/events".toList, query.toList, []⟩

theorem through_tenantRule (query : String)
    (h : attributes insertionOrder eventsConfig (eventsRequest query) ⟨"alice".toList, []⟩ =
      .ok tenantAttributes) :
    Through insertionOrder eventsConfig (eventsRequest query) ⟨"alice".toList, []⟩ tenantRule .empty
      tenantAttributes := by
  have hendpoint : matchedEndpoint "/events".toList eventsConfig.endpoints =
      some (⟨"/events".toList, [⟨["post".toList], [tenantRule]⟩]⟩, .empty) := by
    simp only [matchedEndpoint, eventsConfig]
    rw [show endpointMatch "/events".toList "/events".toList = some .empty by decide +kernel]
  have hmethod : Mapping.accepts ⟨["post".toList], [tenantRule]⟩ "POST".toList = true := by
    decide +kernel
  exact ⟨_, ⟨["post".toList], [tenantRule]⟩, hendpoint, List.find?_cons_of_pos hmethod,
    List.mem_singleton_self _, h⟩

theorem attributes_single_tenant :
    NoDuplicate insertionOrder (eventsRequest "tenant=team-a") ⟨"alice".toList, []⟩ tenantRule
      .empty tenantAttributes := by
  refine (attributes_duplicate_iff (through_tenantRule "tenant=team-a" (by decide +kernel))
    (by simp [tenantRule])).1.mpr ⟨by simp [tenantRule], fun q hq => ?_⟩
  obtain rfl := Option.some.inj hq
  decide +kernel

/-- The tenant that is authorized is the first one, and the request carries another. -/
theorem attributes_second_tenant :
    ¬NoDuplicate insertionOrder (eventsRequest "tenant=team-a&tenant=team-b") ⟨"alice".toList, []⟩
      tenantRule .empty tenantAttributes := by
  intro h
  have hsubstitutes : Substitutes insertionOrder (eventsRequest "tenant=team-a&tenant=team-b")
      ⟨"alice".toList, []⟩ tenantRule .empty tenantAttributes [] "team-a".toList :=
    ⟨"team-a".toList, by decide +kernel, by decide +kernel⟩
  have hsame := (h _ _ hsubstitutes).2 _ rfl "team-b".toList (by decide +kernel)
  revert hsame
  decide +kernel

/-! ### Rewrites of the configuration -/

def rewrittenQuery (req : Request) (r : Rewrites) : List Text :=
  r.byQueryParameter.elim [] fun q => queryOccurrences req q.name

def rewrittenHeader (req : Request) (r : Rewrites) : List Bytes :=
  r.byHttpHeader.elim [] fun h => req.headers.getAllText h.name

/-- The attributes for one value: the templated fields with the value in them, and the common
verb. -/
def valueAttributes (ra : ResourceAttributes) (req : Request) (identity : Identity) (v : Text) :
    Attributes where
  user := identity
  verb := if ra.verb = [] then kubeVerb req.method else ra.verb
  namespace_ := replaceAll valueHole v ra.namespace_
  apiGroup := replaceAll valueHole v ra.apiGroup
  apiVersion := replaceAll valueHole v ra.apiVersion
  resource := replaceAll valueHole v ra.resource
  subresource := replaceAll valueHole v ra.subresource
  name := replaceAll valueHole v ra.name
  resourceRequest := true
  path := req.path

/-- The attributes are those of every value of the query parameter and then of the header, where
`read` says what a header value is that cannot be read as text. -/
structure OneForEach (iter : Iteration) (cfg : AuthorizationConfig) (ra : ResourceAttributes)
    (r : Rewrites) (req : Request) (identity : Identity) : Prop where
  each : ∃ read : Bytes → Text, (∀ value t, toStr value = some t → read value = t) ∧
    attributes iter cfg req identity =
      .ok ((rewrittenQuery req r ++ (rewrittenHeader req r).map read).map
        (valueAttributes ra req identity))
  empty : attributes iter cfg req identity = .ok [] →
    rewrittenQuery req r = [] ∧ rewrittenHeader req r = []

theorem collect_eq (req : Request) (r : Rewrites) :
    collect req r = rewrittenQuery req r ++ (rewrittenHeader req r).filterMap toStr := by
  have hfilter : ∀ (name : Text) (pairs : List (Text × Text)),
      (pairs.filterMap fun pair => if pair.1 = name then some pair.2 else none) =
        (pairs.filter fun pair => pair.1 = name).map Prod.snd := by
    intro name pairs
    induction pairs with
    | nil => rfl
    | cons pair pairs ih => by_cases h : pair.1 = name <;> simp [h, ih]
  unfold collect rewrittenQuery rewrittenHeader
  cases r.byQueryParameter <;> cases r.byHttpHeader <;> simp [queryOccurrences, hfilter]

theorem attributes_rewritten {cfg : AuthorizationConfig} {ra : ResourceAttributes} {r : Rewrites}
    {req : Request} (hra : cfg.resourceAttributes = some ra) (hr : cfg.rewrites = some r)
    (hendpoint : matchedEndpoint req.path cfg.endpoints = none) (iter : Iteration)
    (identity : Identity) :
    attributes iter cfg req identity =
      .ok ((rewrittenQuery req r ++ (rewrittenHeader req r).filterMap toStr).map
        (valueAttributes ra req identity)) := by
  simp only [attributes, hendpoint, defaultAttributes, hra, hr, collect_eq]
  congr 2
  funext v
  by_cases hverb : ra.verb = [] <;> simp [toAttr, expandValue, valueAttributes, value,
    Captures.empty, hverb]

theorem filterMap_eq_map_read {l : List Bytes} (h : ∀ value ∈ l, (toStr value).isSome) :
    l.filterMap toStr = l.map fun value => (toStr value).getD [] := by
  induction l with
  | nil => rfl
  | cons value l ih =>
    obtain ⟨t, ht⟩ := Option.isSome_iff_exists.mp (h value List.mem_cons_self)
    rw [List.filterMap_cons_some ht, List.map_cons, ht,
      ih fun other hother => h other (List.mem_cons_of_mem _ hother)]
    rfl

/-- Where no endpoint matches, there is one attribute for each rewritten value exactly when every
value of the rewritten header can be read as text. -/
theorem attributes_each_iff {cfg : AuthorizationConfig} {ra : ResourceAttributes} {r : Rewrites}
    {req : Request} (hra : cfg.resourceAttributes = some ra) (hr : cfg.rewrites = some r)
    (hendpoint : matchedEndpoint req.path cfg.endpoints = none) (iter : Iteration)
    (identity : Identity) :
    OneForEach iter cfg ra r req identity ↔
      ∀ value ∈ rewrittenHeader req r, (toStr value).isSome := by
  have hattrs := attributes_rewritten hra hr hendpoint iter identity
  constructor
  · rintro ⟨⟨read, -, heach⟩, -⟩
    rw [hattrs] at heach
    have hlen := congrArg List.length (Except.ok.inj heach)
    simp only [List.length_map, List.length_append, Nat.add_left_cancel_iff] at hlen
    exact List.filterMap_length_eq_length.mp hlen
  · intro hread
    have hvalues := filterMap_eq_map_read hread
    refine ⟨⟨fun value => (toStr value).getD [], fun value t ht => by simp [ht], ?_⟩, ?_⟩
    · rw [hattrs, hvalues]
    · intro hempty
      rw [hattrs, hvalues] at hempty
      simpa using Except.ok.inj hempty

def tenantHeader : HeaderName := ⟨"x-tenant".toList, by decide +kernel⟩

def namespaceConfig : AuthorizationConfig where
  rewrites := some { byHttpHeader := some ⟨"X-Tenant".toList⟩ }
  resourceAttributes := some { namespace_ := valueHole }

def metricsRequest (headers : HeaderMap) : Request :=
  ⟨"GET".toList, "/metrics".toList, none, headers⟩

theorem attributes_each_tenant :
    OneForEach insertionOrder namespaceConfig { namespace_ := valueHole }
      { byHttpHeader := some ⟨"X-Tenant".toList⟩ }
      (metricsRequest [(tenantHeader, encodeUtf8 "one".toList),
        (tenantHeader, encodeUtf8 "two".toList)]) ⟨"alice".toList, []⟩ :=
  (attributes_each_iff rfl rfl rfl _ _).mpr (by decide +kernel)

def unreadRequest : Request :=
  metricsRequest [(tenantHeader, encodeUtf8 "one".toList), (tenantHeader, [0xE9])]

/-- A header value with a byte above `0x7f` reaches the upstream without attributes of its own. -/
theorem attributes_unread_tenant :
    ¬OneForEach insertionOrder namespaceConfig { namespace_ := valueHole }
      { byHttpHeader := some ⟨"X-Tenant".toList⟩ } unreadRequest ⟨"alice".toList, []⟩ := by
  rintro ⟨⟨read, -, heach⟩, -⟩
  have hattrs : attributes insertionOrder namespaceConfig unreadRequest ⟨"alice".toList, []⟩ =
      .ok [valueAttributes { namespace_ := valueHole } unreadRequest ⟨"alice".toList, []⟩
        "one".toList] := by
    decide +kernel
  have hcount : (rewrittenHeader unreadRequest
      { byHttpHeader := some ⟨"X-Tenant".toList⟩ }).length = 2 := by
    decide +kernel
  rw [hattrs] at heach
  have hlen := congrArg List.length (Except.ok.inj heach)
  simp only [List.length_map, List.length_append, hcount, List.length_singleton] at hlen
  omega

end KubeRbacProxy
