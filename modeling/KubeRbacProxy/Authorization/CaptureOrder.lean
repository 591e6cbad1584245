import KubeRbacProxy.Authorization.Injection

/-! The order of the captures.  A map of captures is iterated in an order of its own in each
request, and a captured text may spell the placeholder of another capture, so one request can be
authorized in two ways.  It is authorized in one way exactly when every template that its rules
expand comes to one text in all orders. -/

namespace KubeRbacProxy

open Library

def Attributes.withoutPath (a : Attributes) : Attributes := { a with path := [] }

/-- What is authorized, apart from the path that is recorded. -/
def outcome (result : Except Text (List Attributes)) : Except Text (List Attributes) :=
  result.map (List.map Attributes.withoutPath)

/-- The template comes to one text in all orders of the captures, as far as `read` tells texts
apart. -/
def OneText (read : Text → Text) (template replacement header query method : Text)
    (captures : Captures) : Prop :=
  ∀ order : Captures, order.entries.Perm captures.entries →
    read (endpointValue template replacement header query method order) =
      read (endpointValue template replacement header query method captures)

/-- The verb of a rule, which is that of the method where the template comes to nothing. -/
def verbOr (method verb : Text) : Text := if verb = [] then kubeVerb method else verb

/-- The templates of a rule, its verb apart. -/
def ResourceAttributes.templates (ra : ResourceAttributes) : List Text :=
  [ra.namespace_, ra.apiGroup, ra.apiVersion, ra.resource, ra.subresource, ra.name]

/-- Each template of a rule comes to one text, with the values `rewrite` of its rewrites. -/
structure RuleOrderFree (req : Request) (captures : Captures) (ra : ResourceAttributes)
    (rewrite : Text × Text × Text) : Prop where
  verb : OneText (verbOr req.method) ra.verb rewrite.1 rewrite.2.1 rewrite.2.2
    (kubeVerb req.method) captures
  others : ∀ template ∈ ra.templates, OneText id template rewrite.1 rewrite.2.1 rewrite.2.2
    (kubeVerb req.method) captures

/-- The rules that are applied to the request, if there are any and all their values are present,
expand their templates to one text each. -/
def OrderFree (cfg : AuthorizationConfig) (req : Request) : Prop :=
  ∀ endpoint captures mapping, matchedEndpoint req.path cfg.endpoints = some (endpoint, captures) →
    endpoint.mappings.find? (·.accepts req.method) = some mapping →
    (∀ rule ∈ mapping.resources, ∃ rewrite, endpointRewrites req rule.rewrites = .ok rewrite) →
    ∀ rule ∈ mapping.resources, ∀ rewrite, endpointRewrites req rule.rewrites = .ok rewrite →
      RuleOrderFree req captures rule.resourceAttributes (rewrite.head?.getD ([], [], []))

/-! ### One rule -/

theorem expandRule_eq (req : Request) (identity : Identity) (captures : Captures)
    (ra : ResourceAttributes) (rewrite : List (Text × Text × Text)) :
    expandRule req identity captures ra rewrite =
      let values := rewrite.head?.getD ([], [], [])
      let expand := fun template => endpointValue template values.1 values.2.1 values.2.2
        (kubeVerb req.method) captures
      { user := identity, verb := verbOr req.method (expand ra.verb)
        namespace_ := expand ra.namespace_, apiGroup := expand ra.apiGroup
        apiVersion := expand ra.apiVersion, resource := expand ra.resource
        subresource := expand ra.subresource, name := expand ra.name
        resourceRequest := true, path := req.path } := by
  rfl

theorem ruleOrderFree_iff {req : Request} {captures : Captures} {ra : ResourceAttributes}
    {rewrite : List (Text × Text × Text)} (identity : Identity) :
    RuleOrderFree req captures ra (rewrite.head?.getD ([], [], [])) ↔
      ∀ order : Captures, order.entries.Perm captures.entries →
        (expandRule req identity order ra rewrite).withoutPath =
          (expandRule req identity captures ra rewrite).withoutPath := by
  simp only [expandRule_eq, Attributes.withoutPath, Attributes.mk.injEq, true_and, and_true]
  constructor
  · intro h order hperm
    have hother := fun template ht => h.others template ht order hperm
    simp only [ResourceAttributes.templates, List.forall_mem_cons, List.not_mem_nil,
      false_imp_iff, implies_true, and_true, id] at hother
    exact ⟨h.verb order hperm, hother⟩
  · intro h
    refine ⟨fun order hperm => (h order hperm).1, ?_⟩
    simp only [ResourceAttributes.templates, List.forall_mem_cons, List.not_mem_nil,
      false_imp_iff, implies_true, and_true, OneText, id]
    exact ⟨fun order hperm => (h order hperm).2.1, fun order hperm => (h order hperm).2.2.1,
      fun order hperm => (h order hperm).2.2.2.1, fun order hperm => (h order hperm).2.2.2.2.1,
      fun order hperm => (h order hperm).2.2.2.2.2.1,
      fun order hperm => (h order hperm).2.2.2.2.2.2⟩

/-! ### A request -/

/-- Maps with these captures are iterated in this order. -/
def Iteration.only (captures order : Captures) (h : order.entries.Perm captures.entries) :
    Iteration where
  order := Function.update id captures order
  perm other := by
    by_cases hsame : other = captures
    · subst hsame
      rwa [Function.update_self]
    · rw [Function.update_of_ne hsame]
      exact .refl _

theorem outcome_mapM (f : Rule → Except Text Attributes) (l : List Rule) :
    outcome (l.mapM f) = l.mapM fun rule => (f rule).map Attributes.withoutPath := by
  induction l with
  | nil => rfl
  | cons rule l ih =>
    rw [List.mapM_cons, List.mapM_cons, ← ih]
    cases f rule with
    | error e => rfl
    | ok a => cases l.mapM f <;> rfl

theorem outcome_rules (req : Request) (identity : Identity) (captures : Captures)
    (rules : List Rule) : outcome (rules.mapM (ruleAttributes req identity captures)) =
      rules.mapM fun rule => (endpointRewrites req rule.rewrites).map fun rewrite =>
        (expandRule req identity captures rule.resourceAttributes rewrite).withoutPath := by
  rw [outcome_mapM]
  congr 1
  funext rule
  rw [ruleAttributes]
  cases endpointRewrites req rule.rewrites <;> rfl

/-- A request is authorized in one way exactly when it is free of the order of its captures. -/
theorem outcome_orderFree_iff (cfg : AuthorizationConfig) (req : Request) (identity : Identity) :
    (∀ iter iter' : Iteration, outcome (attributes iter cfg req identity) =
        outcome (attributes iter' cfg req identity)) ↔ OrderFree cfg req := by
  cases hmatched : matchedEndpoint req.path cfg.endpoints with
  | none => simp [OrderFree, attributes, hmatched]
  | some found =>
    obtain ⟨endpoint, captures⟩ := found
    cases hmapping : endpoint.mappings.find? (·.accepts req.method) with
    | none =>
      refine iff_of_true (fun iter iter' => ?_) ?_
      · simp only [attributes, endpointAttributes, hmatched, hmapping]
      · intro endpoint' captures' mapping' hmatched' hother
        obtain ⟨rfl, rfl⟩ := Prod.mk.inj (Option.some.inj (hmatched.symm.trans hmatched'))
        rw [hmapping] at hother
        contradiction
    | some mapping =>
      have hrules : ∀ iter : Iteration, outcome (attributes iter cfg req identity) =
          outcome (mapping.resources.mapM (ruleAttributes req identity (iter.order captures))) := by
        intro iter
        simp only [attributes, endpointAttributes, hmatched, hmapping]
      simp only [hrules, outcome_rules, mapM_map_congr_iff]
      constructor
      · intro h endpoint' captures' mapping' hmatched' hmapping' hall rule hrule rewrite hrewrite
        obtain ⟨rfl, rfl⟩ := Prod.mk.inj (Option.some.inj (hmatched.symm.trans hmatched'))
        obtain rfl := Option.some.inj (hmapping.symm.trans hmapping')
        rw [ruleOrderFree_iff identity]
        intro order hperm
        have hsame := h (.only captures order hperm) insertionOrder hall rule hrule rewrite hrewrite
        have honly : (Iteration.only captures order hperm).order captures = order :=
          Function.update_self ..
        rwa [honly] at hsame
      · intro h iter iter' hall rule hrule rewrite hrewrite
        have hfree := (ruleOrderFree_iff identity).mp
          (h endpoint captures mapping hmatched hmapping hall rule hrule rewrite hrewrite)
        rw [hfree _ (iter.perm captures), hfree _ (iter'.perm captures)]

-- The text of `a` spells the placeholder of `b`, which is replaced in it only if its turn is later.
example : ¬OneText id (pathParam "a".toList) [] [] [] []
    ⟨[("a".toList, pathParam "b".toList), ("b".toList, "prod".toList)], by decide, by decide⟩ := by
  intro h
  have hsame := h ⟨[("b".toList, "prod".toList), ("a".toList, pathParam "b".toList)], by decide,
    by decide⟩ (.swap ..)
  revert hsame
  decide +kernel

/-! ### Templates that are free of the order -/

/-- The captures are at most one, or the texts are settled in all orders. -/
def OrderSettled (req : Request) (captures : Captures) (ra : ResourceAttributes)
    (rewrite : Text × Text × Text) : Prop :=
  captures.entries.length ≤ 1 ∨ ∀ template ∈ ra.verb :: ra.templates, ∀ order : Captures,
    order.entries.Perm captures.entries →
    SettledTexts template rewrite.1 rewrite.2.1 rewrite.2.2 (kubeVerb req.method) order

theorem Captures.ext {a b : Captures} (h : a.entries = b.entries) : a = b := by
  cases a
  cases b
  simpa using h

theorem OrderSettled.orderFree {req : Request} {captures : Captures} {ra : ResourceAttributes}
    {rewrite : Text × Text × Text} (h : OrderSettled req captures ra rewrite) :
    RuleOrderFree req captures ra rewrite := by
  have hone : ∀ read, ∀ template ∈ ra.verb :: ra.templates, OneText read template rewrite.1
      rewrite.2.1 rewrite.2.2 (kubeVerb req.method) captures := by
    intro read template ht order hperm
    rcases h with hshort | hsettled
    · have hsame : order.entries = captures.entries := by
        match hentries : captures.entries with
        | [] => exact (hentries ▸ hperm).eq_nil
        | [entry] => exact List.perm_singleton.mp (hentries ▸ hperm)
        | _ :: _ :: _ => simp [hentries] at hshort
      rw [Captures.ext hsame]
    · rw [endpointValue_of_settled hperm (hsettled template ht order hperm),
        endpointValue_of_settled (.refl _) (hsettled template ht captures (.refl _))]
  exact ⟨hone _ _ List.mem_cons_self, fun template ht => hone _ _ (List.mem_cons_of_mem _ ht)⟩

end KubeRbacProxy
