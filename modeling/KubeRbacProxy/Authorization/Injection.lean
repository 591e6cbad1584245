import KubeRbacProxy.Authorization.Attributes

/-! Template expansion against the simultaneous substitution of a template.  The replacements follow
one another, so text that a client sends is searched for the placeholders replaced later.  For all
client texts and all orders of the captures, the two agree exactly on templates that have no
placeholder of a client text. -/

namespace KubeRbacProxy

open Library

/-- The placeholders of texts that a client sends with their values, in the order of their
replacement. -/
def clientRules (replacement header query : Text) (captures : Captures) : List (Text × Text) :=
  (valueHole, replacement) ::
      captures.entries.map (fun capture => (pathParam capture.1, capture.2)) ++
    [(fromHeader, header), (fromHeaderSpaced, header), (fromQueryString, query),
      (fromQueryStringSpaced, query)]

def endpointRules (replacement header query method : Text) (captures : Captures) :
    List (Text × Text) :=
  clientRules replacement header query captures ++
    [(fromMethod, method), (fromMethodSpaced, method)]

/-- The template, scanned once, with each placeholder replaced by its value. -/
def expandOnce (template replacement header query method : Text) (captures : Captures) : Text :=
  substitute (endpointRules replacement header query method captures) template

def clientHoles (captures : Captures) : List Text :=
  valueHole :: captures.entries.map (fun capture => pathParam capture.1) ++
    [fromHeader, fromHeaderSpaced, fromQueryString, fromQueryStringSpaced]

theorem endpointValue_eq (template replacement header query method : Text) (captures : Captures) :
    endpointValue template replacement header query method captures =
      replaceEach (endpointRules replacement header query method captures) template := by
  simp only [endpointValue, value, endpointRules, clientRules, replaceEach, List.foldl_append,
    List.foldl_cons, List.foldl_map, List.foldl_nil]

/-! ### The placeholders are in brackets and differ -/

theorem captureName_no_brace {name : Text} (h : validCaptureName name = true) :
    '{' ∉ name ∧ '}' ∉ name ∧ '"' ∉ name := by
  have plain : ∀ c ∈ name, (c.isAlpha || c.isDigit || c == '_') = true := by
    rw [validCaptureName, Bool.and_eq_true] at h
    obtain ⟨-, h⟩ := h
    cases name with
    | nil => simp
    | cons c rest =>
      rw [captureNameChars, Bool.and_eq_true, List.all_eq_true] at h
      intro d hd
      rcases List.mem_cons.mp hd with rfl | hd
      · rw [h.1, Bool.true_or, Bool.true_or]
      · exact h.2 d hd
  refine ⟨fun hc => ?_, fun hc => ?_, fun hc => ?_⟩ <;> exact absurd (plain _ hc) (by decide)

theorem bracketed_pathParam {name : Text} (h : validCaptureName name = true) :
    Bracketed '{' '}' (pathParam name) := by
  obtain ⟨hopen, hclose, -⟩ := captureName_no_brace h
  have hbefore : '{' ∉ " index .PathParams \"".toList ∧ '}' ∉ " index .PathParams \"".toList := by
    decide +kernel
  have hafter : '{' ∉ "\" ".toList ∧ '}' ∉ "\" ".toList := by decide +kernel
  refine ⟨_, rfl, List.append_ne_nil_of_right_ne_nil _ (by decide +kernel), ?_, ?_⟩
  · simp only [List.mem_append, not_or]
    exact ⟨⟨hbefore.1, hopen⟩, hafter.1⟩
  · simp only [List.mem_append, not_or]
    exact ⟨⟨hbefore.2, hclose⟩, hafter.2⟩

theorem pathParam_injective {a b : Text} (h : pathParam a = pathParam b) : a = b := by
  have hbody := List.append_cancel_right (List.cons.inj (List.cons.inj h).2).2
  exact List.append_cancel_left (List.append_cancel_right hbody)

def fixedHoles : List Text :=
  [valueHole, fromHeader, fromHeaderSpaced, fromQueryString, fromQueryStringSpaced, fromMethod,
    fromMethodSpaced]

theorem bracketed_fixed {p : Text} (h : p ∈ fixedHoles) : Bracketed '{' '}' p := by
  have plain : ∀ body : Text, (body ≠ [] ∧ '{' ∉ body ∧ '}' ∉ body) →
      Bracketed '{' '}' (placeholder body) := fun body hbody => ⟨body, rfl, hbody⟩
  simp only [fixedHoles, List.mem_cons, List.not_mem_nil, or_false] at h
  rcases h with rfl | rfl | rfl | rfl | rfl | rfl | rfl <;> exact plain _ (by decide +kernel)

theorem pathParam_not_fixed (name : Text) : pathParam name ∉ fixedHoles := by
  have hfixed : ∀ p ∈ fixedHoles, p[3]? ≠ some 'i' := by decide +kernel
  exact fun h => hfixed _ h rfl

theorem endpointRules_keys (replacement header query method : Text) (captures : Captures) :
    (endpointRules replacement header query method captures).map Prod.fst =
      clientHoles captures ++ [fromMethod, fromMethodSpaced] := by
  simp [endpointRules, clientRules, clientHoles, Function.comp_def]

theorem holes_perm (captures : Captures) :
    (clientHoles captures ++ [fromMethod, fromMethodSpaced]).Perm
      (captures.entries.map (fun capture => pathParam capture.1) ++ fixedHoles) := by
  rw [clientHoles, List.append_assoc]
  exact List.perm_middle.symm

theorem mem_holes {captures : Captures} {p : Text} :
    p ∈ clientHoles captures ++ [fromMethod, fromMethodSpaced] ↔
      p ∈ captures.entries.map (fun capture => pathParam capture.1) ∨ p ∈ fixedHoles := by
  rw [(holes_perm captures).mem_iff, List.mem_append]

theorem bracketed_holes (captures : Captures) :
    ∀ p ∈ clientHoles captures ++ [fromMethod, fromMethodSpaced], Bracketed '{' '}' p := by
  intro p hp
  rcases mem_holes.mp hp with hp | hp
  · obtain ⟨capture, hcapture, rfl⟩ := List.mem_map.mp hp
    exact bracketed_pathParam (captures.valid capture hcapture)
  · exact bracketed_fixed hp

theorem nodup_holes (captures : Captures) :
    (clientHoles captures ++ [fromMethod, fromMethodSpaced]).Nodup := by
  rw [(holes_perm captures).nodup_iff, List.nodup_append]
  refine ⟨?_, by decide, ?_⟩
  · have hnames := captures.distinct
    rw [show (fun capture : Text × Text => pathParam capture.1) = pathParam ∘ Prod.fst from rfl,
      ← List.map_map]
    exact List.Pairwise.map pathParam (fun _ _ hne heq => hne (pathParam_injective heq)) hnames
  · rintro p hp q hq rfl
    obtain ⟨capture, -, rfl⟩ := List.mem_map.mp hp
    exact pathParam_not_fixed _ hq

/-! ### Verbs -/

theorem kubeVerb_plain (method : Text) :
    '{' ∉ kubeVerb method ∧ '}' ∉ kubeVerb method ∧ ¬kubeVerb method <:+: fromMethodSpaced ∧
      (kubeVerb method).length < fromMethodSpaced.length := by
  have hverbs : ∀ verb ∈ ["get", "create", "update", "patch", "delete", "options", "head", "*"].map
      String.toList, '{' ∉ verb ∧ '}' ∉ verb ∧ ¬verb <:+: fromMethodSpaced ∧
        verb.length < fromMethodSpaced.length := by
    decide +kernel
  apply hverbs
  unfold kubeVerb
  repeat' split
  all_goals simp

/-! ### Both readings of a template -/

/-- In the order of `order`, every replacement finds its placeholder only where the template has
it. -/
def SettledTexts (template replacement header query method : Text) (order : Captures) : Prop :=
  Settled (endpointRules replacement header query method order)
    (scan (clientHoles order ++ [fromMethod, fromMethodSpaced]) template)

theorem expandOnce_order (template replacement header query method : Text)
    {captures order : Captures} (h : order.entries.Perm captures.entries) :
    expandOnce template replacement header query method order =
      expandOnce template replacement header query method captures := by
  have hperm : (endpointRules replacement header query method order).Perm
      (endpointRules replacement header query method captures) := by
    simp only [endpointRules, clientRules, List.cons_append, List.append_assoc]
    exact ((h.map _).append_right _).cons _
  have hrules : ∀ rule ∈ endpointRules replacement header query method order,
      Bracketed '{' '}' rule.1 := by
    intro rule hrule
    apply bracketed_holes order
    rw [← endpointRules_keys replacement header query method]
    exact List.mem_map_of_mem hrule
  refine substitute_perm hperm hrules ?_ template
  rw [endpointRules_keys]
  exact nodup_holes order

/-- Settled replacements are the simultaneous substitution, in every order of the captures. -/
theorem endpointValue_of_settled {template replacement header query method : Text}
    {captures order : Captures} (h : order.entries.Perm captures.entries)
    (hsettled : SettledTexts template replacement header query method order) :
    endpointValue template replacement header query method order =
      expandOnce template replacement header query method captures := by
  have hholes := bracketed_holes order
  have hrules : ∀ rule ∈ endpointRules replacement header query method order,
      Bracketed '{' '}' rule.1 := by
    intro rule hrule
    apply hholes
    rw [← endpointRules_keys replacement header query method]
    exact List.mem_map_of_mem hrule
  have hscan : ∀ q, .hole q ∈ scan (clientHoles order ++ [fromMethod, fromMethodSpaced]) template →
      Bracketed '{' '}' q := fun q hq => hholes q ((clear_scan hholes template).hole_mem hq)
  rw [← expandOnce_order template replacement header query method h, endpointValue_eq, expandOnce,
    substitute, endpointRules_keys, ← replaceEach_of_settled (by decide) hrules hscan hsettled,
    itemsText_scan hholes]

theorem settledTexts_of_absent {template : Text} (replacement header query method : Text)
    {order : Captures} (h : ∀ p ∈ clientHoles order, ¬p <:+: template) :
    SettledTexts template replacement header query (kubeVerb method) order := by
  have hholes := bracketed_holes order
  have hclear := clear_scan hholes template
  obtain ⟨hopen, hclose, hnotin, -⟩ := kubeVerb_plain method
  have hlast : Settled [(fromMethod, kubeVerb method), (fromMethodSpaced, kubeVerb method)]
      (scan (clientHoles order ++ [fromMethod, fromMethodSpaced]) template) :=
    settled_pair (by decide) hholes (by simp) (by simp) hopen hclose hnotin hclear
  have hclient : ∀ rule ∈ clientRules replacement header query order,
      rule.1 ∈ clientHoles order := by
    intro rule hrule
    have := List.mem_map_of_mem (f := Prod.fst) hrule
    simpa [clientRules, clientHoles, Function.comp_def] using this
  refine settled_append_absent (by decide) hholes hclear
    (fun rule hrule => List.mem_append_left _ (hclient rule hrule))
    (fun rule hrule hhole => ?_) hlast
  exact h _ (hclient rule hrule) ((hole_mem_scan_iff (by decide) hholes _ _).mp hhole).2

def Captures.fillWith (captured : Captures) (text : Text) : Captures where
  entries := captured.entries.map fun capture => (capture.1, text)
  valid := by
    intro entry hentry
    obtain ⟨capture, hcapture, rfl⟩ := List.mem_map.mp hentry
    exact captured.valid capture hcapture
  distinct := by
    rw [List.map_map]
    exact captured.distinct

/-- A template with a placeholder of a client text is expanded in two ways when every client text is
the placeholder of the method. -/
theorem endpointValue_rescans {template : Text} (method : Text) {captured : Captures} {p : Text}
    (hp : p ∈ clientHoles captured) (ht : p <:+: template) :
    endpointValue template fromMethodSpaced fromMethodSpaced fromMethodSpaced (kubeVerb method)
        (captured.fillWith fromMethodSpaced) ≠
      expandOnce template fromMethodSpaced fromMethodSpaced fromMethodSpaced (kubeVerb method)
        (captured.fillWith fromMethodSpaced) := by
  obtain ⟨hopen, hclose, hnotin, hshort⟩ := kubeVerb_plain method
  have hrules : endpointRules fromMethodSpaced fromMethodSpaced fromMethodSpaced (kubeVerb method)
      (captured.fillWith fromMethodSpaced) = (clientHoles captured).map (·, fromMethodSpaced) ++
        [(fromMethod, kubeVerb method), (fromMethodSpaced, kubeVerb method)] := by
    simp [endpointRules, clientRules, clientHoles, Captures.fillWith, Function.comp_def]
  rw [endpointValue_eq, expandOnce, hrules]
  exact replaceEach_ne_substitute (by decide) (bracketed_holes captured) (nodup_holes captured)
    hopen hclose hnotin hshort hp ht

/-- The expansion of a template is the simultaneous substitution, in every order of the captures,
for all settled texts; and it is for all texts, with the captured names of `captured`, exactly when
the template has no placeholder of a client text. -/
theorem endpointValue_substitutes_iff (template method : Text) (captured : Captures) :
    (∀ replacement header query (captures order : Captures),
      order.entries.Perm captures.entries →
      SettledTexts template replacement header query (kubeVerb method) order →
      endpointValue template replacement header query (kubeVerb method) order =
        expandOnce template replacement header query (kubeVerb method) captures) ∧
    ((∀ replacement header query (captures order : Captures),
      captures.entries.map Prod.fst = captured.entries.map Prod.fst →
      order.entries.Perm captures.entries →
      endpointValue template replacement header query (kubeVerb method) order =
        expandOnce template replacement header query (kubeVerb method) captures) ↔
      ∀ p ∈ clientHoles captured, ¬p <:+: template) := by
  refine ⟨fun _ _ _ _ _ => endpointValue_of_settled, fun h p hp ht => ?_, ?_⟩
  · refine endpointValue_rescans method hp ht (h _ _ _ _ _ ?_ (List.Perm.refl _))
    simp [Captures.fillWith]
  · intro h replacement header query captures order hnames hperm
    refine endpointValue_of_settled hperm (settledTexts_of_absent _ _ _ _ fun p hp => h p ?_)
    have hsame : ((order.entries.map Prod.fst).map pathParam).Perm
        ((captured.entries.map Prod.fst).map pathParam) := by
      rw [← hnames]
      exact (hperm.map _).map _
    simp only [List.map_map] at hsame
    have hholes : (clientHoles order).Perm (clientHoles captured) :=
      (hsame.append_right _).cons _
    exact hholes.mem_iff.mp hp

/-- A path segment that spells the placeholder of the method reaches the template as the verb. -/
theorem endpointValue_injected : ∃ captures,
    endpointMatch "/api/\x7btenant\x7d/jobs".toList
      "/api/%7B%7B.FromMethod%7D%7D/jobs".toList = some captures ∧
    endpointValue (pathParam "tenant".toList) [] [] [] (kubeVerb "GET".toList) captures =
      "get".toList ∧
    endpointValue (pathParam "tenant".toList) [] [] [] (kubeVerb "GET".toList) captures ≠
      expandOnce (pathParam "tenant".toList) [] [] [] (kubeVerb "GET".toList) captures :=
  ⟨⟨[("tenant".toList, fromMethod)], by decide +kernel, by decide +kernel⟩, by decide +kernel,
    by decide +kernel, by decide +kernel⟩

end KubeRbacProxy
