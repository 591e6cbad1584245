import KubeRbacProxy.Authorization.Attributes
import Mathlib.Data.Fintype.EquivFin

/-! What a static rule demands of a request, and the lists of rules whose demands are all enforced.
Static authorization compares eight texts and the kind of the request; the groups of a rule are
read from the configuration and never compared. -/

namespace KubeRbacProxy

open Library

/-- An empty text demands nothing. -/
def Stated (rule actual : Text) : Prop := rule ≠ [] → rule = actual

/-- The texts of a rule that are compared with those of a request. -/
def StaticRule.texts (r : StaticRule) : List Text :=
  [r.user.name, r.verb, r.namespace_, r.apiGroup, r.resource, r.subresource, r.name, r.path]

def Attributes.texts (a : Attributes) : List Text :=
  [a.user.name, a.verb, a.namespace_, a.apiGroup, a.resource, a.subresource, a.name, a.path]

/-- The request has the kind and the texts that the rule states. -/
def StaticRule.Fits (r : StaticRule) (a : Attributes) : Prop :=
  r.resourceRequest = a.resourceRequest ∧ List.Forall₂ Stated r.texts a.texts

def UserRule.Includes (u : UserRule) (user : Identity) : Prop :=
  u.groups ≠ [] → ∃ group ∈ u.groups, group ∈ user.groups

/-- Every constraint that the rule states is satisfied. -/
def StaticRule.Enforced (r : StaticRule) (a : Attributes) : Prop :=
  r.Fits a ∧ r.user.Includes a.user

/-- Static authorization of the request enforces every constraint of the rules. -/
def EnforcesAll (rules : List StaticRule) (a : Attributes) : Prop :=
  staticAllows rules a = true ↔ ∃ r ∈ rules, r.Enforced a

/-- What `general` states, `special` states too, and `general` names no groups. -/
def StaticRule.Covers (general special : StaticRule) : Prop :=
  general.resourceRequest = special.resourceRequest ∧
    List.Forall₂ Stated general.texts special.texts ∧ general.user.groups = []

theorem wildcard_iff {rule actual : Text} : wildcard rule actual = true ↔ Stated rule actual := by
  cases rule with
  | nil => simp [wildcard, Stated]
  | cons c rule => simp [wildcard, Stated]

theorem staticAllows_iff {rules : List StaticRule} {a : Attributes} :
    staticAllows rules a = true ↔ ∃ r ∈ rules, r.Fits a := by
  rw [staticAllows, List.any_eq_true]
  refine exists_congr fun r => and_congr_right fun _ => ?_
  simp only [Bool.and_eq_true, beq_iff_eq, wildcard_iff, StaticRule.Fits, StaticRule.texts,
    Attributes.texts, List.forall₂_cons, List.Forall₂.nil, and_true]
  constructor
  · rintro ⟨⟨⟨⟨⟨⟨⟨⟨hu, hv⟩, hns⟩, hg⟩, hr⟩, hs⟩, hn⟩, hp⟩, hkind⟩
    exact ⟨hkind, hu, hv, hns, hg, hr, hs, hn, hp⟩
  · rintro ⟨hkind, hu, hv, hns, hg, hr, hs, hn, hp⟩
    exact ⟨⟨⟨⟨⟨⟨⟨⟨hu, hv⟩, hns⟩, hg⟩, hr⟩, hs⟩, hn⟩, hp⟩, hkind⟩

theorem Stated.trans {a b c : Text} (hab : Stated a b) (hbc : Stated b c) : Stated a c := by
  intro ha
  obtain rfl := hab ha
  exact hbc ha

theorem StaticRule.Covers.fits {general special : StaticRule} {a : Attributes}
    (h : general.Covers special) (hfits : special.Fits a) : general.Enforced a := by
  obtain ⟨hkind, htexts, hgroups⟩ := h
  refine ⟨⟨hkind.trans hfits.1, ?_⟩, fun hne => absurd hgroups hne⟩
  have htrans : ∀ {l m n : List Text}, List.Forall₂ Stated l m → List.Forall₂ Stated m n →
      List.Forall₂ Stated l n := by
    intro l m n hlm hmn
    induction hlm generalizing n with
    | nil => exact hmn
    | cons hab _ ih =>
      cases hmn with
      | cons hbc hrest => exact .cons (hab.trans hbc) (ih hrest)
  exact htrans htexts hfits.2

/-! ### The request that a rule describes -/

/-- A text of a rule, where `fresh` stands for one that is left open. -/
def chosen (fresh text : Text) : Text := if text = [] then fresh else text

def StaticRule.request (r : StaticRule) (fresh : Text) : Attributes where
  user := ⟨chosen fresh r.user.name, []⟩
  verb := chosen fresh r.verb
  namespace_ := chosen fresh r.namespace_
  apiGroup := chosen fresh r.apiGroup
  apiVersion := []
  resource := chosen fresh r.resource
  subresource := chosen fresh r.subresource
  name := chosen fresh r.name
  resourceRequest := r.resourceRequest
  path := chosen fresh r.path

theorem request_texts (r : StaticRule) (fresh : Text) :
    (r.request fresh).texts = r.texts.map (chosen fresh) := rfl

theorem fits_request (r : StaticRule) (fresh : Text) : r.Fits (r.request fresh) := by
  refine ⟨rfl, ?_⟩
  rw [request_texts, List.forall₂_map_right_iff, List.forall₂_same]
  intro text _ hne
  rw [chosen, if_neg hne]

theorem stated_of_chosen {fresh rule text : Text} (hfresh : rule ≠ fresh)
    (h : Stated rule (chosen fresh text)) : Stated rule text := by
  intro hne
  have heq := h hne
  unfold chosen at heq
  split at heq
  · exact absurd heq hfresh
  · exact heq

theorem covers_of_request {general special : StaticRule} {fresh : Text}
    (hfresh : fresh ∉ general.texts) (h : general.Enforced (special.request fresh)) :
    general.Covers special := by
  obtain ⟨⟨hkind, htexts⟩, hgroups⟩ := h
  refine ⟨hkind, ?_, ?_⟩
  · rw [request_texts, List.forall₂_map_right_iff] at htexts
    generalize general.texts = texts at hfresh htexts
    generalize special.texts = demanded at htexts ⊢
    induction htexts with
    | nil => exact .nil
    | cons hab _ ih =>
      rw [List.mem_cons, not_or] at hfresh
      exact .cons (stated_of_chosen (Ne.symm hfresh.1) hab) (ih hfresh.2)
  · by_contra hne
    obtain ⟨group, -, hgroup⟩ := hgroups hne
    contradiction

theorem enforcesAll_iff {rules : List StaticRule} {a : Attributes} :
    EnforcesAll rules a ↔ ∀ r ∈ rules, r.Fits a → ¬r.user.Includes a.user →
      ∃ r' ∈ rules, r'.Enforced a := by
  rw [EnforcesAll, staticAllows_iff]
  constructor
  · intro h r hr hfits _
    exact h.mp ⟨r, hr, hfits⟩
  · intro h
    constructor
    · rintro ⟨r, hr, hfits⟩
      by_cases hincludes : r.user.Includes a.user
      · exact ⟨r, hr, hfits, hincludes⟩
      · exact h r hr hfits hincludes
    · rintro ⟨r, hr, hfits, -⟩
      exact ⟨r, hr, hfits⟩

/-- A request is authorized as its rules state exactly when a rule that it fits without being in a
group of the rule is joined by a rule that it satisfies.  All requests are exactly when every rule
with groups is covered by a rule without groups. -/
theorem staticAllows_enforces_iff (rules : List StaticRule) :
    (∀ a, EnforcesAll rules a ↔ ∀ r ∈ rules, r.Fits a → ¬r.user.Includes a.user →
      ∃ r' ∈ rules, r'.Enforced a) ∧
    ((∀ a, EnforcesAll rules a) ↔
      ∀ r ∈ rules, r.user.groups ≠ [] → ∃ r' ∈ rules, r'.Covers r) := by
  refine ⟨fun a => enforcesAll_iff, ?_, ?_⟩
  · intro h r hr hgroups
    obtain ⟨fresh, hfresh⟩ :=
      Infinite.exists_notMem_finset (rules.flatMap StaticRule.texts).toFinset
    rw [List.mem_toFinset] at hfresh
    have hnot : ¬r.user.Includes (r.request fresh).user := by
      intro hincludes
      obtain ⟨group, -, hgroup⟩ := hincludes hgroups
      contradiction
    obtain ⟨r', hr', henforced⟩ := enforcesAll_iff.mp (h _) r hr (fits_request r fresh) hnot
    refine ⟨r', hr', covers_of_request (fun hmem => hfresh ?_) henforced⟩
    exact List.mem_flatMap.mpr ⟨r', hr', hmem⟩
  · intro h a
    refine enforcesAll_iff.mpr fun r hr hfits hnot => ?_
    have hgroups : r.user.groups ≠ [] := fun hnil => hnot fun hne => absurd hnil hne
    obtain ⟨r', hr', hcovers⟩ := h r hr hgroups
    exact ⟨r', hr', hcovers.fits hfits⟩

def adminsOnly : StaticRule where
  user := { groups := ["admins".toList] }
  path := "/metrics".toList

def developerRequest : Attributes where
  user := ⟨"alice".toList, ["dev".toList]⟩
  verb := "get".toList
  namespace_ := []
  apiGroup := []
  apiVersion := []
  resource := []
  subresource := []
  name := []
  resourceRequest := false
  path := "/metrics".toList

/-- A rule for a group admits a user who is not in the group. -/
theorem staticAllows_ignores_groups : ¬EnforcesAll [adminsOnly] developerRequest := by
  intro h
  obtain ⟨r, hr, -, hincludes⟩ := h.mp (by decide +kernel)
  obtain rfl := List.mem_singleton.mp hr
  obtain ⟨group, hgroup, huser⟩ := hincludes (by simp [adminsOnly])
  revert group
  decide +kernel

end KubeRbacProxy
