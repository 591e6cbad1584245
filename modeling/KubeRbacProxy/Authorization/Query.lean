import KubeRbacProxy.Authorization.Defects
import KubeRbacProxy.Library.Form
import KubeRbacProxy.Proxy.Mediation

/-! The query of a request.  The values that are authorized are those of the pairs that the query
spells, and another spelling of the pairs changes nothing. -/

namespace KubeRbacProxy

open Library

section Query

variable {req : Request} {q q' : Text} {pairs : List (Text × Text)}

theorem queryValue_congr (h : parseForm q = parseForm q') (name : Text) :
    queryValue { req with query := some q } name = queryValue { req with query := some q' } name :=
  congrArg (fun parsed => (parsed.find? fun pair => pair.1 = name).map Prod.snd) h

theorem endpointRewrites_congr (h : parseForm q = parseForm q') (r : Rewrites) :
    endpointRewrites { req with query := some q } r =
      endpointRewrites { req with query := some q' } r := by
  simp only [endpointRewrites, queryValue_congr h]
  rfl

theorem endpointAttributes_congr (h : parseForm q = parseForm q') (identity : Identity)
    (endpoint : Endpoint) (captures : Captures) :
    endpointAttributes { req with query := some q } identity endpoint captures =
      endpointAttributes { req with query := some q' } identity endpoint captures := by
  have hrule : ruleAttributes { req with query := some q } identity captures =
      ruleAttributes { req with query := some q' } identity captures := by
    funext rule
    rw [ruleAttributes, endpointRewrites_congr h]
    rfl
  rw [endpointAttributes, endpointAttributes, hrule]

theorem collect_congr (h : parseForm q = parseForm q') (r : Rewrites) :
    collect { req with query := some q } r = collect { req with query := some q' } r := by
  simp only [collect, Option.getD_some, h]

theorem attributes_congr (h : parseForm q = parseForm q') (iter : Iteration)
    (cfg : AuthorizationConfig) (identity : Identity) :
    attributes iter cfg { req with query := some q } identity =
      attributes iter cfg { req with query := some q' } identity := by
  unfold attributes
  cases matchedEndpoint req.path cfg.endpoints with
  | some found => exact endpointAttributes_congr h identity found.1 _
  | none =>
    simp only [defaultAttributes, collect_congr h]
    rfl

theorem authorizeUser_congr (h : parseForm q = parseForm q') (respond : Reply → Except Text Unit)
    (ctx : RequestContext) (requestsTotal : UInt64) (proxy : Proxy) (iter : Iteration)
    (user : Identity) :
    authorizeUser respond ctx requestsTotal proxy iter { req with query := some q } user =
      authorizeUser respond ctx requestsTotal proxy iter { req with query := some q' } user := by
  unfold authorizeUser
  rw [attributes_congr h]

theorem filterMap_named (name : Text) (pairs : List (Text × Text)) :
    (pairs.filterMap fun pair => if pair.1 = name then some pair.2 else none) =
      (pairs.filter fun pair => pair.1 = name).map Prod.snd := by
  induction pairs with
  | nil => rfl
  | cons pair pairs ih =>
    rw [List.filterMap_cons, List.filter_cons]
    by_cases hname : pair.1 = name
    · simp only [hname, decide_true, if_true, List.map_cons, ih]
    · simp only [hname, decide_false, Bool.false_eq_true, if_false, ih]

/-- A request whose query spells the pairs is authorized for the values that the parameter has among
the pairs, in their order, and then for those of the header; and however the query spells them, the
request asks for the same and comes to the same end. -/
theorem query_spellings (hq : SpellsForm q pairs) (hq' : SpellsForm q' pairs) (proxy : Proxy)
    (iter : Iteration) (user : Identity) :
    (∀ r, collect { req with query := some q } r =
      (r.byQueryParameter.toList.flatMap fun p =>
        (pairs.filter fun pair => pair.1 = p.name).map Prod.snd) ++
      r.byHttpHeader.toList.flatMap fun h => (req.headers.getAllText h.name).filterMap toStr) ∧
    attributes iter proxy.authz { req with query := some q } user =
      attributes iter proxy.authz { req with query := some q' } user ∧
    ∀ respond ctx requestsTotal,
      authorizeUser respond ctx requestsTotal proxy iter { req with query := some q } user =
        authorizeUser respond ctx requestsTotal proxy iter { req with query := some q' } user := by
  have hparse : parseForm q = parseForm q' :=
    (parseForm_spells hq).trans (parseForm_spells hq').symm
  refine ⟨fun r => ?_, attributes_congr hparse iter proxy.authz user,
    fun respond ctx requestsTotal =>
      authorizeUser_congr hparse respond ctx requestsTotal proxy iter user⟩
  unfold collect
  congr 1
  · cases r.byQueryParameter with
    | none => rfl
    | some p =>
      simp only [Option.getD_some, parseForm_spells hq, filterMap_named, Option.toList_some,
        List.flatMap_singleton]
  · cases r.byHttpHeader with
    | none => rfl
    | some h => exact (List.flatMap_singleton ..).symm

end Query

def tenantsProxy : Proxy := { tenantProxy with authz := tenantsConfig }

theorem spells_tenant : SpellsForm "tenant=a+b".toList [("tenant".toList, "a b".toList)] := by
  refine ⟨[encodeUtf8 "tenant".toList ++ 0x3D :: encodeUtf8 "a+b".toList], by decide +kernel, ?_⟩
  refine .pair (spells_self (by decide +kernel)) ?_ .nil
  exact .itself (by decide) (.plus (.itself (by decide) .nil))

theorem query_spellings_tenant :
    (∀ r, collect { metricsRequest [] with query := some "tenant=a+b".toList } r =
      (r.byQueryParameter.toList.flatMap fun p =>
        ([("tenant".toList, "a b".toList)].filter fun pair => pair.1 = p.name).map Prod.snd) ++
      r.byHttpHeader.toList.flatMap fun h =>
        ((metricsRequest []).headers.getAllText h.name).filterMap toStr) ∧
    attributes insertionOrder tenantsProxy.authz
        { metricsRequest [] with query := some "tenant=a+b".toList } ⟨"alice".toList, []⟩ =
      attributes insertionOrder tenantsProxy.authz
        { metricsRequest [] with query := some (encodeForm [("tenant".toList, "a b".toList)]) }
        ⟨"alice".toList, []⟩ ∧
    ∀ respond ctx requestsTotal,
      authorizeUser respond ctx requestsTotal tenantsProxy insertionOrder
          { metricsRequest [] with query := some "tenant=a+b".toList } ⟨"alice".toList, []⟩ =
        authorizeUser respond ctx requestsTotal tenantsProxy insertionOrder
          { metricsRequest [] with query := some (encodeForm [("tenant".toList, "a b".toList)]) }
          ⟨"alice".toList, []⟩ :=
  query_spellings spells_tenant (spells_encodeForm _) tenantsProxy insertionOrder
    ⟨"alice".toList, []⟩

end KubeRbacProxy
