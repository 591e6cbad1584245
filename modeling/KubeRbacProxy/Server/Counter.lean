import KubeRbacProxy.Server.Safety

/-! The counter of requests.  Both listeners count on one number, at admission; no interleaving
loses a request, and what `/metrics` shows is the number of requests counted before it. -/

namespace KubeRbacProxy

open Library

variable {d : Deployment} {lib : Jwt}

theorem authenticateRequest_requestsTotal (respond : Reply → Except Text Unit)
    (ctx : RequestContext) (requestsTotal : UInt64) (proxy : Proxy) (iter : Iteration)
    (session : Session) : (authenticateRequest respond ctx requestsTotal proxy iter
      session).requestsTotal = requestsTotal := by
  unfold authenticateRequest
  split
  · rfl
  · split
    · rfl
    · rfl
    · unfold authorizeUser
      split
      · rfl
      · split
        · rfl
        · split <;> rfl

/-- A request is counted unless it is for an operational endpoint. -/
theorem requestFilter_requestsTotal (respond : Reply → Except Text Unit) (ctx : RequestContext)
    (requestsTotal : UInt64) (proxy : Proxy) (iter : Iteration) (session : Session) :
    (requestFilter respond ctx requestsTotal proxy iter session).requestsTotal =
      if operational proxy session.reqHeader.path then requestsTotal else requestsTotal + 1 := by
  simp only [requestFilter]
  by_cases hop : operational proxy session.reqHeader.path = true
  · rw [if_pos hop]
    split
    · rfl
    · rename_i hhealth
      split
      · rfl
      · rename_i hmetrics
        rw [operational_eq_false.mpr ⟨hhealth, hmetrics⟩] at hop
        contradiction
  · obtain ⟨hhealth, hmetrics⟩ := operational_eq_false.mp (Bool.eq_false_of_not_eq_true hop)
    rw [if_neg hop, if_neg hhealth, if_neg hmetrics]
    split
    · rfl
    · split
      · rfl
      · exact authenticateRequest_requestsTotal ..

theorem requestFilter_metrics (respond : Reply → Except Text Unit) (ctx : RequestContext)
    (requestsTotal : UInt64) {proxy : Proxy} (iter : Iteration) {session : Session}
    (hop : proxy.operationalEndpoints = true) (hpath : session.reqHeader.path = "/metrics".toList) :
    (requestFilter respond ctx requestsTotal proxy iter session).reply =
      some ⟨200, metricsBody requestsTotal⟩ := by
  have hhealth : "/metrics".toList ≠ "/healthz".toList := by decide
  simp only [requestFilter, hop, hpath, hhealth, and_false, and_true, if_true, if_false]
  rfl

/-- The number of the requests that are counted, as the counter holds it. -/
def Deployment.counted (d : Deployment) (requests : List Incoming) : UInt64 :=
  UInt64.ofNat (requests.countP d.counts)

theorem counted_concat (requests : List Incoming) (request : Incoming) :
    d.counted (requests ++ [request]) =
      if d.counts request then d.counted requests + 1 else d.counted requests := by
  unfold Deployment.counted
  rw [List.countP_append, List.countP_singleton]
  split
  · rw [UInt64.ofNat_add]
    rfl
  · rfl

theorem frontAfter_counted (requests : List Incoming) :
    (server d lib).frontAfter 0 requests = d.counted requests := by
  induction requests using List.reverseRecOn with
  | nil => rfl
  | append_singleton requests request ih =>
    rw [Pool.frontAfter_concat, counted_concat, ih]
    rfl

/-- In every run, the counter holds the number of requests admitted that are not for an operational
endpoint, modulo `2 ^ 64`; every request leaves it at that number as of its own admission, and a
request for the metrics shows the number of those counted before it. -/
theorem requests_counted {now : Nat} {actions : List (server d lib).Action}
    {s : (server d lib).State} (hrun : ServerRun d lib now actions s) :
    s.front = d.counted (Pool.admissions actions) ∧
    ∀ i (task : Task UInt64 Incoming ApiCall ApiCall.Res Filtered) (filtered : Filtered),
      s.tasks i = some task → task.program = .done filtered → ∃ before after,
        actions = before ++ .arrive i task.request :: after ∧
        filtered.requestsTotal = d.counted (Pool.admissions before ++ [task.request]) ∧
        (task.request.operational = true →
          task.request.session.reqHeader.path = "/metrics".toList →
          filtered.reply = some ⟨200, metricsBody (d.counted (Pool.admissions before))⟩) := by
  obtain ⟨hfront, htasks⟩ := Pool.run_front hrun
  refine ⟨hfront.trans (frontAfter_counted _), fun i task filtered htask hdone => ?_⟩
  obtain ⟨before, after, hactions, hseen⟩ := htasks i task htask
  rw [frontAfter_counted] at hseen
  have hreaches := (Pool.run_recorded hrun i task htask).reaches
  have hagree := (filter_staged task.seen task.request).answer_agrees hreaches refusing
  rw [hdone] at hreaches
  have hfilter := hreaches.eval hagree
  obtain rfl := (filterCalls_eval ..).symm.trans hfilter
  refine ⟨before, after, hactions, ?_, fun hop hpath => ?_⟩
  · rw [requestFilter_requestsTotal, counted_concat, hseen, Deployment.counts]
    change (if operational (d.settings task.request.operational) _ then _ else _) = _
    cases operational (d.settings task.request.operational) _ <;> rfl
  · rw [hseen]
    exact requestFilter_metrics _ _ _ _ hop hpath

theorem requests_counted_pods : ∃ s, ServerRun podDeployment foreignLib 0 podActions s ∧
    s.front = podDeployment.counted (Pool.admissions podActions) ∧
    ∀ i (task : Task UInt64 Incoming ApiCall ApiCall.Res Filtered) (filtered : Filtered),
      s.tasks i = some task → task.program = .done filtered → ∃ before after,
        podActions = before ++ .arrive i task.request :: after ∧
        filtered.requestsTotal = podDeployment.counted (Pool.admissions before ++
          [task.request]) ∧
        (task.request.operational = true →
          task.request.session.reqHeader.path = "/metrics".toList →
          filtered.reply =
            some ⟨200, metricsBody (podDeployment.counted (Pool.admissions before))⟩) := by
  obtain ⟨s, task, filtered, hrun, -⟩ := podActions_forward
  exact ⟨s, hrun, requests_counted hrun⟩

end KubeRbacProxy
