import KubeRbacProxy.Composition
import KubeRbacProxy.Oidc.Mapping
import KubeRbacProxy.Proxy.Mediation
import KubeRbacProxy.Server.Backend

/-! Requests served at the same time.  Whatever the order of the steps, what becomes of a request is
what `requestFilter` makes of it alone, with authenticators and a client that find the caches as
they were in states that the server passed through. -/

namespace KubeRbacProxy

open Library ReviewCache

variable {d : Deployment} {lib : Jwt}

theorem serverStep_backend {s s' : (server d lib).State} {action : (server d lib).Action}
    (h : Pool.step s action = some s') :
    s'.backend = s.backend ∨ BackendStep d s.backend s'.backend := by
  rcases Pool.step_backend h with hsame | ⟨i, call, hstart⟩ | ⟨event, hwork⟩
  · exact Or.inl hsame
  · exact Or.inr (startCall_step hstart)
  · exact Or.inr (workCalls_step hwork)

/-- The server passes through `s0` on its way. -/
def ServerPasses (now : Nat) (actions : List (server d lib).Action) (s0 : (server d lib).State) :
    Prop :=
  Passes Pool.step (started d lib now) actions s0

section Caches

variable {now : Nat} {actions : List (server d lib).Action} {s : (server d lib).State}

/-! ### The run of each cache -/

theorem serverRun_oidc (h : ServerRun d lib now actions s) (auth : OidcAuthenticator) :
    ∃ calls, runFrom oidcStep (OidcState.init lib auth now) calls = some (s.backend.oidc auth) ∧
      ∀ mid, Passes oidcStep (OidcState.init lib auth now) calls mid →
        ∃ s0, ServerPasses now actions s0 ∧ s0.backend.oidc auth = mid := by
  refine runFrom_project (f := fun s : (server d lib).State => s.backend.oidc auth) ?_ h
  intro s action s' hstep
  rcases serverStep_backend hstep with hsame | hstep
  · exact Or.inl (by rw [hsame])
  · exact hstep.oidc auth

theorem serverRun_tokens (h : ServerRun d lib now actions s) :
    ∃ calls, runFrom (ReviewCache.step (tokenScheme d.args.authTokenAudiences))
        (ReviewCache.State.init now) calls = some s.backend.tokens ∧
      ∀ mid, Passes (ReviewCache.step (tokenScheme d.args.authTokenAudiences))
        (ReviewCache.State.init now) calls mid →
        ∃ s0, ServerPasses now actions s0 ∧ s0.backend.tokens = mid := by
  refine runFrom_project (f := fun s : (server d lib).State => s.backend.tokens) ?_ h
  intro s action s' hstep
  rcases serverStep_backend hstep with hsame | hstep
  · exact Or.inl (by rw [hsame])
  · exact hstep.tokens

theorem serverRun_access (h : ServerRun d lib now actions s) :
    ∃ calls, runFrom (ReviewCache.step accessScheme) (ReviewCache.State.init now) calls =
        some s.backend.access ∧
      ∀ mid, Passes (ReviewCache.step accessScheme) (ReviewCache.State.init now) calls mid →
        ∃ s0, ServerPasses now actions s0 ∧ s0.backend.access = mid := by
  refine runFrom_project (f := fun s : (server d lib).State => s.backend.access) ?_ h
  intro s action s' hstep
  rcases serverStep_backend hstep with hsame | hstep
  · exact Or.inl (by rw [hsame])
  · exact hstep.access

/-! ### The calls that have returned -/

end Caches

/-! ### The surroundings of one request -/

section Tasks

variable {now : Nat} {actions : List (server d lib).Action} {s : (server d lib).State} {i : Nat}
  {task : Task UInt64 Incoming ApiCall ApiCall.Res Filtered}

theorem task_result (h : Pool.Recorded s i task) {entry : (call : ApiCall) × call.Res}
    (hentry : entry ∈ task.trace) : ∃ k, task.trace[k]? = some entry ∧
      callResult d s.backend (Nat.pair i k) entry.1 = some entry.2 := by
  obtain ⟨k, hk⟩ := List.mem_iff_getElem?.mp hentry
  exact ⟨k, hk, h.results k entry hk⟩

theorem filter_staged (requestsTotal : UInt64) (incoming : Incoming) :
    InStages (fun _ _ => True) 0 (d.filter requestsTotal incoming) :=
  filterCalls_staged ..

end Tasks

def podDeployment : Deployment where
  args :=
    { upstream := "http://127.0.0.1:8080".toList
      secureListenAddress := some "0.0.0.0:8443".toList
      kubeApiQps := .finite 5 value_five
      kubeApiBurst := 2 }
  authz := { resourceAttributes := some { apiVersion := "v1".toList, resource := "pods".toList } }
  oidc := none
  kubeClient := true

/-- A request for the pods with a token. -/
def podIncoming : Incoming where
  operational := false
  iter := insertionOrder
  respond _ := .ok ()
  session :=
    { reqHeader :=
        { method := "GET".toList
          path := "/pods".toList
          query := none
          headers := [(authorization, encodeUtf8 "Bearer t".toList)] }
      digest := none }

/-- The request is reviewed twice, for its token and for the access. -/
def podActions : List (server podDeployment foreignLib).Action :=
  [.arrive 0 podIncoming, .call 0, .work (.acquire 0),
    .work (.tokenAnswer 0 fun _ => .ok ⟨201, "201 Created".toList,
      .ok ⟨some ⟨some true, some ⟨some "alice".toList, none⟩⟩⟩⟩),
    .work (.tokenStore 0), .resume 0, .call 0, .work (.acquire 1),
    .work (.accessAnswer 1 allowing), .work (.accessStore 1), .resume 0]

theorem podActions_forward : ∃ s task filtered,
    ServerRun podDeployment foreignLib 0 podActions s ∧ s.tasks 0 = some task ∧
      task.program = .done filtered ∧ filtered.result = .ok false := by
  have hforwarded : ((Pool.outcomeOf (started podDeployment foreignLib 0) podActions 0).map
      (·.result)) = some (.ok false) := by
    decide +kernel
  obtain ⟨filtered, houtcome, hresult⟩ := Option.map_eq_some_iff.mp hforwarded
  obtain ⟨s, task, hrun, htask, hdone⟩ := Pool.outcomeOf_eq_some.mp houtcome
  exact ⟨s, task, filtered, hrun, htask, hdone, hresult⟩

end KubeRbacProxy
