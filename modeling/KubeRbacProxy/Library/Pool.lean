import Mathlib.Data.Nat.Pairing
import KubeRbacProxy.Library.Program
import KubeRbacProxy.Library.Run

/-! Requests that are served at the same time.  Each is admitted with a program, which it runs a
call at a time; the service that all of them call works on its own, and steps of different requests
come in any order.  A task keeps what it was admitted with and the results of its calls so far. -/

namespace Library

/-- What programs call.  Calls are numbered, and a result once given stays. -/
structure Service (Op : Type) (Res : Op → Type) where
  State : Type
  Event : Type
  start : State → Nat → Op → Option State
  work : State → Event → Option State
  result : State → Nat → (op : Op) → Option (Res op)
  start_result : ∀ {s i op s'}, start s i op = some s' →
    ∀ {j other res}, result s j other = some res → result s' j other = some res
  work_result : ∀ {s event s'}, work s event = some s' →
    ∀ {j other res}, result s j other = some res → result s' j other = some res

/-- A request admitted, with the front as it was then, and how far its program has come. -/
structure Task (Front Req Op : Type) (Res : Op → Type) (α : Type) where
  request : Req
  seen : Front
  trace : Program.Trace Op Res
  program : Program Op Res α
  /-- Whether the call that the program is at has been started. -/
  waiting : Bool

structure Pool (Front Req Op : Type) (Res : Op → Type) (α : Type) where
  service : Service Op Res
  arrive : Front → Req → Front × Program Op Res α

namespace Pool

variable {Front Req Op : Type} {Res : Op → Type} {α : Type}

structure State (pool : Pool Front Req Op Res α) where
  front : Front
  backend : pool.service.State
  tasks : Nat → Option (Task Front Req Op Res α)

inductive Action (pool : Pool Front Req Op Res α) where
  | arrive (i : Nat) (request : Req)
  | call (i : Nat)
  | resume (i : Nat)
  | work (event : pool.service.Event)

variable {pool : Pool Front Req Op Res α}

def State.init (front : Front) (backend : pool.service.State) : pool.State :=
  ⟨front, backend, fun _ => none⟩

def State.setTask (s : pool.State) (i : Nat) (task : Task Front Req Op Res α) : pool.State :=
  { s with tasks := Function.update s.tasks i (some task) }

/-- The number of the call that task `i` makes after the results in `trace`. -/
def callNumber (i : Nat) (trace : Program.Trace Op Res) : Nat := Nat.pair i trace.length

def step (s : pool.State) : pool.Action → Option pool.State
  | .arrive i request =>
    match s.tasks i with
    | some _ => none
    | none =>
      let admitted := pool.arrive s.front request
      some { s.setTask i ⟨request, s.front, [], admitted.2, false⟩ with front := admitted.1 }
  | .call i =>
    match s.tasks i with
    | some ⟨request, seen, trace, .call op next, false⟩ =>
      (pool.service.start s.backend (callNumber i trace) op).map fun backend =>
        { s.setTask i ⟨request, seen, trace, .call op next, true⟩ with backend := backend }
    | _ => none
  | .resume i =>
    match s.tasks i with
    | some ⟨request, seen, trace, .call op next, true⟩ =>
      (pool.service.result s.backend (callNumber i trace) op).map fun res =>
        s.setTask i ⟨request, seen, trace ++ [⟨op, res⟩], next res, false⟩
    | _ => none
  | .work event =>
    (pool.service.work s.backend event).map fun backend => { s with backend := backend }

abbrev run (s : pool.State) (actions : List pool.Action) : Option pool.State :=
  runFrom step s actions

/-- The result of task `i` after a run, if it comes to one. -/
def outcomeOf (s : pool.State) (actions : List pool.Action) (i : Nat) : Option α := do
  let s' ← run s actions
  let task ← s'.tasks i
  task.program.outcome

theorem outcomeOf_eq_some {s : pool.State} {actions : List pool.Action} {i : Nat} {result : α} :
    outcomeOf s actions i = some result ↔ ∃ s' task, run s actions = some s' ∧
      s'.tasks i = some task ∧ task.program = .done result := by
  simp only [outcomeOf, Option.bind_eq_bind, Option.bind_eq_some_iff, Program.outcome_eq_some]
  constructor
  · rintro ⟨s', hrun, task, htask, hdone⟩
    exact ⟨s', task, hrun, htask, hdone⟩
  · rintro ⟨s', task, hrun, htask, hdone⟩
    exact ⟨s', hrun, task, htask, hdone⟩

/-! ### What each step does -/

inductive Moves (s : pool.State) : pool.Action → pool.State → Prop
  | arrive {i : Nat} {request : Req} (hfree : s.tasks i = none) :
      Moves s (.arrive i request)
        { s.setTask i ⟨request, s.front, [], (pool.arrive s.front request).2, false⟩ with
          front := (pool.arrive s.front request).1 }
  | call {i : Nat} {request : Req} {seen : Front} {trace : Program.Trace Op Res} {op : Op}
      {next : Res op → Program Op Res α} {backend : pool.service.State}
      (htask : s.tasks i = some ⟨request, seen, trace, .call op next, false⟩)
      (hstart : pool.service.start s.backend (callNumber i trace) op = some backend) :
      Moves s (.call i)
        { s.setTask i ⟨request, seen, trace, .call op next, true⟩ with backend := backend }
  | resume {i : Nat} {request : Req} {seen : Front} {trace : Program.Trace Op Res} {op : Op}
      {next : Res op → Program Op Res α} {res : Res op}
      (htask : s.tasks i = some ⟨request, seen, trace, .call op next, true⟩)
      (hresult : pool.service.result s.backend (callNumber i trace) op = some res) :
      Moves s (.resume i) (s.setTask i ⟨request, seen, trace ++ [⟨op, res⟩], next res, false⟩)
  | work {event : pool.service.Event} {backend : pool.service.State}
      (hwork : pool.service.work s.backend event = some backend) :
      Moves s (.work event) { s with backend := backend }

variable {s s' : pool.State}

theorem step_moves {action : pool.Action} (h : step s action = some s') : Moves s action s' := by
  cases action with
  | arrive i request =>
    simp only [step] at h
    split at h
    · contradiction
    · rename_i hfree
      obtain rfl := Option.some.inj h
      exact .arrive hfree
  | call i =>
    simp only [step] at h
    split at h
    · rename_i htask
      obtain ⟨backend, hstart, rfl⟩ := Option.map_eq_some_iff.mp h
      exact .call htask hstart
    · contradiction
  | resume i =>
    simp only [step] at h
    split at h
    · rename_i htask
      obtain ⟨res, hresult, rfl⟩ := Option.map_eq_some_iff.mp h
      exact .resume htask hresult
    · contradiction
  | work event =>
    obtain ⟨backend, hwork, rfl⟩ := Option.map_eq_some_iff.mp h
    exact .work hwork

/-- A step of the pool is at most one step of the service. -/
theorem step_backend {action : pool.Action} (h : step s action = some s') :
    s'.backend = s.backend ∨
      (∃ i op, pool.service.start s.backend i op = some s'.backend) ∨
      ∃ event, pool.service.work s.backend event = some s'.backend := by
  cases step_moves h with
  | arrive hfree => exact Or.inl rfl
  | call htask hstart => exact Or.inr (Or.inl ⟨_, _, hstart⟩)
  | resume htask hresult => exact Or.inl rfl
  | work hwork => exact Or.inr (Or.inr ⟨_, hwork⟩)

theorem step_result {action : pool.Action} (h : step s action = some s') {c : Nat} {op : Op}
    {res : Res op} (hres : pool.service.result s.backend c op = some res) :
    pool.service.result s'.backend c op = some res := by
  rcases step_backend h with hsame | ⟨i, op, hstart⟩ | ⟨event, hwork⟩
  · rw [hsame]
    exact hres
  · exact pool.service.start_result hstart hres
  · exact pool.service.work_result hwork hres

/-! ### Tasks over runs -/

/-- The task is where its program gets with the results of its own calls. -/
structure Recorded (s : pool.State) (i : Nat) (task : Task Front Req Op Res α) : Prop where
  reaches : Program.Reaches (pool.arrive task.seen task.request).2 task.trace task.program
  results : ∀ k entry, task.trace[k]? = some entry →
    pool.service.result s.backend (Nat.pair i k) entry.1 = some entry.2

theorem Recorded.step {action : pool.Action} {i : Nat} {task : Task Front Req Op Res α}
    (h : Recorded s i task) (hstep : step s action = some s') : Recorded s' i task where
  reaches := h.reaches
  results k entry hentry := step_result hstep (h.results k entry hentry)

theorem update_eq_some {i j : Nat} {task other : Task Front Req Op Res α}
    (h : Function.update s.tasks i (some task) j = some other) :
    (j = i ∧ other = task) ∨ s.tasks j = some other := by
  by_cases hj : j = i
  · subst hj
    rw [Function.update_self] at h
    exact Or.inl ⟨rfl, (Option.some.inj h).symm⟩
  · rw [Function.update_of_ne hj] at h
    exact Or.inr h

theorem step_recorded {action : pool.Action} (hstep : step s action = some s')
    (h : ∀ i task, s.tasks i = some task → Recorded s i task) :
    ∀ i task, s'.tasks i = some task → Recorded s' i task := by
  intro j task htask'
  cases step_moves hstep with
  | @arrive i request hfree =>
    rcases update_eq_some htask' with ⟨rfl, rfl⟩ | hold
    · exact ⟨.refl _, by simp⟩
    · exact (h j task hold).step hstep
  | @call i request seen trace op next backend htask hstart =>
    rcases update_eq_some htask' with ⟨rfl, rfl⟩ | hold
    · have hbefore := (h j _ htask).step hstep
      exact ⟨hbefore.reaches, hbefore.results⟩
    · exact (h j task hold).step hstep
  | @resume i request seen trace op next res htask hresult =>
    rcases update_eq_some htask' with ⟨rfl, rfl⟩ | hold
    · have hbefore := h j _ htask
      refine ⟨hbefore.reaches.concat res, fun k entry hentry => ?_⟩
      rcases Nat.lt_or_ge k trace.length with hk | hk
      · rw [List.getElem?_append_left hk] at hentry
        exact hbefore.results k entry hentry
      · rw [List.getElem?_append_right hk] at hentry
        have hlast : k - trace.length = 0 := by
          by_contra hne
          simp [hne] at hentry
        obtain rfl : k = trace.length := by omega
        obtain rfl : ⟨op, res⟩ = entry := by simpa using hentry
        exact step_result hstep hresult
    · exact (h j task hold).step hstep
  | work hwork => exact (h j task htask').step hstep

theorem run_recorded {front : Front} {backend : pool.service.State} {actions : List pool.Action}
    (hrun : run (State.init front backend) actions = some s) :
    ∀ i task, s.tasks i = some task → Recorded s i task :=
  runFrom_invariant (I := fun s => ∀ i task, s.tasks i = some task → Recorded s i task)
    (fun h hstep => step_recorded hstep h) (by simp [State.init]) hrun

/-- A service invariant holds after every run of the pool. -/
theorem run_backend {I : pool.service.State → Prop}
    (hstart : ∀ {b i op b'}, I b → pool.service.start b i op = some b' → I b')
    (hwork : ∀ {b event b'}, I b → pool.service.work b event = some b' → I b')
    (h : I s.backend) {actions : List pool.Action} (hrun : run s actions = some s') :
    I s'.backend := by
  refine runFrom_invariant (I := fun s => I s.backend) ?_ h hrun
  intro s action s' hs hstep
  rcases step_backend hstep with hsame | ⟨i, op, hmove⟩ | ⟨event, hmove⟩
  · rwa [hsame]
  · exact hstart hs hmove
  · exact hwork hs hmove

/-! ### The front -/

def Action.request : pool.Action → Option Req
  | .arrive _ request => some request
  | _ => none

/-- The requests admitted, in order. -/
def admissions (actions : List pool.Action) : List Req := actions.filterMap Action.request

theorem admissions_concat (actions : List pool.Action) (action : pool.Action) :
    admissions (actions ++ [action]) = admissions actions ++ action.request.toList := by
  cases h : action.request <;> simp [admissions, h]

/-- The front after these requests. -/
def frontAfter (pool : Pool Front Req Op Res α) (front : Front) (requests : List Req) : Front :=
  requests.foldl (fun front request => (pool.arrive front request).1) front

theorem frontAfter_concat (front : Front) (requests : List Req) (request : Req) :
    pool.frontAfter front (requests ++ [request]) =
      (pool.arrive (pool.frontAfter front requests) request).1 := by
  simp [frontAfter]

/-- Task `i` was admitted with this request, when the front had come to `seen`. -/
def Admitted (front : Front) (actions : List pool.Action) (i : Nat) (request : Req)
    (seen : Front) : Prop :=
  ∃ before after, actions = before ++ .arrive i request :: after ∧
    seen = pool.frontAfter front (admissions before)

theorem Admitted.append {front seen : Front} {actions : List pool.Action} {i : Nat} {request : Req}
    (h : Admitted front actions i request seen) (more : List pool.Action) :
    Admitted front (actions ++ more) i request seen := by
  obtain ⟨before, after, rfl, hseen⟩ := h
  exact ⟨before, after ++ more, by simp, hseen⟩

/-- The front is that after the requests admitted, and each task has seen that after those admitted
before it. -/
theorem run_front {front : Front} {backend : pool.service.State} {actions : List pool.Action}
    (hrun : run (State.init front backend) actions = some s) :
    s.front = pool.frontAfter front (admissions actions) ∧ ∀ i task, s.tasks i = some task →
      Admitted front actions i task.request task.seen := by
  refine runFrom_induction (Q := fun actions s =>
    s.front = pool.frontAfter front (admissions actions) ∧ ∀ i task, s.tasks i = some task →
      Admitted front actions i task.request task.seen) ?_ ?_ hrun
  · exact ⟨rfl, by simp [State.init]⟩
  · rintro actions mid action next - ⟨hfront, htasks⟩ hstep
    rw [admissions_concat]
    cases step_moves hstep with
    | @arrive i request hfree =>
      refine ⟨?_, fun j task htask => ?_⟩
      · rw [Action.request, Option.toList_some, frontAfter_concat, ← hfront]
      · rcases update_eq_some htask with ⟨rfl, rfl⟩ | hold
        · exact ⟨actions, [], rfl, hfront⟩
        · exact (htasks j task hold).append _
    | @call i request seen trace op next backend htask hstart =>
      simp only [Action.request, Option.toList_none, List.append_nil]
      refine ⟨hfront, fun j task htask' => ?_⟩
      rcases update_eq_some htask' with ⟨rfl, rfl⟩ | hold
      · have hbefore := htasks j _ htask
        exact hbefore.append _
      · exact (htasks j task hold).append _
    | @resume i request seen trace op next res htask hresult =>
      simp only [Action.request, Option.toList_none, List.append_nil]
      refine ⟨hfront, fun j task htask' => ?_⟩
      rcases update_eq_some htask' with ⟨rfl, rfl⟩ | hold
      · have hbefore := htasks j _ htask
        exact hbefore.append _
      · exact (htasks j task hold).append _
    | work hwork =>
      simp only [Action.request, Option.toList_none, List.append_nil]
      exact ⟨hfront, fun j task htask => (htasks j task htask).append _⟩

end Pool

end Library
