import KubeRbacProxy.Library.Pool

/-! A pool over a service whose calls can always be answered never gets stuck: from every state that
it comes to, each request can be brought to its end by steps that leave all other tasks alone. -/

namespace Library

/-- A call can be started where its number is free, and one that was started can be answered by the
service's own work; other calls keep it neither from the one nor from the other.  What the answers
rest on, whatever is called, is the invariant. -/
structure Responsive {Op : Type} {Res : Op → Type} (service : Service Op Res) where
  Inv : service.State → Prop
  Free : service.State → Nat → Prop
  Pending : service.State → Nat → Op → Prop
  start_inv : ∀ {s i op s'}, Inv s → service.start s i op = some s' → Inv s'
  work_inv : ∀ {s event s'}, Inv s → service.work s event = some s' → Inv s'
  start_free : ∀ {s i} (op : Op), Free s i → ∃ s', service.start s i op = some s'
  start_pending : ∀ {s i op s'}, service.start s i op = some s' → Pending s' i op
  start_free_other : ∀ {s i op s' j}, service.start s i op = some s' → j ≠ i →
    Free s j → Free s' j
  start_pending_other : ∀ {s i op s' j other}, service.start s i op = some s' → j ≠ i →
    Pending s j other → Pending s' j other
  work_free : ∀ {s event s' j}, service.work s event = some s' → Free s j → Free s' j
  work_pending : ∀ {s event s' j op}, service.work s event = some s' → Pending s j op →
    Pending s' j op
  answers : ∀ {s i op}, Inv s → Pending s i op →
    Attains service.work (fun s' => ∃ res, service.result s' i op = some res) s

namespace Pool

variable {Front Req Op : Type} {Res : Op → Type} {α : Type} {pool : Pool Front Req Op Res α}

/-- The calls that task `i` has still to make are free, and the one it waits for is pending. -/
structure TaskReady (responsive : Responsive pool.service) (backend : pool.service.State) (i : Nat)
    (task : Task Front Req Op Res α) : Prop where
  later : ∀ k, task.trace.length < k → responsive.Free backend (Nat.pair i k)
  next : task.waiting = false → responsive.Free backend (callNumber i task.trace)
  current : task.waiting = true → ∀ op rest, task.program = .call op rest →
    responsive.Pending backend (callNumber i task.trace) op

structure Ready (responsive : Responsive pool.service) (s : pool.State) : Prop where
  inv : responsive.Inv s.backend
  free : ∀ i, s.tasks i = none → ∀ k, responsive.Free s.backend (Nat.pair i k)
  task : ∀ {i task}, s.tasks i = some task → TaskReady responsive s.backend i task

variable {responsive : Responsive pool.service} {s s' : pool.State}

theorem TaskReady.mono {backend backend' : pool.service.State} {i : Nat}
    {task : Task Front Req Op Res α} (h : TaskReady responsive backend i task)
    (hfree : ∀ k, responsive.Free backend (Nat.pair i k) → responsive.Free backend' (Nat.pair i k))
    (hpending : ∀ k op, responsive.Pending backend (Nat.pair i k) op →
      responsive.Pending backend' (Nat.pair i k) op) : TaskReady responsive backend' i task where
  later k hk := hfree k (h.later k hk)
  next hwaiting := hfree _ (h.next hwaiting)
  current hwaiting op rest hprogram := hpending _ op (h.current hwaiting op rest hprogram)

/-- A change of task `i` and of the backend, where the backend keeps the other tasks ready. -/
theorem Ready.update (h : Ready responsive s) (s' : pool.State) {i : Nat}
    {task : Task Front Req Op Res α} (hinv : responsive.Inv s'.backend)
    (hself : TaskReady responsive s'.backend i task)
    (htasks : s'.tasks = Function.update s.tasks i (some task))
    (hfree : ∀ j k, j ≠ i → responsive.Free s.backend (Nat.pair j k) →
      responsive.Free s'.backend (Nat.pair j k))
    (hpending : ∀ j k op, j ≠ i → responsive.Pending s.backend (Nat.pair j k) op →
      responsive.Pending s'.backend (Nat.pair j k) op) : Ready responsive s' := by
  refine ⟨hinv, fun j hnone k => ?_, fun {j other} hother => ?_⟩
  · rw [htasks] at hnone
    have hj : j ≠ i := by
      rintro rfl
      rw [Function.update_self] at hnone
      contradiction
    rw [Function.update_of_ne hj] at hnone
    exact hfree j k hj (h.free j hnone k)
  · rw [htasks] at hother
    by_cases hj : j = i
    · subst hj
      rw [Function.update_self] at hother
      exact Option.some.inj hother ▸ hself
    · rw [Function.update_of_ne hj] at hother
      exact (h.task hother).mono (hfree j · hj) (hpending j · · hj)

theorem pair_ne {i j k l : Nat} (h : j ≠ i) : Nat.pair j k ≠ Nat.pair i l := fun heq =>
  h (Nat.pair_eq_pair.mp heq).1

theorem pair_ne_later {i k l : Nat} (h : l < k) : Nat.pair i k ≠ Nat.pair i l := fun heq => by
  have := (Nat.pair_eq_pair.mp heq).2
  omega

theorem step_ready {action : pool.Action} (hready : Ready responsive s)
    (hstep : step s action = some s') : Ready responsive s' := by
  cases step_moves hstep with
  | @arrive i request hfree =>
    have hall := hready.free i hfree
    refine hready.update _ hready.inv ?_ rfl (fun _ _ _ => id) (fun _ _ _ _ => id)
    exact ⟨fun k _ => hall k, fun _ => hall _, fun h => Bool.noConfusion h⟩
  | @call i request seen trace op next backend htask hstart =>
    have hself := hready.task htask
    refine hready.update _ (responsive.start_inv hready.inv hstart) ?_ rfl ?_ ?_
    · refine ⟨fun k hk => ?_, nofun, fun _ op' rest hprogram => ?_⟩
      · exact responsive.start_free_other hstart (pair_ne_later hk) (hself.later k hk)
      · obtain ⟨rfl, -⟩ := Program.call.inj hprogram
        exact responsive.start_pending hstart
    · exact fun j k hj => responsive.start_free_other hstart (pair_ne hj)
    · exact fun j k op hj => responsive.start_pending_other hstart (pair_ne hj)
  | @resume i request seen trace op next res htask hresult =>
    have hself := hready.task htask
    refine hready.update _ hready.inv ?_ rfl (fun _ _ _ => id) (fun _ _ _ _ => id)
    refine ⟨fun k hk => hself.later k ?_, fun _ => hself.later _ ?_, fun h => Bool.noConfusion h⟩
    · show trace.length < k
      simp only [List.length_append, List.length_singleton] at hk
      omega
    · show trace.length < (trace ++ [⟨op, res⟩] : Program.Trace Op Res).length
      simp only [List.length_append, List.length_singleton]
      omega
  | @work event backend hwork =>
    refine ⟨responsive.work_inv hready.inv hwork, fun j hnone k => ?_, fun htask => ?_⟩
    · exact responsive.work_free hwork (hready.free j hnone k)
    · exact (hready.task htask).mono (fun _ => responsive.work_free hwork)
        (fun _ _ => responsive.work_pending hwork)

/-- Task `i` comes to its end by steps that leave the front and the other tasks alone. -/
def CanFinish (s : pool.State) (i : Nat) : Prop :=
  ∃ actions s' task result, run s actions = some s' ∧ s'.tasks i = some task ∧
    task.program = .done result ∧ s'.front = s.front ∧ ∀ j, j ≠ i → s'.tasks j = s.tasks j

theorem CanFinish.after {i : Nat} {actions : List pool.Action} (hrun : run s actions = some s')
    (hfront : s'.front = s.front) (htasks : ∀ j, j ≠ i → s'.tasks j = s.tasks j)
    (h : CanFinish s' i) : CanFinish s i := by
  obtain ⟨more, last, task, result, hmore, htask, hdone, hfront', htasks'⟩ := h
  exact ⟨actions ++ more, last, task, result, runFrom_append.mpr ⟨s', hrun, hmore⟩, htask, hdone,
    hfront'.trans hfront, fun j hj => (htasks' j hj).trans (htasks j hj)⟩

theorem CanFinish.step {i : Nat} {action : pool.Action} (hstep : Pool.step s action = some s')
    (hfront : s'.front = s.front) (htasks : ∀ j, j ≠ i → s'.tasks j = s.tasks j)
    (h : CanFinish s' i) : CanFinish s i := by
  have hrun : run s [action] = some s' := by
    rw [run, runFrom, hstep]
    rfl
  exact CanFinish.after hrun hfront htasks h

/-- Work of the service alone, as steps of the pool. -/
theorem run_work {events : List pool.service.Event} {backend : pool.service.State}
    (h : runFrom pool.service.work s.backend events = some backend) :
    run s (events.map Action.work) = some { s with backend := backend } := by
  induction events generalizing s with
  | nil =>
    obtain rfl := Option.some.inj h
    rfl
  | cons event events ih =>
    obtain ⟨mid, hwork, hrest⟩ := Option.bind_eq_some_iff.mp h
    have hstep : step s (.work event) = some { s with backend := mid } := by
      simp only [step, hwork, Option.map_some]
    rw [List.map_cons, run, runFrom, hstep, Option.bind_some]
    exact ih hrest

theorem Ready.run (h : Ready responsive s) {actions : List pool.Action}
    (hrun : Pool.run s actions = some s') : Ready responsive s' :=
  runFrom_invariant (fun hs hstep => step_ready hs hstep) h hrun

/-- A task that waits for its call goes on when the service has answered it. -/
theorem finish_waiting {i : Nat} {request : Req} {seen : Front} {trace : Program.Trace Op Res}
    {op : Op} {next : Res op → Program Op Res α} (hready : Ready responsive s)
    (htask : s.tasks i = some ⟨request, seen, trace, .call op next, true⟩)
    (ih : ∀ (s' : pool.State) res, Ready responsive s' →
      s'.tasks i = some ⟨request, seen, trace ++ [⟨op, res⟩], next res, false⟩ →
      CanFinish s' i) : CanFinish s i := by
  obtain ⟨events, backend, hwork, res, hresult⟩ :=
    responsive.answers hready.inv ((hready.task htask).current rfl op next rfl)
  have hanswered := run_work hwork
  refine CanFinish.after hanswered rfl (fun _ _ => rfl) ?_
  have hresume : step { s with backend := backend } (.resume i) = some
      (({ s with backend := backend } : pool.State).setTask i
        ⟨request, seen, trace ++ [⟨op, res⟩], next res, false⟩) := by
    simp only [step, htask, hresult, Option.map_some]
  refine CanFinish.step hresume rfl (fun j hj => Function.update_of_ne hj ..) ?_
  exact ih _ res (step_ready (hready.run hanswered) hresume) (Function.update_self ..)

theorem finish {i : Nat} {task : Task Front Req Op Res α} (hready : Ready responsive s)
    (htask : s.tasks i = some task) : CanFinish s i := by
  obtain ⟨request, seen, trace, program, waiting⟩ := task
  induction program generalizing s trace waiting with
  | done result => exact ⟨[], s, _, result, rfl, htask, rfl, rfl, fun _ _ => rfl⟩
  | call op next ih =>
    cases waiting with
    | true => exact finish_waiting hready htask fun s' res hs' htask' => ih res hs' _ _ htask'
    | false =>
      obtain ⟨backend, hstart⟩ := responsive.start_free op ((hready.task htask).next rfl)
      have hcall : step s (.call i) = some { s.setTask i ⟨request, seen, trace, .call op next, true⟩
          with backend := backend } := by
        simp only [step, htask, hstart, Option.map_some]
      refine CanFinish.step hcall rfl (fun j hj => Function.update_of_ne hj ..) ?_
      exact finish_waiting (step_ready hready hcall) (Function.update_self ..)
        fun s' res hs' htask' => ih res hs' _ _ htask'

/-- In every run from a state with no tasks and all calls free, each task can be finished. -/
theorem run_finish (responsive : Responsive pool.service) {front : Front}
    {backend : pool.service.State} (hinv : responsive.Inv backend)
    (hfree : ∀ i, responsive.Free backend i)
    {actions : List pool.Action} (hrun : run (State.init front backend) actions = some s) {i : Nat}
    {task : Task Front Req Op Res α} (htask : s.tasks i = some task) : CanFinish s i := by
  have hinit : Ready responsive (State.init front backend) :=
    ⟨hinv, fun i _ k => hfree (Nat.pair i k), fun htask => by simp [State.init] at htask⟩
  exact finish (hinit.run hrun) htask

end Pool

end Library
