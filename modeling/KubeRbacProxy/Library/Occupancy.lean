import KubeRbacProxy.Library.Pool
import Mathlib.Data.Set.Card

/-! How many calls of a pool are under way at a time.  A request makes one call after another, so a
call that the service works on is the one that some request is waiting for, and no two of them are
of the same request. -/

namespace Library.Pool

variable {Front Req Op : Type} {Res : Op → Type} {α : Type}
variable {pool : Pool Front Req Op Res α} {s s' : pool.State}

/-- A part of the service that works on the calls of some kind: a call is busy there from its start
at the earliest, and not once it has a result. -/
structure Part (pool : Pool Front Req Op Res α) where
  kind : Op → Prop
  busy : pool.service.State → Nat → Prop
  start : ∀ {b c op b'}, pool.service.start b c op = some b' →
    ∀ {c'}, busy b' c' → busy b c' ∨ c' = c ∧ kind op
  work : ∀ {b event b'}, pool.service.work b event = some b' → ∀ {c}, busy b' c → busy b c
  result : ∀ {b c op res}, pool.service.result b c op = some res → kind op → ¬busy b c

/-- Task `i` waits for call `c`. -/
def WaitsFor (s : pool.State) (c i : Nat) (op : Op) : Prop :=
  ∃ request seen trace next, s.tasks i = some ⟨request, seen, trace, .call op next, true⟩ ∧
    c = callNumber i trace

variable (pool) in
def serving (s : pool.State) : Set Nat :=
  {i | ∃ task, s.tasks i = some task ∧ task.program.outcome = none}

theorem WaitsFor.serving {c i : Nat} {op : Op} (h : WaitsFor s c i op) : i ∈ pool.serving s := by
  obtain ⟨request, seen, trace, next, htask, -⟩ := h
  exact ⟨_, htask, rfl⟩

theorem WaitsFor.number {c c' i : Nat} {op op' : Op} (h : WaitsFor s c i op)
    (h' : WaitsFor s c' i op') : c = c' := by
  obtain ⟨request, seen, trace, next, htask, rfl⟩ := h
  obtain ⟨request', seen', trace', next', htask', rfl⟩ := h'
  rw [htask] at htask'
  cases htask'
  rfl

theorem WaitsFor.frame {j c i : Nat} {op : Op} (h : WaitsFor s c i op) (hi : i ≠ j)
    (task : Task Front Req Op Res α) : WaitsFor (s.setTask j task) c i op := by
  obtain ⟨request, seen, trace, next, htask, hnumber⟩ := h
  exact ⟨request, seen, trace, next, (Function.update_of_ne hi ..).trans htask, hnumber⟩

/-- Each busy call is waited for. -/
def Accounted (part : pool.Part) (s : pool.State) : Prop :=
  ∀ c, part.busy s.backend c → ∃ i op, part.kind op ∧ WaitsFor s c i op

theorem step_accounted (part : pool.Part) {action : pool.Action} (hs : Accounted part s)
    (h : step s action = some s') : Accounted part s' := by
  intro c hbusy
  cases step_moves h with
  | @arrive i request hfree =>
    obtain ⟨j, op, hkind, hwaits⟩ := hs c hbusy
    refine ⟨j, op, hkind, hwaits.frame ?_ _⟩
    rintro rfl
    obtain ⟨_, _, _, _, htask, -⟩ := hwaits
    rw [hfree] at htask
    contradiction
  | @call i request seen trace op next backend htask hstart =>
    rcases part.start hstart hbusy with hold | ⟨rfl, hkind⟩
    · obtain ⟨j, op', hkind, hwaits⟩ := hs c hold
      refine ⟨j, op', hkind, hwaits.frame ?_ _⟩
      rintro rfl
      obtain ⟨_, _, _, _, hwaiting, -⟩ := hwaits
      rw [htask] at hwaiting
      cases hwaiting
    · exact ⟨i, op, hkind, request, seen, trace, next, Function.update_self .., rfl⟩
  | @resume i request seen trace op next res htask hresult =>
    obtain ⟨j, op', hkind, hwaits⟩ := hs c hbusy
    refine ⟨j, op', hkind, hwaits.frame ?_ _⟩
    rintro rfl
    -- the call that has returned is not busy
    obtain ⟨_, _, _, _, hwaiting, rfl⟩ := hwaits
    rw [htask] at hwaiting
    cases hwaiting
    exact part.result hresult hkind hbusy
  | work hwork => exact hs c (part.work hwork hbusy)

/-- In every run there are at most as many busy calls as requests being served. -/
theorem run_busy (part : pool.Part) {front : Front} {backend : pool.service.State}
    (hidle : ∀ c, ¬part.busy backend c) {actions : List pool.Action}
    (h : run (State.init front backend) actions = some s) :
    {c | part.busy s.backend c}.encard ≤ (pool.serving s).encard := by
  have haccounted : Accounted part s :=
    runFrom_invariant (step_accounted part) (fun c hbusy => absurd hbusy (hidle c)) h
  choose! waiter op hkind hwaits using haccounted
  have hinj : Set.InjOn waiter {c | part.busy s.backend c} := by
    intro c hc c' hc' heq
    have hwaits' := hwaits c' hc'
    rw [← heq] at hwaits'
    exact (hwaits c hc).number hwaits'
  rw [← hinj.encard_image]
  refine Set.encard_le_encard ?_
  rintro - ⟨c, hc, rfl⟩
  exact (hwaits c hc).serving

theorem step_tasks {action : pool.Action} (h : step s action = some s') {i : Nat}
    (hi : s.tasks i ≠ none) : s'.tasks i ≠ none := by
  have kept : ∀ {j : Nat} {task}, Function.update s.tasks j (some task) i ≠ none := by
    intro j task
    by_cases hij : i = j
    · subst hij
      rw [Function.update_self]
      exact Option.some_ne_none task
    · rwa [Function.update_of_ne hij]
  cases step_moves h with
  | arrive | call | resume => exact kept
  | work => exact hi

/-- A call leaves its traces in the service after its start, so there are none of a request that has
not arrived. -/
theorem run_untouched (touched : pool.service.State → Nat → Prop)
    (hstart : ∀ {b c op b'}, pool.service.start b c op = some b' →
      ∀ {c'}, touched b' c' → touched b c' ∨ c' = c)
    (hwork : ∀ {b event b'}, pool.service.work b event = some b' →
      ∀ {c}, touched b' c → touched b c)
    {front : Front} {backend : pool.service.State} (hnone : ∀ c, ¬touched backend c)
    {actions : List pool.Action} (h : run (State.init front backend) actions = some s) {i : Nat}
    (hi : s.tasks i = none) (k : Nat) : ¬touched s.backend (Nat.pair i k) := by
  have htasks : ∀ c, touched s.backend c → s.tasks (Nat.unpair c).1 ≠ none := by
    refine runFrom_invariant (I := fun (s : pool.State) =>
      ∀ c, touched s.backend c → s.tasks (Nat.unpair c).1 ≠ none) ?_
      (fun c hc => absurd hc (hnone c)) h
    intro s action s' hs hstep c hc
    have earlier : touched s.backend c → s'.tasks (Nat.unpair c).1 ≠ none :=
      fun hc => step_tasks hstep (hs c hc)
    cases step_moves hstep with
    | arrive | resume => exact earlier hc
    | work hevent => exact earlier (hwork hevent hc)
    | call htask hcall =>
      rcases hstart hcall hc with hold | rfl
      · exact earlier hold
      · rw [callNumber, Nat.unpair_pair]
        apply step_tasks hstep
        rw [htask]
        exact Option.some_ne_none _
  intro hc
  apply htasks _ hc
  rw [Nat.unpair_pair]
  exact hi

/-- Only requests that arrived are served. -/
theorem run_arrived {front : Front} {backend : pool.service.State} {actions : List pool.Action}
    (h : run (State.init front backend) actions = some s) {i : Nat} (hi : s.tasks i ≠ none) :
    ∃ request, Action.arrive i request ∈ actions := by
  revert hi
  refine runFrom_induction (Q := fun actions (s : pool.State) => s.tasks i ≠ none →
    ∃ request, Action.arrive i request ∈ actions) (fun hi => absurd rfl hi) ?_ h
  intro actions mid action next _ hmid hstep hi
  -- a step other than an arrival is about a task that there was
  have earlier : mid.tasks i ≠ none → ∃ request, Action.arrive i request ∈ actions ++ [action] :=
    fun h => (hmid h).imp fun _ => List.mem_append_left _
  have kept : ∀ {j : Nat} {task other}, mid.tasks j = some task →
      (mid.setTask j other).tasks i ≠ none → mid.tasks i ≠ none := by
    intro j task other htask hother
    by_cases hij : i = j
    · subst hij
      simp [htask]
    · change Function.update mid.tasks j _ i ≠ none at hother
      rwa [Function.update_of_ne hij] at hother
  cases step_moves hstep with
  | @arrive j request hfree =>
    by_cases hij : i = j
    · subst hij
      exact ⟨request, by simp⟩
    · apply earlier
      change Function.update mid.tasks j _ i ≠ none at hi
      rwa [Function.update_of_ne hij] at hi
  | call htask hstart => exact earlier (kept htask hi)
  | resume htask hresult => exact earlier (kept htask hi)
  | work hwork => exact earlier hi

end Library.Pool
