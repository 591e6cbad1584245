import Mathlib.Data.List.Induction

/-! Runs of a step function that is defined where the step is possible.  What a run passes through
is what its beginnings end in.  Where each step of one system is a step of another system or leaves
its part of the state alone, a run of the first projects to one of the second that passes through
nothing else. -/

namespace Library

variable {S A T B : Type}

def runFrom (step : S → A → Option S) : S → List A → Option S
  | s, [] => some s
  | s, action :: rest => (step s action).bind fun s' => runFrom step s' rest

variable {step : S → A → Option S} {s s' : S}

theorem runFrom_append {before after : List A} :
    runFrom step s (before ++ after) = some s' ↔
      ∃ mid, runFrom step s before = some mid ∧ runFrom step mid after = some s' := by
  induction before generalizing s with
  | nil => simp [runFrom]
  | cons action before ih =>
    simp only [List.cons_append, runFrom, Option.bind_eq_some_iff, ih]
    constructor
    · rintro ⟨next, hstep, mid, hbefore, hafter⟩
      exact ⟨mid, ⟨next, hstep, hbefore⟩, hafter⟩
    · rintro ⟨mid, ⟨next, hstep, hbefore⟩, hafter⟩
      exact ⟨next, hstep, mid, hbefore, hafter⟩

theorem runFrom_concat {actions : List A} {action : A} :
    runFrom step s (actions ++ [action]) = some s' ↔
      ∃ mid, runFrom step s actions = some mid ∧ step mid action = some s' := by
  simp [runFrom_append, runFrom]

/-- What holds at the start and is kept by each step of the run holds after it. -/
theorem runFrom_induction {Q : List A → S → Prop} (hstart : Q [] s)
    (hstep : ∀ {actions mid action next}, runFrom step s actions = some mid → Q actions mid →
      step mid action = some next → Q (actions ++ [action]) next)
    {actions : List A} (h : runFrom step s actions = some s') : Q actions s' := by
  induction actions using List.reverseRecOn generalizing s' with
  | nil =>
    obtain rfl := Option.some.inj h
    exact hstart
  | append_singleton actions action ih =>
    obtain ⟨mid, hbefore, haction⟩ := runFrom_concat.mp h
    exact hstep hbefore (ih hbefore) haction

theorem runFrom_invariant {I : S → Prop} (hstep : ∀ {s action s'}, I s →
    step s action = some s' → I s') (hstart : I s) {actions : List A}
    (h : runFrom step s actions = some s') : I s' :=
  runFrom_induction (Q := fun _ s => I s) hstart (fun _ hmid haction => hstep hmid haction) h

/-- Some run from `s` ends in a state of the goal. -/
def Attains (step : S → A → Option S) (goal : S → Prop) (s : S) : Prop :=
  ∃ actions s', runFrom step s actions = some s' ∧ goal s'

theorem Attains.now {goal : S → Prop} (h : goal s) : Attains step goal s := ⟨[], s, rfl, h⟩

theorem Attains.cons {goal : S → Prop} {action : A} (hstep : step s action = some s')
    (h : Attains step goal s') : Attains step goal s := by
  obtain ⟨actions, last, hrun, hgoal⟩ := h
  refine ⟨action :: actions, last, ?_, hgoal⟩
  rw [runFrom, hstep, Option.bind_some, hrun]

theorem Attains.trans {goal goal' : S → Prop} (h : Attains step goal s)
    (hgoal : ∀ s', goal s' → Attains step goal' s') : Attains step goal' s := by
  obtain ⟨actions, mid, hrun, hmid⟩ := h
  obtain ⟨more, last, hmore, hlast⟩ := hgoal mid hmid
  exact ⟨actions ++ more, last, runFrom_append.mpr ⟨mid, hrun, hmore⟩, hlast⟩

/-- A run over `actions` from `s` passes through `mid`. -/
def Passes (step : S → A → Option S) (s : S) (actions : List A) (mid : S) : Prop :=
  ∃ before after, actions = before ++ after ∧ runFrom step s before = some mid

theorem Passes.of_run {actions : List A} (h : runFrom step s actions = some s') :
    Passes step s actions s' := ⟨actions, [], by simp, h⟩

theorem Passes.start (actions : List A) : Passes step s actions s := ⟨[], actions, rfl, rfl⟩

theorem Passes.append {actions : List A} {mid : S} (h : Passes step s actions mid)
    (more : List A) : Passes step s (actions ++ more) mid := by
  obtain ⟨before, after, rfl, hrun⟩ := h
  exact ⟨before, after ++ more, by simp, hrun⟩

theorem Passes.concat {actions : List A} {action : A} {mid : S}
    (h : Passes step s (actions ++ [action]) mid) :
    Passes step s actions mid ∨ runFrom step s (actions ++ [action]) = some mid := by
  obtain ⟨before, after, heq, hrun⟩ := h
  rcases List.eq_nil_or_concat after with rfl | ⟨rest, last, rfl⟩
  · rw [List.append_nil] at heq
    exact Or.inr (heq ▸ hrun)
  · rw [List.concat_eq_append, ← List.append_assoc] at heq
    exact Or.inl ⟨before, rest, List.append_inj_left' heq rfl, hrun⟩

/-- The projection of a run along `f`, of whose steps each is a step of the other system or leaves
`f` as it was. -/
theorem runFrom_project {step' : T → B → Option T} {f : S → T}
    (hstep : ∀ {s action s'}, step s action = some s' →
      f s' = f s ∨ ∃ action', step' (f s) action' = some (f s'))
    {actions : List A} (h : runFrom step s actions = some s') :
    ∃ actions', runFrom step' (f s) actions' = some (f s') ∧
      ∀ mid', Passes step' (f s) actions' mid' →
        ∃ mid, Passes step s actions mid ∧ f mid = mid' := by
  refine runFrom_induction (Q := fun actions s' => ∃ actions',
    runFrom step' (f s) actions' = some (f s') ∧ ∀ mid', Passes step' (f s) actions' mid' →
      ∃ mid, Passes step s actions mid ∧ f mid = mid') ?_ ?_ h
  · refine ⟨[], rfl, ?_⟩
    rintro mid' ⟨before, after, heq, hrun⟩
    obtain ⟨rfl, -⟩ := List.append_eq_nil_iff.mp heq.symm
    exact ⟨s, .start [], Option.some.inj hrun⟩
  · rintro actions mid action next hbefore ⟨actions', hrun', hpasses⟩ haction
    have hnext : Passes step s (actions ++ [action]) next :=
      .of_run (runFrom_concat.mpr ⟨mid, hbefore, haction⟩)
    have earlier : ∀ mid', Passes step' (f s) actions' mid' →
        ∃ mid, Passes step s (actions ++ [action]) mid ∧ f mid = mid' := by
      intro mid' h'
      obtain ⟨m, hm, rfl⟩ := hpasses mid' h'
      exact ⟨m, hm.append [action], rfl⟩
    rcases hstep haction with hsame | ⟨action', haction'⟩
    · exact ⟨actions', hsame ▸ hrun', earlier⟩
    · have hrun : runFrom step' (f s) (actions' ++ [action']) = some (f next) :=
        runFrom_concat.mpr ⟨f mid, hrun', haction'⟩
      refine ⟨actions' ++ [action'], hrun, fun mid' h' => ?_⟩
      rcases h'.concat with h' | h'
      · exact earlier mid' h'
      · exact ⟨next, hnext, Option.some.inj (hrun.symm.trans h')⟩

end Library
