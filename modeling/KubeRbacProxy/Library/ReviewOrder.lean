import KubeRbacProxy.Library.ReviewCache
import Mathlib.Logic.Relation

/-! The order in which overlapping calls store their verdicts.  A call may be held up between its
answer and its store, while another call sends a review, stores its verdict, and returns it; then
the older verdict is stored over the newer one.  `Ordered` says how far this goes: in every run, the
stale verdict is that of a call which was in flight at the time, and there is none in runs where no
call goes on to a review while another one for the same key is in flight. -/

namespace Library.ReviewCache

section Order

variable {Req Key Spec Answer Verdict Error : Type} [DecidableEq Key]

/-- The call has sent a review for the key and has not stored its verdict. -/
def Call.InFlight (σ : Scheme Req Key Spec Answer Verdict Error) (key : Key) :
    Call Req Spec Answer Verdict Error → Prop
  | .reviewing request _ | .storing request _ _ => σ.key request = key
  | .idle | .returned .. => False

/-- The call has no answer yet, so a review of it may still be sent. -/
def Call.Unanswered : Call Req Spec Answer Verdict Error → Prop
  | .idle | .reviewing .. => True
  | .storing .. | .returned .. => False

/-- A condition on the steps of a run. -/
abbrev Guard (Req Key Spec Answer Verdict Error : Type) :=
  State Req Key Spec Answer Verdict Error → Action Req Answer → Prop

variable (σ : Scheme Req Key Spec Answer Verdict Error)

def Moves (P : Guard Req Key Spec Answer Verdict Error)
    (s : State Req Key Spec Answer Verdict Error) (action : Action Req Answer)
    (s' : State Req Key Spec Answer Verdict Error) : Prop :=
  P s action ∧ step σ s action = some s'

def Steps (P : Guard Req Key Spec Answer Verdict Error) :
    State Req Key Spec Answer Verdict Error → State Req Key Spec Answer Verdict Error → Prop :=
  Relation.ReflTransGen fun s s' => ∃ action, Moves σ P s action s'

/-- The requests that ask for the review of `a` if they have its key. -/
def sharing (a : Req) : Set Req := {b | σ.key b = σ.key a → σ.spec b = σ.spec a}

/-- Any step on such requests. -/
def Any (a : Req) : Guard Req Key Spec Answer Verdict Error :=
  fun _ action => action.Within (sharing σ a)

/-- A call for the key of `a` goes on to a review only where no other one for it is in flight. -/
def Solo (a : Req) : Guard Req Key Spec Answer Verdict Error := fun s action =>
  action.Within (sharing σ a) ∧ ∀ i request, action = .lookup i request → σ.key request = σ.key a →
    s.table.fresh σ.ttl s.now (σ.key a) = none → ∀ j, ¬(s.calls j).InFlight σ (σ.key a)

/-- In a run, call `j` waits for its answer at `s`, where its review may be sent, or sent again.  It
stores its verdict, and call `i` stores that of `review` under the same key after it.  If `review`
was answered by `s`, call `i` was `held` then. -/
def StoresInOrder (now : Nat) (P : Guard Req Key Spec Answer Verdict Error) (a : Req)
    (held : Call Req Spec Answer Verdict Error → Prop) : Prop :=
  ∀ s s1 s2 s3 s4 i j b c sentAt review verdict,
    Steps σ P (State.init now) s → s.calls j = .reviewing b sentAt → Steps σ P s s1 →
    Moves σ P s1 (.store j) s2 → Steps σ P s2 s3 →
    s3.calls i = .storing c review verdict → Moves σ P s3 (.store i) s4 →
    σ.key b = σ.key a → σ.key c = σ.key a → review ∈ s.reviews → held (s.calls i)

/-- In a run, call `i` returns a verdict at `s1`, and call `j`, which is idle then, returns another
one for the same key.  A review was answered so to a call that was `late` at `s1`. -/
def VerdictsHold (now : Nat) (P : Guard Req Key Spec Answer Verdict Error) (a : Req)
    (late : Call Req Spec Answer Verdict Error → Prop) : Prop :=
  ∀ s s1 s2 action i j b c v w t t',
    Steps σ P (State.init now) s →
    Moves σ P s action s1 → action.caller = some i → s1.calls i = .returned b (.ok v) t →
    s1.calls j = .idle → Steps σ P s1 s2 → s2.calls j = .returned c (.ok w) t' →
    σ.key b = σ.key a → σ.key c = σ.key a → w ≠ v →
    ∃ review ∈ s2.reviews, review.spec = σ.spec a ∧ σ.judge review.answer = .ok w ∧
      late (s1.calls review.caller)

/-- A call that is idle now sends its review later. -/
structure Ordered (now : Nat) (a : Req) : Prop where
  stores : StoresInOrder σ now (Any σ a) a (·.InFlight σ (σ.key a))
  verdicts : VerdictsHold σ now (Any σ a) a fun call => call = .idle ∨ call.InFlight σ (σ.key a)
  soloStores : StoresInOrder σ now (Solo σ a) a fun _ => False
  soloVerdicts : VerdictsHold σ now (Solo σ a) a (· = .idle)

variable {σ} {P : Guard Req Key Spec Answer Verdict Error}
  {s s' : State Req Key Spec Answer Verdict Error} {action : Action Req Answer} {key : Key}

theorem steps_of_run {Q : Action Req Answer → Prop} {actions : List (Action Req Answer)}
    (hQ : ∀ action ∈ actions, Q action) (h : run σ s actions = some s') :
    Steps σ (fun _ action => Q action) s s' := by
  induction actions generalizing s with
  | nil =>
    obtain rfl := Option.some.inj h
    exact .refl
  | cons action actions ih =>
    obtain ⟨s1, hstep, hrest⟩ := Option.bind_eq_some_iff.mp h
    exact .head ⟨action, hQ action List.mem_cons_self, hstep⟩
      (ih (fun a ha => hQ a (List.mem_cons_of_mem _ ha)) hrest)

theorem steps_inv {A : Set Req} (hP : ∀ s action, P s action → action.Within A)
    (hinv : Inv σ A s) (h : Steps σ P s s') : Inv σ A s' := by
  induction h with
  | refl => exact hinv
  | tail _ hmove ih =>
    obtain ⟨action, hguard, hstep⟩ := hmove
    exact step_inv ih (hP _ action hguard) hstep

/-! ### What a step does to one call -/

omit [DecidableEq Key] in
theorem CallStep.idle {i : Nat} {call : Call Req Spec Answer Verdict Error}
    (h : CallStep σ s i action call) (hidle : call = .idle) : s.calls i = .idle := by
  cases h with
  | stay => exact hidle
  | hit | send | judged | failed | stored => contradiction

omit [DecidableEq Key] in
theorem CallStep.inFlight {i : Nat} {call : Call Req Spec Answer Verdict Error}
    (h : CallStep σ s i action call) (hflight : call.InFlight σ key) :
    (s.calls i).InFlight σ key ∨ s.calls i = .idle ∧ ∃ request, action = .lookup i request ∧
      σ.key request = key ∧ s.table.fresh σ.ttl s.now key = none := by
  cases h with
  | stay => exact Or.inl hflight
  | @send request hidle hstale =>
    obtain rfl : σ.key request = key := hflight
    exact Or.inr ⟨hidle, request, rfl, rfl, hstale⟩
  | judged hcall =>
    rw [hcall]
    exact Or.inl hflight
  | hit | failed | stored => exact hflight.elim

omit [DecidableEq Key] in
theorem CallStep.unanswered {i : Nat} {call : Call Req Spec Answer Verdict Error}
    (h : CallStep σ s i action call) (hcall : call.Unanswered) : (s.calls i).Unanswered := by
  cases h with
  | stay => exact hcall
  | send hidle =>
    rw [hidle]
    trivial
  | hit | judged | failed | stored => exact hcall.elim

theorem steps_idle (h : Steps σ P s s') {i : Nat} (hidle : s'.calls i = .idle) :
    s.calls i = .idle := by
  induction h with
  | refl => exact hidle
  | tail _ hmove ih =>
    obtain ⟨action, -, hstep⟩ := hmove
    exact ih ((step_call hstep i).idle hidle)

theorem steps_inFlight (h : Steps σ P s s') {i : Nat} (hflight : (s'.calls i).InFlight σ key) :
    s.calls i = .idle ∨ (s.calls i).InFlight σ key := by
  induction h with
  | refl => exact Or.inr hflight
  | tail hsteps hmove ih =>
    obtain ⟨action, -, hstep⟩ := hmove
    obtain hbefore | ⟨hidle, -⟩ := (step_call hstep i).inFlight hflight
    · exact ih hbefore
    · exact Or.inl (steps_idle hsteps hidle)

/-! ### What a step does to the record and to the table -/

theorem step_now (h : step σ s action = some s') : s.now ≤ s'.now := by
  cases action with
  | tick time =>
    obtain rfl := Option.some.inj h
    exact Nat.le_add_right _ _
  | lookup i request =>
    obtain ⟨-, ⟨verdict, -, rfl⟩ | ⟨-, rfl⟩⟩ := step_lookup h <;> exact le_rfl
  | answer i answer =>
    obtain ⟨request, sentAt, -, ⟨verdict, -, rfl⟩ | ⟨error, -, rfl⟩⟩ := step_answer h <;>
      exact le_rfl
  | store i =>
    obtain ⟨request, review, verdict, -, rfl⟩ := step_store h
    exact le_rfl

theorem step_reviews (h : step σ s action = some s') :
    s'.reviews = s.reviews ∨ ∃ review, s'.reviews = review :: s.reviews ∧
      ¬(s'.calls review.caller).Unanswered := by
  cases action with
  | tick time =>
    obtain rfl := Option.some.inj h
    exact Or.inl rfl
  | lookup i request =>
    obtain ⟨-, ⟨verdict, -, rfl⟩ | ⟨-, rfl⟩⟩ := step_lookup h <;> exact Or.inl rfl
  | answer i answer =>
    obtain ⟨request, sentAt, -, ⟨verdict, -, rfl⟩ | ⟨error, -, rfl⟩⟩ := step_answer h
    · refine Or.inr ⟨_, rfl, ?_⟩
      show ¬((s.setCall i _).calls i).Unanswered
      rw [s.setCall_self]
      exact not_false
    · refine Or.inr ⟨_, rfl, ?_⟩
      show ¬((s.setCall i _).calls i).Unanswered
      rw [s.setCall_self]
      exact not_false
  | store i =>
    obtain ⟨request, review, verdict, -, rfl⟩ := step_store h
    exact Or.inl rfl

theorem step_entry (h : step σ s action = some s') (key : Key) :
    s'.table key = s.table key ∨ ∃ i request review verdict, action = .store i ∧
      s.calls i = .storing request review verdict ∧ σ.key request = key ∧
      s'.table key = some (s.now, verdict) ∧
      s'.calls i = .returned request (.ok verdict) s.now := by
  obtain hsame | ⟨i, request, review, verdict, haction, hcall, htable, hreturned⟩ := step_table h
  · exact Or.inl (congrFun hsame key)
  · rw [htable]
    by_cases hkey : σ.key request = key
    · subst hkey
      exact Or.inr ⟨i, request, review, verdict, haction, hcall, rfl, Function.update_self ..,
        hreturned⟩
    · exact Or.inl (Function.update_of_ne (Ne.symm hkey) ..)

omit [DecidableEq Key] in
theorem fresh_none_later {table table' : Table Key Verdict} {ttl now now' : Nat}
    (h : table.fresh ttl now key = none) (hentry : table' key = table key) (hnow : now ≤ now') :
    table'.fresh ttl now' key = none := by
  unfold Table.fresh at h ⊢
  rw [hentry]
  cases hold : table key with
  | none => rfl
  | some entry =>
    obtain ⟨time, verdict⟩ := entry
    simp only [hold, ite_eq_right_iff, reduceCtorEq, imp_false] at h ⊢
    omega

theorem steps_answered {now : Nat} (h : Steps σ P (State.init now) s) :
    ∀ review ∈ s.reviews, ¬(s.calls review.caller).Unanswered := by
  induction h with
  | refl => nofun
  | tail _ hmove ih =>
    obtain ⟨action, -, hstep⟩ := hmove
    intro review hmem hunanswered
    obtain hsame | ⟨newest, hnewest, hanswered⟩ := step_reviews hstep
    · rw [hsame] at hmem
      exact ih review hmem ((step_call hstep review.caller).unanswered hunanswered)
    · rw [hnewest, List.mem_cons] at hmem
      obtain rfl | hmem := hmem
      · exact hanswered hunanswered
      · exact ih review hmem ((step_call hstep review.caller).unanswered hunanswered)

/-- The entry that a call leaves when it returns a verdict, and the call or entry it had before. -/
theorem step_returns (h : step σ s action = some s') {i : Nat} (hcaller : action.caller = some i)
    {request : Req} {verdict : Verdict} {time : Nat}
    (hcall : s'.calls i = .returned request (.ok verdict) time) :
    (∃ storedAt, s'.table (σ.key request) = some (storedAt, verdict)) ∧
      ((∃ v, s.table.fresh σ.ttl s.now (σ.key request) = some v) ∨
        (s.calls i).InFlight σ (σ.key request)) := by
  cases action with
  | tick time => contradiction
  | lookup j request' =>
    obtain rfl := Option.some.inj hcaller
    obtain ⟨-, ⟨v, hfresh, rfl⟩ | ⟨-, rfl⟩⟩ := step_lookup h
    · obtain ⟨rfl, hverdict, -⟩ := Call.returned.inj ((s.setCall_self j _).symm.trans hcall)
      obtain rfl := Except.ok.inj hverdict
      obtain ⟨storedAt, hentry, -⟩ := Table.fresh_eq_some hfresh
      exact ⟨⟨storedAt, hentry⟩, Or.inl ⟨v, hfresh⟩⟩
    · exact nomatch (s.setCall_self j _).symm.trans hcall
  | answer j answer =>
    obtain rfl := Option.some.inj hcaller
    obtain ⟨request', sentAt, -, ⟨v, -, rfl⟩ | ⟨error, -, rfl⟩⟩ := step_answer h
    · exact nomatch (s.setCall_self j _).symm.trans hcall
    · exact nomatch (Call.returned.inj ((s.setCall_self j _).symm.trans hcall)).2.1
  | store j =>
    obtain rfl := Option.some.inj hcaller
    obtain ⟨request', review, v, hbefore, rfl⟩ := step_store h
    obtain ⟨rfl, hverdict, -⟩ := Call.returned.inj ((s.setCall_self j _).symm.trans hcall)
    obtain rfl := Except.ok.inj hverdict
    rw [hbefore]
    exact ⟨⟨s.now, Function.update_self ..⟩, Or.inr rfl⟩

/-! ### Runs with one review in flight -/

/-- At most one call for the key is in flight, and only where the key has no fresh entry. -/
structure SoloInv (σ : Scheme Req Key Spec Answer Verdict Error) (key : Key)
    (s : State Req Key Spec Answer Verdict Error) : Prop where
  one : ∀ i j, (s.calls i).InFlight σ key → (s.calls j).InFlight σ key → i = j
  stale : ∀ i, (s.calls i).InFlight σ key → s.table.fresh σ.ttl s.now key = none

theorem step_solo {a : Req} (hinv : SoloInv σ (σ.key a) s) (hsolo : Solo σ a s action)
    (h : step σ s action = some s') : SoloInv σ (σ.key a) s' := by
  -- a call that sends a review finds none in flight, and leaves its own as the only one
  have alone : ∀ i request, action = .lookup i request → σ.key request = σ.key a →
      s.table.fresh σ.ttl s.now (σ.key a) = none →
      ∀ j, (s'.calls j).InFlight σ (σ.key a) → j = i := by
    intro i request haction hkey hstale j hflight
    obtain hbefore | ⟨-, request', haction', -⟩ := (step_call h j).inFlight hflight
    · exact absurd hbefore (hsolo.2 i request haction hkey hstale j)
    · rw [haction] at haction'
      exact (Action.lookup.inj haction').1.symm
  constructor
  · intro i j hi hj
    obtain hi' | ⟨-, request, haction, hkey, hstale⟩ := (step_call h i).inFlight hi
    · obtain hj' | ⟨-, request, haction, hkey, hstale⟩ := (step_call h j).inFlight hj
      · exact hinv.one i j hi' hj'
      · exact alone j request haction hkey hstale i hi
    · exact (alone i request haction hkey hstale j hj).symm
  · intro i hi
    have hstale : s.table.fresh σ.ttl s.now (σ.key a) = none := by
      obtain hbefore | ⟨-, -, -, -, hstale⟩ := (step_call h i).inFlight hi
      · exact hinv.stale i hbefore
      · exact hstale
    obtain hentry | ⟨j, request, review, verdict, rfl, hcall, hkey, -, hreturned⟩ :=
      step_entry h (σ.key a)
    · exact fresh_none_later hstale hentry (step_now h)
    · -- the call that stores was the one in flight, and is not any more
      obtain hbefore | ⟨-, request', haction, -⟩ := (step_call h i).inFlight hi
      · obtain rfl := hinv.one i j hbefore (by rw [hcall]; exact hkey)
        rw [hreturned] at hi
        exact hi.elim
      · contradiction

theorem steps_solo {a : Req} {now : Nat} (h : Steps σ (Solo σ a) (State.init now) s) :
    SoloInv σ (σ.key a) s := by
  induction h with
  | refl => exact ⟨nofun, nofun⟩
  | tail _ hmove ih =>
    obtain ⟨action, hsolo, hstep⟩ := hmove
    exact step_solo ih hsolo hstep

/-- No call for the key is in flight when one returns a verdict. -/
theorem step_returns_solo {a b : Req} (hinv : SoloInv σ (σ.key a) s)
    (h : step σ s action = some s') {i : Nat} (hcaller : action.caller = some i) {verdict : Verdict}
    {time : Nat} (hcall : s'.calls i = .returned b (.ok verdict) time) (hkey : σ.key b = σ.key a)
    (j : Nat) : ¬(s'.calls j).InFlight σ (σ.key a) := by
  intro hj
  obtain ⟨-, hbefore⟩ := step_returns h hcaller hcall
  rw [hkey] at hbefore
  obtain hold | ⟨-, request, haction, hrequest, hstale⟩ := (step_call h j).inFlight hj
  · obtain ⟨v, hfresh⟩ | hi := hbefore
    · rw [hinv.stale j hold] at hfresh
      contradiction
    · obtain rfl := hinv.one i j hi hold
      rw [hcall] at hj
      exact hj
  · -- the step sends a review, so it returns nothing
    obtain rfl : j = i := by
      rw [haction] at hcaller
      exact Option.some.inj hcaller
    rw [hcall] at hj
    exact hj

/-! ### Runs after a verdict -/

/-- A review of `spec` was answered `verdict` to a call in `late`. -/
def Rests (σ : Scheme Req Key Spec Answer Verdict Error) (spec : Spec) (late : Nat → Prop)
    (s : State Req Key Spec Answer Verdict Error) (verdict : Verdict) : Prop :=
  ∃ review ∈ s.reviews, review.spec = spec ∧ σ.judge review.answer = .ok verdict ∧
    late review.caller

/-- What holds from the return of `verdict` for `a` on: the calls in `late` are those that may still
store, and another verdict stored or returned by one of them rests on a review of one of them. -/
structure After (σ : Scheme Req Key Spec Answer Verdict Error) (a : Req) (verdict : Verdict)
    (late : Nat → Prop) (s : State Req Key Spec Answer Verdict Error) : Prop where
  idle : ∀ i, s.calls i = .idle → late i
  inFlight : ∀ i, (s.calls i).InFlight σ (σ.key a) → late i
  entry : ∀ storedAt v, s.table (σ.key a) = some (storedAt, v) →
    v = verdict ∨ Rests σ (σ.spec a) late s v
  returned : ∀ i request v time, late i → s.calls i = .returned request (.ok v) time →
    σ.key request = σ.key a → v = verdict ∨ Rests σ (σ.spec a) late s v

theorem Rests.step {spec : Spec} {late : Nat → Prop} {verdict : Verdict}
    (h : step σ s action = some s') (hrests : Rests σ spec late s verdict) :
    Rests σ spec late s' verdict := by
  obtain ⟨review, hmem, hreview⟩ := hrests
  refine ⟨review, ?_, hreview⟩
  obtain hsame | ⟨newest, hnewest, -⟩ := step_reviews h
  · rwa [hsame]
  · rw [hnewest]
    exact List.mem_cons_of_mem _ hmem

omit [DecidableEq Key] in
/-- A verdict about to be stored rests on the review of its own call. -/
theorem Inv.rests {a request : Req} {late : Nat → Prop} (hinv : Inv σ (sharing σ a) s) {i : Nat}
    {review : Review Spec Answer} {verdict : Verdict}
    (hcall : s.calls i = .storing request review verdict) (hkey : σ.key request = σ.key a)
    (hlate : late i) : Rests σ (σ.spec a) late s verdict := by
  obtain ⟨hshared, hmem, hspec, hjudge, rfl, -⟩ := hinv.storing i request review verdict hcall
  exact ⟨review, hmem, hspec.trans (hshared hkey), hjudge, hlate⟩

theorem step_after {a : Req} {verdict : Verdict} {late : Nat → Prop}
    (hinv : Inv σ (sharing σ a) s) (hafter : After σ a verdict late s)
    (h : step σ s action = some s') : After σ a verdict late s' := by
  constructor
  · intro i hidle
    exact hafter.idle i ((step_call h i).idle hidle)
  · intro i hflight
    obtain hbefore | ⟨hidle, -⟩ := (step_call h i).inFlight hflight
    · exact hafter.inFlight i hbefore
    · exact hafter.idle i hidle
  · intro storedAt v hentry
    obtain hsame | ⟨i, request, review, v', -, hcall, hkey, hnew, -⟩ := step_entry h (σ.key a)
    · rw [hsame] at hentry
      exact (hafter.entry storedAt v hentry).imp id (Rests.step h)
    · rw [hnew] at hentry
      obtain rfl : v' = v := (Prod.mk.inj (Option.some.inj hentry)).2
      have hlate : late i := hafter.inFlight i (by rw [hcall]; exact hkey)
      exact Or.inr ((hinv.rests hcall hkey hlate).step h)
  · intro i request v time hlate hreturned hkey
    have hcall := step_call h i
    rw [hreturned] at hcall
    generalize hresult : Call.returned request (Except.ok v) time = call at hcall
    cases hcall with
    | stay =>
      exact (hafter.returned i request v time hlate hresult.symm hkey).imp id (Rests.step h)
    | hit hidle hfresh =>
      obtain ⟨rfl, hverdict, -⟩ := Call.returned.inj hresult
      obtain rfl := Except.ok.inj hverdict
      obtain ⟨storedAt, hentry, -⟩ := Table.fresh_eq_some hfresh
      rw [hkey] at hentry
      exact (hafter.entry storedAt v hentry).imp id (Rests.step h)
    | send | judged => contradiction
    | failed => exact nomatch (Call.returned.inj hresult).2.1
    | stored hbefore =>
      obtain ⟨rfl, hverdict, -⟩ := Call.returned.inj hresult
      obtain rfl := Except.ok.inj hverdict
      exact Or.inr ((hinv.rests hbefore hkey hlate).step h)

theorem steps_after {a : Req} {verdict : Verdict} {late : Nat → Prop}
    (hP : ∀ s action, P s action → action.Within (sharing σ a)) (hinv : Inv σ (sharing σ a) s)
    (hafter : After σ a verdict late s) (h : Steps σ P s s') : After σ a verdict late s' := by
  induction h with
  | refl => exact hafter
  | tail hsteps hmove ih =>
    obtain ⟨action, -, hstep⟩ := hmove
    exact step_after (steps_inv hP hinv hsteps) ih hstep

/-! ### The order of stores and returns -/

theorem steps_storing {now : Nat} (h : Steps σ P (State.init now) s) {i : Nat} {request : Req}
    {review : Review Spec Answer} {verdict : Verdict}
    (hcall : s.calls i = .storing request review verdict) : review.caller = i := by
  have hinv : Inv σ Set.univ s := by
    apply steps_inv _ (Inv.init _ now) h
    intro s action _
    cases action <;> trivial
  obtain ⟨-, -, -, -, hcaller, -⟩ := hinv.storing i request review verdict hcall
  exact hcaller

/-- A verdict that was answered by `s` and is stored later belongs to a call in flight at `s`. -/
theorem steps_held {now : Nat} (hinit : Steps σ P (State.init now) s) (h : Steps σ P s s')
    {i : Nat} {request : Req} {review : Review Spec Answer} {verdict : Verdict}
    (hcall : s'.calls i = .storing request review verdict) (hmem : review ∈ s.reviews) :
    (s.calls i).InFlight σ (σ.key request) ∧ ¬(s.calls i).Unanswered := by
  obtain rfl := steps_storing (hinit.trans h) hcall
  have hanswered := steps_answered hinit review hmem
  have hflight : (s'.calls review.caller).InFlight σ (σ.key request) := by
    rw [hcall]
    exact rfl
  obtain hidle | hbefore := steps_inFlight h hflight
  · rw [hidle] at hanswered
    exact absurd trivial hanswered
  · exact ⟨hbefore, hanswered⟩

theorem storesInOrder (now : Nat) (a : Req) : StoresInOrder σ now P a (·.InFlight σ (σ.key a)) := by
  intro s s1 s2 s3 s4 i j b c sentAt review verdict hinit _ hs1 hstore hs3 hcall _ _ hkey hmem
  have h : Steps σ P s s3 := hs1.trans (.head ⟨_, hstore⟩ hs3)
  rw [← hkey]
  exact (steps_held hinit h hcall hmem).1

theorem storesInOrder_solo (now : Nat) (a : Req) :
    StoresInOrder σ now (Solo σ a) a fun _ => False := by
  intro s s1 s2 s3 s4 i j b c sentAt review verdict hinit hwaits hs1 hstore hs3 hcall _ hb hc hmem
  have h : Steps σ (Solo σ a) s s3 := hs1.trans (.head ⟨_, hstore⟩ hs3)
  obtain ⟨hi, hanswered⟩ := steps_held hinit h hcall hmem
  rw [hc] at hi
  have hj : (s.calls j).InFlight σ (σ.key a) := by
    rw [hwaits]
    exact hb
  -- both calls are in flight at `s`, but one waits for its answer and the other has it
  obtain rfl := (steps_solo hinit).one i j hi hj
  rw [hwaits] at hanswered
  exact hanswered trivial

/-- A later call returns the same verdict, or one that rests on a review of a `late` call, where the
late calls are those that may still store when the first call returns. -/
theorem verdictsHold {now : Nat} {a : Req} {late : Call Req Spec Answer Verdict Error → Prop}
    (hP : ∀ s action, P s action → action.Within (sharing σ a)) (hidle : late .idle)
    (hreturned : ∀ request result time, ¬late (.returned request result time))
    (hlate : ∀ s s1 action i b v t, Steps σ P (State.init now) s → Moves σ P s action s1 →
      action.caller = some i → s1.calls i = .returned b (.ok v) t → σ.key b = σ.key a →
      ∀ j, (s1.calls j).InFlight σ (σ.key a) → late (s1.calls j)) :
    VerdictsHold σ now P a late := by
  intro s s1 s2 action i j b c v w t t' hinit hmove hcaller hfirst hj hs2 hsecond hb hc hne
  obtain ⟨⟨storedAt, hentry⟩, -⟩ := step_returns hmove.2 hcaller hfirst
  rw [hb] at hentry
  have hinv : Inv σ (sharing σ a) s1 :=
    steps_inv hP (Inv.init _ now) (Relation.ReflTransGen.tail hinit ⟨action, hmove⟩)
  have hafter : After σ a v (fun k => late (s1.calls k)) s1 := by
    constructor
    · intro k hk
      rw [hk]
      exact hidle
    · exact hlate s s1 action i b v t hinit hmove hcaller hfirst hb
    · intro storedAt' v' hentry'
      rw [hentry] at hentry'
      exact Or.inl (Prod.mk.inj (Option.some.inj hentry')).2.symm
    · intro k request v' time hk hreturn
      rw [hreturn] at hk
      exact absurd hk (hreturned request _ time)
  have hj' : late (s1.calls j) := by
    rw [hj]
    exact hidle
  have hend := (steps_after hP hinv hafter hs2).returned j c w t' hj' hsecond hc
  exact hend.resolve_left hne

theorem ordered (now : Nat) (a : Req) : Ordered σ now a where
  stores := storesInOrder now a
  verdicts := by
    apply verdictsHold (fun _ _ h => h) (Or.inl rfl)
    · rintro request result time (h | h)
      · contradiction
      · exact h
    · intro s s1 action i b v t _ _ _ _ _ j hj
      exact Or.inr hj
  soloStores := storesInOrder_solo now a
  soloVerdicts := by
    refine verdictsHold (fun _ _ h => h.1) rfl ?_ ?_
    · intro request result time h
      contradiction
    · intro s s1 action i b v t hinit hmove hcaller hcall hkey j hj
      exact absurd hj (step_returns_solo (steps_solo hinit) hmove.2 hcaller hcall hkey j)

/-! ### A stale verdict -/

omit [DecidableEq Key] in
theorem mem_sharing_self (a : Req) : a ∈ sharing σ a := fun _ => rfl

/-- Call 0 receives its answer.  Call 1 then sends a review, stores its verdict, and returns it.
Call 0 stores the older verdict, and call 2 is served it. -/
theorem run_overtaken (now : Nat) (a : Req) {x y : Answer} {v w : Verdict}
    (hx : σ.judge x = .ok v) (hy : σ.judge y = .ok w) (httl : 0 < σ.ttl) :
    ∃ s s1 s2 s3 s4 s5 : State Req Key Spec Answer Verdict Error,
      run σ (State.init now) [.lookup 0 a, .answer 0 x, .tick 1] = some s ∧
      step σ s (.lookup 1 a) = some s1 ∧ run σ s1 [.answer 1 y] = some s2 ∧
      step σ s2 (.store 1) = some s3 ∧ step σ s3 (.store 0) = some s4 ∧
      run σ s4 [.lookup 2 a] = some s5 ∧
      s1.calls 1 = .reviewing a (now + 1) ∧
      s3.calls 0 = .storing a ⟨0, σ.spec a, x, now, now⟩ v ∧
      s3.calls 1 = .returned a (.ok w) (now + 1) ∧ s3.calls 2 = .idle ∧
      s5.calls 2 = .returned a (.ok v) (now + 1) ∧
      s1.reviews = [⟨0, σ.spec a, x, now, now⟩] ∧
      s5.reviews = [⟨1, σ.spec a, y, now + 1, now + 1⟩, ⟨0, σ.spec a, x, now, now⟩] := by
  simp [runFrom, step, State.init, State.setCall, Table.fresh, Table.insert, hx, hy, httl,
    Function.update]

/-- Where two answers are judged differently, a stale verdict is stored and served in some run. -/
theorem overtaken (now : Nat) (a : Req) {x y : Answer} {v w : Verdict} (hx : σ.judge x = .ok v)
    (hy : σ.judge y = .ok w) (httl : 0 < σ.ttl) (hne : v ≠ w) :
    ¬StoresInOrder σ now (Any σ a) a (fun _ => False) ∧
      ¬VerdictsHold σ now (Any σ a) a Call.Unanswered := by
  obtain ⟨s, s1, s2, s3, s4, s5, hs, hs1, hs2, hs3, hs4, hs5, hsent, hheld, hdenied, hidle, hserved,
    hreviews, hreviews5⟩ := run_overtaken now a hx hy httl
  have ha : a ∈ sharing σ a := mem_sharing_self a
  have hinit : Steps σ (Any σ a) (State.init now) s :=
    steps_of_run (by simp [Action.Within, ha]) hs
  have hsending : Steps σ (Any σ a) (State.init now) s1 := hinit.tail ⟨.lookup 1 a, ha, hs1⟩
  have hanswered : Steps σ (Any σ a) s1 s2 := steps_of_run (by simp [Action.Within]) hs2
  constructor
  · intro hinOrder
    refine hinOrder s1 s2 s3 s3 s4 0 1 a a (now + 1) _ v hsending hsent hanswered ⟨trivial, hs3⟩
      .refl hheld ⟨trivial, hs4⟩ rfl rfl ?_
    rw [hreviews]
    exact List.mem_cons_self
  · intro hhold
    have hbefore : Steps σ (Any σ a) (State.init now) s2 := hsending.trans hanswered
    have hafter : Steps σ (Any σ a) s3 s5 := by
      refine .head ⟨.store 0, trivial, hs4⟩ (steps_of_run ?_ hs5)
      simp [Action.Within, ha]
    obtain ⟨review, hmem, -, -, hlate⟩ := hhold s2 s3 s5 (.store 1) 1 2 a a w v _ _ hbefore
      ⟨trivial, hs3⟩ rfl hdenied hidle hafter hserved rfl rfl hne
    -- both reviews were answered before the return
    rw [hreviews5, List.mem_cons, List.mem_singleton] at hmem
    obtain rfl | rfl := hmem
    · rw [hdenied] at hlate
      exact hlate
    · rw [hheld] at hlate
      exact hlate

end Order

end Library.ReviewCache
