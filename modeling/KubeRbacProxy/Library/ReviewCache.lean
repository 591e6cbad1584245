import Mathlib.Data.Set.Basic
import Mathlib.Logic.Function.Basic
import KubeRbacProxy.Library.Run

/-! A cache of verdicts in front of a reviewer, shared by any number of concurrent callers.  A call
looks its request up under a key; on a miss it sends the reviewer a review, and stores the verdict
of the answer under the same key before it returns.  The lookup, the answer, and the store are
separate steps, so the steps of different calls interleave.  A verdict is served for `ttl` time
units.

The table keeps no trace of what was reviewed.  The state does, in `reviews` and `stored`, which no
step reads: `Sound` compares each verdict returned with the reviews made, and `sound_iff` says that
it holds in every run over a set of requests exactly when equal keys mean equal reviews there. -/

namespace Library.ReviewCache

/-- How requests are keyed and reviewed, how an answer is judged, and how long its verdict is
served. -/
structure Scheme (Req Key Spec Answer Verdict Error : Type) where
  key : Req → Key
  spec : Req → Spec
  judge : Answer → Except Error Verdict
  ttl : Nat

abbrev Table (Key Verdict : Type) := Key → Option (Nat × Verdict)

def Table.fresh {Key Verdict : Type} (table : Table Key Verdict) (ttl now : Nat) (key : Key) :
    Option Verdict :=
  match table key with
  | some (time, verdict) => if now - time < ttl then some verdict else none
  | none => none

def Table.insert {Key Verdict : Type} [DecidableEq Key] (table : Table Key Verdict) (key : Key)
    (now : Nat) (verdict : Verdict) : Table Key Verdict :=
  Function.update table key (some (now, verdict))

theorem Table.fresh_eq_some {Key Verdict : Type} {table : Table Key Verdict} {ttl now : Nat}
    {key : Key} {verdict : Verdict} (h : table.fresh ttl now key = some verdict) :
    ∃ time, table key = some (time, verdict) ∧ now - time < ttl := by
  unfold Table.fresh at h
  split at h
  · rename_i time v hentry
    split at h
    · rename_i hage
      exact ⟨time, by rw [hentry, Option.some.inj h], hage⟩
    · contradiction
  · contradiction

theorem Table.insert_eq_some {Key Verdict : Type} [DecidableEq Key] {table : Table Key Verdict}
    {key k : Key} {now time : Nat} {verdict v : Verdict}
    (h : table.insert key now verdict k = some (time, v)) :
    (k = key ∧ time = now ∧ v = verdict) ∨ table k = some (time, v) := by
  by_cases hk : k = key
  · subst hk
    rw [Table.insert, Function.update_self, Option.some.injEq, Prod.mk.injEq] at h
    exact Or.inl ⟨rfl, h.1.symm, h.2.symm⟩
  · rw [Table.insert, Function.update_of_ne hk] at h
    exact Or.inr h

/-- A review that was answered: the call it was made by, what was reviewed, and the answer. -/
structure Review (Spec Answer : Type) where
  caller : Nat
  spec : Spec
  answer : Answer
  sentAt : Nat
  answeredAt : Nat

inductive Call (Req Spec Answer Verdict Error : Type) where
  | idle
  | reviewing (request : Req) (sentAt : Nat)
  | storing (request : Req) (review : Review Spec Answer) (verdict : Verdict)
  | returned (request : Req) (result : Except Error Verdict) (time : Nat)

/-- The clock, the table, the calls by number, and the record of the reviews answered and of those
whose verdict was stored. -/
structure State (Req Key Spec Answer Verdict Error : Type) where
  now : Nat
  table : Table Key Verdict
  calls : Nat → Call Req Spec Answer Verdict Error
  reviews : List (Review Spec Answer)
  stored : List (Nat × Review Spec Answer)

/-- A step: time passes, or a call looks its request up, receives an answer, or stores a verdict. -/
inductive Action (Req Answer : Type) where
  | tick (time : Nat)
  | lookup (caller : Nat) (request : Req)
  | answer (caller : Nat) (answer : Answer)
  | store (caller : Nat)

def Action.caller {Req Answer : Type} : Action Req Answer → Option Nat
  | .tick _ => none
  | .lookup i _ | .answer i _ | .store i => some i

section Steps

variable {Req Key Spec Answer Verdict Error : Type} [DecidableEq Key]

def State.init (now : Nat) : State Req Key Spec Answer Verdict Error where
  now := now
  table _ := none
  calls _ := .idle
  reviews := []
  stored := []

def State.setCall (s : State Req Key Spec Answer Verdict Error) (i : Nat)
    (call : Call Req Spec Answer Verdict Error) : State Req Key Spec Answer Verdict Error :=
  { s with calls := Function.update s.calls i call }

omit [DecidableEq Key] in
theorem State.setCall_self (s : State Req Key Spec Answer Verdict Error) (i : Nat)
    (call : Call Req Spec Answer Verdict Error) : (s.setCall i call).calls i = call :=
  Function.update_self ..

omit [DecidableEq Key] in
theorem State.setCall_other (s : State Req Key Spec Answer Verdict Error) {i j : Nat} (h : j ≠ i)
    (call : Call Req Spec Answer Verdict Error) : (s.setCall i call).calls j = s.calls j :=
  Function.update_of_ne h ..

variable (σ : Scheme Req Key Spec Answer Verdict Error)

/-- The state after a step, or none where the call is not at that step. -/
def step (s : State Req Key Spec Answer Verdict Error) :
    Action Req Answer → Option (State Req Key Spec Answer Verdict Error)
  | .tick time => some { s with now := s.now + time }
  | .lookup i request =>
    match s.calls i with
    | .idle =>
      match s.table.fresh σ.ttl s.now (σ.key request) with
      | some verdict => some (s.setCall i (.returned request (.ok verdict) s.now))
      | none => some (s.setCall i (.reviewing request s.now))
    | _ => none
  | .answer i answer =>
    match s.calls i with
    | .reviewing request sentAt =>
      let review := ⟨i, σ.spec request, answer, sentAt, s.now⟩
      match σ.judge answer with
      | .ok verdict => some { s.setCall i (.storing request review verdict) with
          reviews := review :: s.reviews }
      | .error error => some { s.setCall i (.returned request (.error error) s.now) with
          reviews := review :: s.reviews }
    | _ => none
  | .store i =>
    match s.calls i with
    | .storing request review verdict => some { s.setCall i (.returned request (.ok verdict) s.now)
        with
          table := s.table.insert (σ.key request) s.now verdict
          stored := (s.now, review) :: s.stored }
    | _ => none

abbrev run (s : State Req Key Spec Answer Verdict Error) (actions : List (Action Req Answer)) :
    Option (State Req Key Spec Answer Verdict Error) :=
  runFrom (step σ) s actions

variable {σ} {s s' : State Req Key Spec Answer Verdict Error}

/-! ### What each step does -/

theorem step_lookup {i : Nat} {request : Req} (h : step σ s (.lookup i request) = some s') :
    s.calls i = .idle ∧
      ((∃ verdict, s.table.fresh σ.ttl s.now (σ.key request) = some verdict ∧
        s' = s.setCall i (.returned request (.ok verdict) s.now)) ∨
      (s.table.fresh σ.ttl s.now (σ.key request) = none ∧
        s' = s.setCall i (.reviewing request s.now))) := by
  unfold step at h
  dsimp only at h
  split at h
  · rename_i hidle
    refine ⟨hidle, ?_⟩
    split at h
    · rename_i verdict hfresh
      exact Or.inl ⟨verdict, hfresh, (Option.some.inj h).symm⟩
    · rename_i hstale
      exact Or.inr ⟨hstale, (Option.some.inj h).symm⟩
  · contradiction

theorem step_answer {i : Nat} {answer : Answer} (h : step σ s (.answer i answer) = some s') :
    ∃ request sentAt, s.calls i = .reviewing request sentAt ∧
      ((∃ verdict, σ.judge answer = .ok verdict ∧
        s' = { s.setCall i (.storing request ⟨i, σ.spec request, answer, sentAt, s.now⟩ verdict)
          with reviews := ⟨i, σ.spec request, answer, sentAt, s.now⟩ :: s.reviews }) ∨
      (∃ error, σ.judge answer = .error error ∧
        s' = { s.setCall i (.returned request (.error error) s.now)
          with reviews := ⟨i, σ.spec request, answer, sentAt, s.now⟩ :: s.reviews })) := by
  unfold step at h
  dsimp only at h
  split at h
  · rename_i request sentAt hcall
    refine ⟨request, sentAt, hcall, ?_⟩
    split at h
    · rename_i verdict hjudge
      exact Or.inl ⟨verdict, hjudge, (Option.some.inj h).symm⟩
    · rename_i error hjudge
      exact Or.inr ⟨error, hjudge, (Option.some.inj h).symm⟩
  · contradiction

theorem step_store {i : Nat} (h : step σ s (.store i) = some s') :
    ∃ request review verdict, s.calls i = .storing request review verdict ∧
      s' = { s.setCall i (.returned request (.ok verdict) s.now) with
        table := s.table.insert (σ.key request) s.now verdict
        stored := (s.now, review) :: s.stored } := by
  unfold step at h
  dsimp only at h
  split at h
  · rename_i request review verdict hcall
    exact ⟨request, review, verdict, hcall, (Option.some.inj h).symm⟩
  · contradiction

theorem step_answer_error {i : Nat} {request : Req} {sentAt : Nat} {answer : Answer} {error : Error}
    (hcall : s.calls i = .reviewing request sentAt) (hjudge : σ.judge answer = .error error) :
    ∃ s', step σ s (.answer i answer) = some s' ∧
      s'.calls i = .returned request (.error error) s.now ∧ s'.table = s.table := by
  refine ⟨{ s.setCall i (.returned request (.error error) s.now) with
    reviews := ⟨i, σ.spec request, answer, sentAt, s.now⟩ :: s.reviews }, ?_, ?_, rfl⟩
  · simp only [step, hcall, hjudge]
  · exact s.setCall_self i _

/-- What a step from `s` makes of call `i`. -/
inductive CallStep (σ : Scheme Req Key Spec Answer Verdict Error)
    (s : State Req Key Spec Answer Verdict Error) (i : Nat) :
    Action Req Answer → Call Req Spec Answer Verdict Error → Prop
  | stay {action : Action Req Answer} : CallStep σ s i action (s.calls i)
  | hit {request : Req} {verdict : Verdict} (hidle : s.calls i = .idle)
      (hfresh : s.table.fresh σ.ttl s.now (σ.key request) = some verdict) :
      CallStep σ s i (.lookup i request) (.returned request (.ok verdict) s.now)
  | send {request : Req} (hidle : s.calls i = .idle)
      (hstale : s.table.fresh σ.ttl s.now (σ.key request) = none) :
      CallStep σ s i (.lookup i request) (.reviewing request s.now)
  | judged {request : Req} {sentAt : Nat} {answer : Answer} {verdict : Verdict}
      (hcall : s.calls i = .reviewing request sentAt) (hjudge : σ.judge answer = .ok verdict) :
      CallStep σ s i (.answer i answer)
        (.storing request ⟨i, σ.spec request, answer, sentAt, s.now⟩ verdict)
  | failed {request : Req} {sentAt : Nat} {answer : Answer} {error : Error}
      (hcall : s.calls i = .reviewing request sentAt) (hjudge : σ.judge answer = .error error) :
      CallStep σ s i (.answer i answer) (.returned request (.error error) s.now)
  | stored {request : Req} {review : Review Spec Answer} {verdict : Verdict}
      (hcall : s.calls i = .storing request review verdict) :
      CallStep σ s i (.store i) (.returned request (.ok verdict) s.now)

omit [DecidableEq Key] in
theorem CallStep.setCall {action : Action Req Answer} {i : Nat}
    {call : Call Req Spec Answer Verdict Error} (h : CallStep σ s i action call) (j : Nat) :
    CallStep σ s j action ((s.setCall i call).calls j) := by
  by_cases hij : j = i
  · subst hij
    rw [s.setCall_self]
    exact h
  · rw [s.setCall_other hij]
    exact .stay

theorem step_call {action : Action Req Answer} (h : step σ s action = some s') (j : Nat) :
    CallStep σ s j action (s'.calls j) := by
  cases action with
  | tick time =>
    obtain rfl := Option.some.inj h
    exact .stay
  | lookup i request =>
    obtain ⟨hidle, ⟨verdict, hfresh, rfl⟩ | ⟨hstale, rfl⟩⟩ := step_lookup h
    · exact (CallStep.hit hidle hfresh).setCall j
    · exact (CallStep.send hidle hstale).setCall j
  | answer i answer =>
    obtain ⟨request, sentAt, hcall, ⟨verdict, hjudge, rfl⟩ | ⟨error, hjudge, rfl⟩⟩ :=
      step_answer h
    · exact (CallStep.judged hcall hjudge).setCall j
    · exact (CallStep.failed hcall hjudge).setCall j
  | store i =>
    obtain ⟨request, review, verdict, hcall, rfl⟩ := step_store h
    exact (CallStep.stored hcall).setCall j

theorem step_returned {action : Action Req Answer} (h : step σ s action = some s') {i : Nat}
    {request : Req} {result : Except Error Verdict} {time : Nat}
    (hcall : s.calls i = .returned request result time) :
    s'.calls i = .returned request result time := by
  have hi := step_call h i
  generalize s'.calls i = call at hi
  cases hi with
  | stay => exact hcall
  | hit hbefore | send hbefore | judged hbefore | failed hbefore | stored hbefore =>
    rw [hbefore] at hcall
    contradiction

theorem step_table {action : Action Req Answer} (h : step σ s action = some s') :
    s'.table = s.table ∨ ∃ i request review verdict, action = .store i ∧
      s.calls i = .storing request review verdict ∧
      s'.table = s.table.insert (σ.key request) s.now verdict ∧
      s'.calls i = .returned request (.ok verdict) s.now := by
  cases action with
  | tick time =>
    obtain rfl := Option.some.inj h
    exact Or.inl rfl
  | lookup j request =>
    obtain ⟨-, ⟨verdict, -, rfl⟩ | ⟨-, rfl⟩⟩ := step_lookup h <;> exact Or.inl rfl
  | answer j answer =>
    obtain ⟨request, sentAt, -, ⟨verdict, -, rfl⟩ | ⟨error, -, rfl⟩⟩ := step_answer h <;>
      exact Or.inl rfl
  | store j =>
    obtain ⟨request, review, verdict, hcall, rfl⟩ := step_store h
    exact Or.inr ⟨j, request, review, verdict, rfl, hcall, rfl, s.setCall_self j _⟩

theorem run_returned {actions : List (Action Req Answer)} (h : run σ s actions = some s') {i : Nat}
    {request : Req} {result : Except Error Verdict} {time : Nat}
    (hcall : s.calls i = .returned request result time) :
    s'.calls i = .returned request result time := by
  induction actions generalizing s with
  | nil =>
    obtain rfl := Option.some.inj h
    exact hcall
  | cons action actions ih =>
    obtain ⟨s1, hstep, hrest⟩ := Option.bind_eq_some_iff.mp h
    exact ih hrest (step_returned hstep hcall)

/-! ### What a returned verdict rests on -/

variable (σ) in
/-- A review of `spec` gave `verdict` by `time`, and it was made by `caller` or its verdict was
stored less than `ttl` before `time`. -/
def Justified (s : State Req Key Spec Answer Verdict Error) (spec : Spec) (caller : Nat)
    (verdict : Verdict) (time : Nat) : Prop :=
  ∃ review ∈ s.reviews, review.spec = spec ∧ σ.judge review.answer = .ok verdict ∧
    review.answeredAt ≤ time ∧ (review.caller = caller ∨
      ∃ storedAt, (storedAt, review) ∈ s.stored ∧ storedAt ≤ time ∧ time - storedAt < σ.ttl)

variable (σ) in
/-- Every verdict returned rests on a review of what its own request asks for. -/
def Sound (s : State Req Key Spec Answer Verdict Error) : Prop :=
  ∀ i request verdict time, s.calls i = .returned request (.ok verdict) time →
    Justified σ s (σ.spec request) i verdict time

omit [DecidableEq Key] in
theorem Justified.mono {spec : Spec} {caller : Nat} {verdict : Verdict} {time : Nat}
    (h : Justified σ s spec caller verdict time) (hreviews : s.reviews ⊆ s'.reviews)
    (hstored : s.stored ⊆ s'.stored) : Justified σ s' spec caller verdict time := by
  obtain ⟨review, hmem, hspec, hjudge, hby, horigin⟩ := h
  refine ⟨review, hreviews hmem, hspec, hjudge, hby, ?_⟩
  exact horigin.imp id fun ⟨storedAt, hrecord, hage⟩ => ⟨storedAt, hstored hrecord, hage⟩

def Action.Within (A : Set Req) : Action Req Answer → Prop
  | .lookup _ request => request ∈ A
  | _ => True

variable (σ) in
/-- What holds after every run over requests in `A`: the table, and every verdict on its way there
or returned, come from recorded reviews of requests in `A` with the same key. -/
structure Inv (A : Set Req) (s : State Req Key Spec Answer Verdict Error) : Prop where
  table : ∀ key storedAt verdict, s.table key = some (storedAt, verdict) →
    ∃ request ∈ A, σ.key request = key ∧ ∃ review ∈ s.reviews, review.spec = σ.spec request ∧
      σ.judge review.answer = .ok verdict ∧ (storedAt, review) ∈ s.stored ∧
      review.answeredAt ≤ storedAt ∧ storedAt ≤ s.now
  reviewing : ∀ i request sentAt, s.calls i = .reviewing request sentAt → request ∈ A
  storing : ∀ i request review verdict, s.calls i = .storing request review verdict →
    request ∈ A ∧ review ∈ s.reviews ∧ review.spec = σ.spec request ∧
      σ.judge review.answer = .ok verdict ∧ review.caller = i ∧ review.answeredAt ≤ s.now
  returned : ∀ i request verdict time, s.calls i = .returned request (.ok verdict) time →
    request ∈ A ∧ ∃ request' ∈ A, σ.key request' = σ.key request ∧
      Justified σ s (σ.spec request') i verdict time

omit [DecidableEq Key] in
theorem Inv.init (A : Set Req) (now : Nat) :
    Inv σ A (State.init now : State Req Key Spec Answer Verdict Error) where
  table _ _ _ h := nomatch h
  reviewing _ _ _ h := nomatch h
  storing _ _ _ _ h := nomatch h
  returned _ _ _ _ h := nomatch h

omit [DecidableEq Key] in
theorem Inv.grow {A : Set Req} {now : Nat} {reviews : List (Review Spec Answer)}
    {stored : List (Nat × Review Spec Answer)} (hinv : Inv σ A s) (hnow : s.now ≤ now)
    (hreviews : s.reviews ⊆ reviews) (hstored : s.stored ⊆ stored) :
    Inv σ A { s with now := now, reviews := reviews, stored := stored } := by
  constructor
  · intro key storedAt verdict hentry
    obtain ⟨request, hA, hkey, review, hmem, hspec, hjudge, hrecord, hby, hle⟩ :=
      hinv.table key storedAt verdict hentry
    exact ⟨request, hA, hkey, review, hreviews hmem, hspec, hjudge, hstored hrecord, hby,
      hle.trans hnow⟩
  · exact hinv.reviewing
  · intro i request review verdict hcall
    obtain ⟨hA, hmem, hspec, hjudge, hcaller, hle⟩ := hinv.storing i request review verdict hcall
    exact ⟨hA, hreviews hmem, hspec, hjudge, hcaller, hle.trans hnow⟩
  · intro i request verdict time hcall
    obtain ⟨hA, request', hA', hkey, hjust⟩ := hinv.returned i request verdict time hcall
    exact ⟨hA, request', hA', hkey, hjust.mono hreviews hstored⟩

omit [DecidableEq Key] in
/-- Moving call `i` to `call` keeps the invariant when `call` satisfies it. -/
theorem Inv.setCall {A : Set Req} {i : Nat} {call : Call Req Spec Answer Verdict Error}
    (hinv : Inv σ A s)
    (hreviewing : ∀ request sentAt, call = .reviewing request sentAt → request ∈ A)
    (hstoring : ∀ request review verdict, call = .storing request review verdict →
      request ∈ A ∧ review ∈ s.reviews ∧ review.spec = σ.spec request ∧
        σ.judge review.answer = .ok verdict ∧ review.caller = i ∧ review.answeredAt ≤ s.now)
    (hreturned : ∀ request verdict time, call = .returned request (.ok verdict) time →
      request ∈ A ∧ ∃ request' ∈ A, σ.key request' = σ.key request ∧
        Justified σ s (σ.spec request') i verdict time) :
    Inv σ A (s.setCall i call) := by
  have split : ∀ {j : Nat} {c}, (s.setCall i call).calls j = c →
      (j = i ∧ call = c) ∨ s.calls j = c := by
    intro j c hj
    by_cases hji : j = i
    · subst hji
      exact Or.inl ⟨rfl, (s.setCall_self j call).symm.trans hj⟩
    · exact Or.inr ((s.setCall_other hji call).symm.trans hj)
  constructor
  · exact hinv.table
  · intro j request sentAt hj
    obtain ⟨-, hcall⟩ | hold := split hj
    · exact hreviewing request sentAt hcall
    · exact hinv.reviewing j request sentAt hold
  · intro j request review verdict hj
    obtain ⟨rfl, hcall⟩ | hold := split hj
    · exact hstoring request review verdict hcall
    · exact hinv.storing j request review verdict hold
  · intro j request verdict time hj
    obtain ⟨rfl, hcall⟩ | hold := split hj
    · exact hreturned request verdict time hcall
    · exact hinv.returned j request verdict time hold

/-- Storing the verdict of a recorded review keeps the invariant. -/
theorem Inv.insert {A : Set Req} {request : Req} {review : Review Spec Answer} {verdict : Verdict}
    (hinv : Inv σ A s) (hA : request ∈ A) (hmem : review ∈ s.reviews)
    (hspec : review.spec = σ.spec request) (hjudge : σ.judge review.answer = .ok verdict)
    (hstored : (s.now, review) ∈ s.stored) (hby : review.answeredAt ≤ s.now) :
    Inv σ A { s with table := s.table.insert (σ.key request) s.now verdict } := by
  refine ⟨?_, hinv.reviewing, hinv.storing, hinv.returned⟩
  intro key storedAt verdict' hentry
  obtain ⟨rfl, rfl, rfl⟩ | hold := Table.insert_eq_some hentry
  · exact ⟨request, hA, rfl, review, hmem, hspec, hjudge, hstored, hby, le_rfl⟩
  · exact hinv.table key storedAt verdict' hold

theorem step_inv {A : Set Req} {action : Action Req Answer} (hinv : Inv σ A s)
    (hwithin : action.Within A) (h : step σ s action = some s') : Inv σ A s' := by
  cases action with
  | tick time =>
    obtain rfl := Option.some.inj h
    exact hinv.grow (Nat.le_add_right _ _) (List.Subset.refl _) (List.Subset.refl _)
  | lookup i request =>
    obtain ⟨-, ⟨verdict, hfresh, rfl⟩ | ⟨-, rfl⟩⟩ := step_lookup h
    · -- a hit: the entry carries the review that the verdict rests on
      refine hinv.setCall nofun nofun ?_
      intro request'' verdict' time heq
      obtain ⟨rfl, hverdict, rfl⟩ := Call.returned.inj heq
      obtain rfl := Except.ok.inj hverdict
      obtain ⟨storedAt, hentry, hage⟩ := Table.fresh_eq_some hfresh
      obtain ⟨request', hA', hkey, review, hmem, hspec, hjudge, hstored, hby, hnow⟩ :=
        hinv.table _ storedAt verdict hentry
      exact ⟨hwithin, request', hA', hkey, review, hmem, hspec, hjudge, hby.trans hnow,
        Or.inr ⟨storedAt, hstored, hnow, hage⟩⟩
    · refine hinv.setCall ?_ nofun nofun
      intro request' sentAt heq
      obtain ⟨rfl, -⟩ := Call.reviewing.inj heq
      exact hwithin
  | answer i answer =>
    obtain ⟨request, sentAt, hcall, hanswer⟩ := step_answer h
    have hrecorded : Inv σ A { s with
        reviews := ⟨i, σ.spec request, answer, sentAt, s.now⟩ :: s.reviews } :=
      hinv.grow le_rfl (List.subset_cons_self _ _) (List.Subset.refl _)
    obtain ⟨verdict, hjudge, rfl⟩ | ⟨error, -, rfl⟩ := hanswer
    · refine hrecorded.setCall nofun ?_ nofun
      intro request' review verdict' heq
      obtain ⟨rfl, rfl, rfl⟩ := Call.storing.inj heq
      exact ⟨hinv.reviewing i request sentAt hcall, List.mem_cons_self, rfl, hjudge, rfl, le_rfl⟩
    · exact hrecorded.setCall nofun nofun nofun
  | store i =>
    obtain ⟨request, review, verdict, hcall, rfl⟩ := step_store h
    obtain ⟨hA, hmem, hspec, hjudge, hcaller, hnow⟩ := hinv.storing i request review verdict hcall
    have hreturned : Inv σ A (s.setCall i (.returned request (.ok verdict) s.now)) := by
      refine hinv.setCall nofun nofun ?_
      intro request' verdict' time heq
      obtain ⟨rfl, hverdict, rfl⟩ := Call.returned.inj heq
      obtain rfl := Except.ok.inj hverdict
      exact ⟨hA, request, hA, rfl, review, hmem, hspec, hjudge, hnow, Or.inl hcaller⟩
    have hrecorded : Inv σ A { s.setCall i (.returned request (.ok verdict) s.now) with
        stored := (s.now, review) :: s.stored } :=
      hreturned.grow le_rfl (List.Subset.refl _) (List.subset_cons_self _ _)
    exact hrecorded.insert hA hmem hspec hjudge List.mem_cons_self hnow

theorem run_inv {A : Set Req} {actions : List (Action Req Answer)} (hinv : Inv σ A s)
    (hwithin : ∀ action ∈ actions, action.Within A) (h : run σ s actions = some s') :
    Inv σ A s' := by
  induction actions generalizing s with
  | nil =>
    obtain rfl := Option.some.inj h
    exact hinv
  | cons action actions ih =>
    obtain ⟨s1, hstep, hrest⟩ := Option.bind_eq_some_iff.mp h
    exact ih (step_inv hinv (hwithin action List.mem_cons_self) hstep)
      (fun a ha => hwithin a (List.mem_cons_of_mem _ ha)) hrest

/-! ### Soundness of runs -/

variable (σ) in
def KeyDetermines (A : Set Req) : Prop :=
  ∀ a ∈ A, ∀ b ∈ A, σ.key a = σ.key b → σ.spec a = σ.spec b

theorem run_sound {A : Set Req} {actions : List (Action Req Answer)} {now : Nat}
    (hkey : KeyDetermines σ A) (hwithin : ∀ action ∈ actions, action.Within A)
    (h : run σ (State.init now) actions = some s) : Sound σ s := by
  intro i request verdict time hcall
  obtain ⟨hA, request', hA', heq, hjust⟩ :=
    (run_inv (Inv.init A now) hwithin h).returned i request verdict time hcall
  rw [← hkey request' hA' request hA heq]
  exact hjust

theorem run_shared_key (now : Nat) {a b : Req} {answer : Answer} {verdict : Verdict}
    (hjudge : σ.judge answer = .ok verdict) (httl : 0 < σ.ttl) (hkey : σ.key a = σ.key b) :
    ∃ s : State Req Key Spec Answer Verdict Error,
      run σ (State.init now) [.lookup 0 a, .answer 0 answer, .store 0, .lookup 1 b] = some s ∧
      s.calls 1 = .returned b (.ok verdict) now ∧
      s.reviews = [⟨0, σ.spec a, answer, now, now⟩] := by
  simp [runFrom, step, State.init, State.setCall, Table.fresh, Table.insert, hjudge, hkey, httl]

/-- Runs over the requests in `A` are sound exactly when equal keys mean equal reviews there. -/
theorem sound_iff (A : Set Req) (now : Nat) {answer : Answer} {verdict : Verdict}
    (hjudge : σ.judge answer = .ok verdict) (httl : 0 < σ.ttl) :
    (∀ actions : List (Action Req Answer), (∀ action ∈ actions, action.Within A) →
      ∀ s, run σ (State.init now) actions = some s → Sound σ s) ↔ KeyDetermines σ A := by
  constructor
  · intro hsound a ha b hb hkey
    obtain ⟨s, hrun, hcall, hreviews⟩ := run_shared_key now hjudge httl hkey
    have hwithin : ∀ action ∈ [Action.lookup 0 a, .answer 0 answer, .store 0, .lookup 1 b],
        action.Within A := by
      simp [Action.Within, ha, hb]
    obtain ⟨review, hmem, hspec, -⟩ := hsound _ hwithin s hrun 1 b verdict now hcall
    rw [hreviews, List.mem_singleton] at hmem
    rw [← hspec, hmem]
  · intro hkey actions hwithin s hrun
    exact run_sound hkey hwithin hrun

/-- In every run, the steps of a call that returns an error leave the table as it was. -/
def SilentFailures (now : Nat) (σ : Scheme Req Key Spec Answer Verdict Error) : Prop :=
  ∀ (before after : List (Action Req Answer)) (action : Action Req Answer)
    (s1 s2 s : State Req Key Spec Answer Verdict Error) (i : Nat) (request : Req) (error : Error)
    (time : Nat), run σ (State.init now) before = some s1 → step σ s1 action = some s2 →
    run σ s2 after = some s → action.caller = some i →
    s.calls i = .returned request (.error error) time → s2.table = s1.table

theorem silentFailures (now : Nat) : SilentFailures now σ := by
  intro before after action s1 s2 s i request error time _ hstep hafter hcaller hcall
  obtain hsame | ⟨j, request', review, verdict, rfl, -, -, hreturned⟩ := step_table hstep
  · exact hsame
  · obtain rfl : j = i := Option.some.inj hcaller
    have := run_returned hafter hreturned
    rw [hcall] at this
    exact nomatch this

/-! ### A call alone -/

variable (σ) in
/-- A call with no other call's steps between its own: it looks up at `now` and stores at
`later`. -/
def alone (table : Table Key Verdict) (request : Req) (now : Nat) (answer : Answer) (later : Nat) :
    Except Error Verdict × Table Key Verdict :=
  match table.fresh σ.ttl now (σ.key request) with
  | some verdict => (.ok verdict, table)
  | none =>
    match σ.judge answer with
    | .error error => (.error error, table)
    | .ok verdict => (.ok verdict, table.insert (σ.key request) later verdict)

theorem alone_run {i : Nat} (hidle : s.calls i = .idle) (request : Req) (answer : Answer)
    (time : Nat) :
    ∃ actions s', run σ s actions = some s' ∧
      s'.table = (alone σ s.table request s.now answer (s.now + time)).2 ∧
      ∃ returnedAt, s'.calls i =
        .returned request (alone σ s.table request s.now answer (s.now + time)).1 returnedAt := by
  cases hfresh : s.table.fresh σ.ttl s.now (σ.key request) with
  | some verdict =>
    refine ⟨[.lookup i request], _,
      by simp only [runFrom, step, hidle, hfresh, Option.bind_some]; rfl, ?_, s.now, ?_⟩
    · simp only [alone, hfresh, State.setCall]
    · simp only [alone, hfresh, State.setCall, Function.update_self]
  | none =>
    cases hjudge : σ.judge answer with
    | error error =>
      refine ⟨[.lookup i request, .answer i answer], _, by
        simp only [runFrom, step, hidle, hfresh, hjudge, State.setCall, Function.update_self,
          Option.bind_some]; rfl, ?_, s.now, ?_⟩
      · simp only [alone, hfresh, hjudge]
      · simp only [alone, hfresh, hjudge, Function.update_self]
    | ok verdict =>
      refine ⟨[.lookup i request, .answer i answer, .tick time, .store i], _, by
        simp only [runFrom, step, hidle, hfresh, hjudge, State.setCall, Function.update_self,
          Option.bind_some]; rfl, ?_, s.now + time, ?_⟩
      · simp only [alone, hfresh, hjudge]
      · simp only [alone, hfresh, hjudge, Function.update_self]

end Steps

end Library.ReviewCache
