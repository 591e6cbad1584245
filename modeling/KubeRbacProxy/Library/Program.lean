import Mathlib.Data.List.Pairwise

/-! Programs that call services.  A program is done, or it makes a call and goes on with the result;
`eval` runs it against given answers.  `Reaches` says how far a list of results takes a program, and
a program whose calls come in ascending stages makes none twice. -/

namespace Library

inductive Program (Op : Type) (Res : Op → Type) (α : Type) where
  | done (result : α)
  | call (op : Op) (next : Res op → Program Op Res α)

namespace Program

variable {Op : Type} {Res : Op → Type} {α β : Type}

def bind : Program Op Res α → (α → Program Op Res β) → Program Op Res β
  | .done result, next => next result
  | .call op rest, next => .call op fun res => (rest res).bind next

/-- The result of the program where each call is answered by `answer`. -/
def eval (answer : (op : Op) → Res op) : Program Op Res α → α
  | .done result => result
  | .call op next => (next (answer op)).eval answer

/-- The result, of a program that is done. -/
def outcome : Program Op Res α → Option α
  | .done result => some result
  | .call _ _ => none

theorem outcome_eq_some {p : Program Op Res α} {result : α} :
    p.outcome = some result ↔ p = .done result := by
  cases p <;> simp [outcome]

theorem eval_bind (answer : (op : Op) → Res op) (p : Program Op Res α)
    (next : α → Program Op Res β) :
    (p.bind next).eval answer = (next (p.eval answer)).eval answer := by
  induction p with
  | done result => rfl
  | call op rest ih => exact ih (answer op)

/-- The calls that the program makes where each is answered by `answer`. -/
def callsMade (answer : (op : Op) → Res op) : Program Op Res α → List Op
  | .done _ => []
  | .call op next => op :: (next (answer op)).callsMade answer

theorem callsMade_bind (answer : (op : Op) → Res op) (p : Program Op Res α)
    (next : α → Program Op Res β) : (p.bind next).callsMade answer =
      p.callsMade answer ++ (next (p.eval answer)).callsMade answer := by
  induction p with
  | done result => rfl
  | call op rest ih => exact congrArg _ (ih (answer op))

/-- The calls that were made, with their results. -/
abbrev Trace (Op : Type) (Res : Op → Type) := List ((op : Op) × Res op)

inductive Reaches : Program Op Res α → Trace Op Res → Program Op Res α → Prop
  | refl (p : Program Op Res α) : Reaches p [] p
  | call {op : Op} {next : Res op → Program Op Res α} {res : Res op} {trace : Trace Op Res}
      {p : Program Op Res α} (h : Reaches (next res) trace p) :
      Reaches (.call op next) (⟨op, res⟩ :: trace) p

theorem Reaches.concat {p : Program Op Res α} {trace : Trace Op Res} {op : Op}
    {next : Res op → Program Op Res α} (h : Reaches p trace (.call op next)) (res : Res op) :
    Reaches p (trace ++ [⟨op, res⟩]) (next res) := by
  generalize hp : Program.call op next = q at h
  induction h with
  | refl => exact hp ▸ .call (.refl _)
  | call _ ih => exact .call (ih hp)

/-- A program that is done after the results of a trace is done so under all answers that agree
with the trace. -/
theorem Reaches.eval {p : Program Op Res α} {trace : Trace Op Res} {result : α}
    (h : Reaches p trace (.done result)) {answer : (op : Op) → Res op}
    (hagree : ∀ entry ∈ trace, answer entry.1 = entry.2) : p.eval answer = result := by
  generalize hq : Program.done result = q at h
  induction h with
  | refl => exact hq ▸ rfl
  | @call op next res trace q _ ih =>
    have hres : answer op = res := hagree ⟨op, res⟩ List.mem_cons_self
    rw [Program.eval, hres]
    exact ih (fun entry hentry => hagree entry (List.mem_cons_of_mem _ hentry)) hq

/-! ### Calls in stages -/

/-- The calls come in ascending stages from `from_` on, and a result with the stage after the last
call satisfies `post`. -/
def Staged (stage : Op → Nat) (post : Nat → α → Prop) : Nat → Program Op Res α → Prop
  | from_, .done result => post from_ result
  | from_, .call op next => from_ ≤ stage op ∧ ∀ res, Staged stage post (stage op + 1) (next res)

variable {stage : Op → Nat}

theorem Staged.bind {post : Nat → α → Prop} {post' : Nat → β → Prop} {from_ : Nat}
    {p : Program Op Res α} {next : α → Program Op Res β} (h : Staged stage post from_ p)
    (hnext : ∀ n result, post n result → Staged stage post' n (next result)) :
    Staged stage post' from_ (p.bind next) := by
  induction p generalizing from_ with
  | done result => exact hnext from_ result h
  | call op rest ih => exact ⟨h.1, fun res => ih res (h.2 res)⟩

theorem Staged.mono {post : Nat → α → Prop} {from_ lower : Nat} {p : Program Op Res α}
    (h : Staged stage post from_ p) (hle : lower ≤ from_)
    (hpost : ∀ n result, post n result → ∀ m ≤ n, post m result) :
    Staged stage post lower p := by
  cases p with
  | done result => exact hpost from_ result h lower hle
  | call op next => exact ⟨Nat.le_trans hle h.1, h.2⟩

/-- The calls of a trace are in ascending stages too. -/
theorem Staged.ascending {post : Nat → α → Prop} {from_ : Nat} {p q : Program Op Res α}
    {trace : Trace Op Res} (h : Staged stage post from_ p) (hreach : Reaches p trace q) :
    (∀ entry ∈ trace, from_ ≤ stage entry.1) ∧
      trace.Pairwise fun a b => stage a.1 < stage b.1 := by
  induction hreach generalizing from_ with
  | refl => simp
  | @call op next res trace q _ ih =>
    obtain ⟨hlater, hpairs⟩ := ih (h.2 res)
    constructor
    · intro entry hentry
      rcases List.mem_cons.mp hentry with rfl | hentry
      · exact h.1
      · have hfirst := h.1
        have hentry := hlater entry hentry
        omega
    · exact List.pairwise_cons.mpr ⟨fun entry hentry => hlater entry hentry, hpairs⟩

/-- Calls of one stage are one call. -/
theorem Staged.position {post : Nat → α → Prop} {from_ : Nat} {p q : Program Op Res α}
    {made : Trace Op Res} (h : Staged stage post from_ p) (hreach : Reaches p made q)
    {k l : Nat} {a b : (op : Op) × Res op} (ha : made[k]? = some a) (hb : made[l]? = some b)
    (hstage : stage a.1 = stage b.1) : k = l := by
  have hpairs := List.pairwise_iff_getElem.mp (h.ascending hreach).2
  obtain ⟨hk, rfl⟩ := List.getElem?_eq_some_iff.mp ha
  obtain ⟨hl, rfl⟩ := List.getElem?_eq_some_iff.mp hb
  rcases Nat.lt_trichotomy k l with hlt | heq | hgt
  · have := hpairs k l hk hl hlt
    omega
  · exact heq
  · have := hpairs l k hl hk hgt
    omega

theorem Staged.unique {post : Nat → α → Prop} {from_ : Nat} {p q : Program Op Res α}
    {trace : Trace Op Res} (h : Staged stage post from_ p) (hreach : Reaches p trace q)
    {a b : (op : Op) × Res op} (ha : a ∈ trace) (hb : b ∈ trace)
    (hstage : stage a.1 = stage b.1) : a = b := by
  obtain ⟨k, hk⟩ := List.mem_iff_getElem?.mp ha
  obtain ⟨l, hl⟩ := List.mem_iff_getElem?.mp hb
  obtain rfl := h.position hreach hk hl hstage
  exact Option.some.inj (hk.symm.trans hl)

open Classical in
/-- The result that a call has in a trace, or a default one where it was not made. -/
noncomputable def Trace.answer (trace : Trace Op Res) (default : (op : Op) → Res op) (op : Op) :
    Res op :=
  if h : ∃ res, ⟨op, res⟩ ∈ trace then h.choose else default op

theorem Trace.answer_cases (trace : Trace Op Res) (default : (op : Op) → Res op) (op : Op) :
    ⟨op, trace.answer default op⟩ ∈ trace ∨ trace.answer default op = default op := by
  unfold Trace.answer
  split
  · rename_i h
    exact Or.inl h.choose_spec
  · exact Or.inr rfl

theorem Staged.answer_agrees {post : Nat → α → Prop} {from_ : Nat} {p q : Program Op Res α}
    {trace : Trace Op Res} (h : Staged stage post from_ p) (hreach : Reaches p trace q)
    (default : (op : Op) → Res op) :
    ∀ entry ∈ trace, trace.answer default entry.1 = entry.2 := by
  rintro ⟨op, res⟩ hentry
  have hmade : ∃ res, ⟨op, res⟩ ∈ trace := ⟨res, hentry⟩
  have hsame := h.unique hreach hmade.choose_spec hentry rfl
  dsimp only
  rw [Trace.answer, dif_pos hmade]
  exact eq_of_heq (Sigma.mk.inj hsame).2

end Program

end Library
