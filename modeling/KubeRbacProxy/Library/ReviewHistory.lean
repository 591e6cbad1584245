import KubeRbacProxy.Library.ReviewOrder

/-! What the calls of a run have come to, in terms of the states that the run passed through.  A
call that has returned was served from the table of one of them, or was answered after it had missed
there, so its result is that of a call alone on that table. -/

namespace Library.ReviewCache

variable {Req Key Spec Answer Verdict Error : Type} [DecidableEq Key]
variable {σ : Scheme Req Key Spec Answer Verdict Error}
variable {s s' : State Req Key Spec Answer Verdict Error}

variable (σ) in
/-- The request was looked up in the table of a state that was passed through, and not found. -/
def Missed (passed : State Req Key Spec Answer Verdict Error → Prop) (request : Req)
    (sentAt : Nat) : Prop :=
  ∃ s0, passed s0 ∧ s0.now = sentAt ∧ s0.table.fresh σ.ttl s0.now (σ.key request) = none

variable (σ) in
/-- Call `i` was answered with this review of the request. -/
def Answered (s : State Req Key Spec Answer Verdict Error) (i : Nat) (request : Req)
    (review : Review Spec Answer) : Prop :=
  review ∈ s.reviews ∧ review.caller = i ∧ review.spec = σ.spec request

variable (σ) in
/-- The result of call `i` is a hit in the table of a state that was passed through, or what its
own review said. -/
def Explained (passed : State Req Key Spec Answer Verdict Error → Prop)
    (s : State Req Key Spec Answer Verdict Error) (i : Nat) (request : Req)
    (result : Except Error Verdict) : Prop :=
  (∃ s0 verdict, passed s0 ∧ s0.table.fresh σ.ttl s0.now (σ.key request) = some verdict ∧
    result = .ok verdict) ∨
  ∃ review, Answered σ s i request review ∧ Missed σ passed request review.sentAt ∧
    result = σ.judge review.answer

variable (σ) in
def Followed (passed : State Req Key Spec Answer Verdict Error → Prop)
    (s : State Req Key Spec Answer Verdict Error) (i : Nat) :
    Call Req Spec Answer Verdict Error → Prop
  | .idle => True
  | .reviewing request sentAt => Missed σ passed request sentAt
  | .storing request review verdict => Answered σ s i request review ∧
      Missed σ passed request review.sentAt ∧ σ.judge review.answer = .ok verdict
  | .returned request result _ => Explained σ passed s i request result

variable {passed passed' : State Req Key Spec Answer Verdict Error → Prop}

omit [DecidableEq Key] in
theorem Missed.mono {request : Req} {sentAt : Nat} (h : Missed σ passed request sentAt)
    (hpassed : ∀ s, passed s → passed' s) : Missed σ passed' request sentAt := by
  obtain ⟨s0, h0, hmiss⟩ := h
  exact ⟨s0, hpassed s0 h0, hmiss⟩

omit [DecidableEq Key] in
theorem Answered.mono {i : Nat} {request : Req} {review : Review Spec Answer}
    (h : Answered σ s i request review) (hreviews : s.reviews ⊆ s'.reviews) :
    Answered σ s' i request review := ⟨hreviews h.1, h.2⟩

omit [DecidableEq Key] in
theorem Followed.mono {i : Nat} {call : Call Req Spec Answer Verdict Error}
    (h : Followed σ passed s i call) (hpassed : ∀ s, passed s → passed' s)
    (hreviews : s.reviews ⊆ s'.reviews) : Followed σ passed' s' i call := by
  cases call with
  | idle => trivial
  | reviewing request sentAt => exact Missed.mono h hpassed
  | storing request review verdict =>
    obtain ⟨hanswered, hmissed, hjudge⟩ := h
    exact ⟨hanswered.mono hreviews, hmissed.mono hpassed, hjudge⟩
  | returned request result time =>
    rcases h with ⟨s0, verdict, h0, hhit⟩ | ⟨review, hanswered, hmissed, hresult⟩
    · exact Or.inl ⟨s0, verdict, hpassed s0 h0, hhit⟩
    · exact Or.inr ⟨review, hanswered.mono hreviews, hmissed.mono hpassed, hresult⟩

omit [DecidableEq Key] in
/-- A call that is explained by a table has the result of the call alone on it. -/
theorem Explained.alone [DecidableEq Key] [Inhabited Answer] {i : Nat} {request : Req}
    {result : Except Error Verdict} (h : Explained σ passed s i request result) :
    ∃ s0 answer, passed s0 ∧
      (∀ later, result = (alone σ s0.table request s0.now answer later).1) ∧
      (s0.table.fresh σ.ttl s0.now (σ.key request) = none →
        ∃ review, Answered σ s i request review ∧ review.sentAt = s0.now ∧
          review.answer = answer) := by
  rcases h with ⟨s0, verdict, h0, hfresh, rfl⟩ | ⟨review, hanswered, ⟨s0, h0, hnow, hstale⟩, rfl⟩
  · refine ⟨s0, default, h0, fun later => ?_, fun hstale => ?_⟩
    · simp only [ReviewCache.alone, hfresh]
    · rw [hfresh] at hstale
      contradiction
  · refine ⟨s0, review.answer, h0, fun later => ?_, fun _ => ⟨review, hanswered, hnow.symm, rfl⟩⟩
    simp only [ReviewCache.alone, hstale]
    cases σ.judge review.answer <;> rfl

end Library.ReviewCache
