import KubeRbacProxy.Library.Progress
import KubeRbacProxy.Server.Sequential

/-! No request blocks another.  A call waits for nothing but the answers to its own reviews and
fetches, and for grants, which no other call takes away for good while no pass of the limiter
panics.  So every request can always be brought to its end, whatever the others are waiting for. -/

namespace KubeRbacProxy

open Library ReviewCache

variable {d : Deployment} {lib : Jwt}

/-! ### Calls on the caches -/

def OidcCall.For {auth : OidcAuthenticator} (token : Text) : OidcCall lib auth → Prop
  | .idle => False
  | .dismissed token' _ => token' = token
  | .fetching read _ | .storing read _ _ | .judging read _ | .returned read _ => read.token = token

def CallFor {Req Spec Answer Verdict Error : Type} (request : Req) :
    Call Req Spec Answer Verdict Error → Prop
  | .idle => False
  | .reviewing request' _ | .storing request' _ _ | .returned request' _ _ => request' = request

section ReviewCalls

variable {Req Key Spec Answer Verdict Error : Type} [DecidableEq Key]
variable {σ : Scheme Req Key Spec Answer Verdict Error}
variable {s s' : ReviewCache.State Req Key Spec Answer Verdict Error}

theorem step_callFor {action : Action Req Answer} (h : ReviewCache.step σ s action = some s')
    {i : Nat} {request : Req} (hcall : CallFor request (s.calls i)) :
    CallFor request (s'.calls i) := by
  have hi := step_call h i
  generalize s'.calls i = call at hi
  cases hi with
  | stay => exact hcall
  | hit hidle | send hidle =>
    rw [hidle] at hcall
    exact hcall.elim
  | judged hbefore | failed hbefore | stored hbefore =>
    rw [hbefore] at hcall
    exact hcall

theorem step_idle {action : Action Req Answer} (h : ReviewCache.step σ s action = some s') {i : Nat}
    (hidle : s.calls i = .idle) (hother : ∀ request, action ≠ .lookup i request) :
    s'.calls i = .idle := by
  have hi := step_call h i
  generalize hcall : s'.calls i = call at hi
  cases hi with
  | stay => exact hidle
  | hit | send => exact absurd rfl (hother _)
  | judged hbefore | failed hbefore | stored hbefore =>
    rw [hbefore] at hidle
    contradiction

theorem lookup_idle {i : Nat} (hidle : s.calls i = .idle) (request : Req) :
    ∃ s', ReviewCache.step σ s (.lookup i request) = some s' := by
  simp only [ReviewCache.step, hidle]
  split <;> exact ⟨_, rfl⟩

theorem lookup_callFor {i : Nat} {request : Req}
    (h : ReviewCache.step σ s (.lookup i request) = some s') : CallFor request (s'.calls i) := by
  obtain ⟨-, ⟨verdict, -, rfl⟩ | ⟨-, rfl⟩⟩ := step_lookup h <;>
  · rw [s.setCall_self]
    exact rfl

/-- An event answers the review that call `i` is at. -/
def Answerable {S E : Type} (work : S → E → Option S)
    (calls : S → ReviewCache.State Req Key Spec Answer Verdict Error)
    (put : S → ReviewCache.State Req Key Spec Answer Verdict Error → S)
    (σ : Scheme Req Key Spec Answer Verdict Error) (i : Nat) (s : S) : Prop :=
  ∃ answer event, work s event = (ReviewCache.step σ (calls s) (.answer i answer)).map (put s)

/-- A call that has been started returns when it is answered and has stored, by whatever events
these are for the state that the calls are a part of. -/
theorem callFor_attains [DecidableEq Req] {S E : Type} {work : S → E → Option S}
    {calls : S → ReviewCache.State Req Key Spec Answer Verdict Error}
    {put : S → ReviewCache.State Req Key Spec Answer Verdict Error → S} {i : Nat}
    (storeEvent : E) (hput : ∀ s part, calls (put s part) = part)
    (hstore : ∀ s, work s storeEvent = (ReviewCache.step σ (calls s) (.store i)).map (put s))
    {s : S} {request : Req} (hcall : CallFor request ((calls s).calls i))
    (hanswer : reviewing ((calls s).calls i) = true → Attains work (fun s' =>
      (calls s').calls i = (calls s).calls i ∧ Answerable work calls put σ i s') s) :
    Attains work (fun s' => ∃ result, resultOf request ((calls s').calls i) = some result) s := by
  have returned : ∀ s result time, (calls s).calls i = .returned request result time →
      Attains work (fun s' => ∃ result, resultOf request ((calls s').calls i) = some result) s :=
    fun s result time h => .now ⟨_, resultOf_eq_some.mpr ⟨_, h⟩⟩
  have stored : ∀ s review verdict, (calls s).calls i = .storing request review verdict →
      Attains work (fun s' => ∃ result, resultOf request ((calls s').calls i) = some result) s := by
    intro s review verdict h
    have hstep := hstore s
    simp only [ReviewCache.step, h, Option.map_some] at hstep
    refine .cons hstep (returned _ (.ok verdict) (calls s).now ?_)
    rw [hput]
    exact Function.update_self ..
  cases hi : (calls s).calls i with
  | idle =>
    rw [hi] at hcall
    exact hcall.elim
  | returned request' result time =>
    rw [hi] at hcall
    obtain rfl := hcall
    exact returned s result time hi
  | storing request' review verdict =>
    rw [hi] at hcall
    obtain rfl := hcall
    exact stored s review verdict hi
  | reviewing request' sentAt =>
    rw [hi] at hcall
    obtain rfl := hcall
    refine (hanswer (by rw [hi]; rfl)).trans ?_
    rintro mid ⟨hmid, answer, event, hstep⟩
    rw [hi] at hmid
    cases hjudge : σ.judge answer with
    | ok verdict =>
      simp only [ReviewCache.step, hmid, hjudge, Option.map_some] at hstep
      refine .cons hstep (stored _ ⟨i, σ.spec request', answer, sentAt, (calls mid).now⟩ verdict ?_)
      rw [hput]
      exact Function.update_self ..
    | error error =>
      simp only [ReviewCache.step, hmid, hjudge, Option.map_some] at hstep
      refine .cons hstep (returned _ (.error error) (calls mid).now ?_)
      rw [hput]
      exact Function.update_self ..

end ReviewCalls

/-! ### Calls on the signing keys -/

section OidcCalls

variable {auth : OidcAuthenticator} {s s' : OidcState lib auth}

theorem oidcStep_for {action : OidcAction} (h : oidcStep s action = some s') {i : Nat}
    {token : Text} (hcall : (s.calls i).For token) : (s'.calls i).For token := by
  -- the call that a step moves stays a call for its token
  have moved : ∀ {j call} {s'' : OidcState lib auth}, s''.calls = Function.update s.calls j call →
      ((s.calls j).For token → call.For token) → (s''.calls i).For token := by
    intro j call s'' hcalls hnew
    rw [hcalls]
    by_cases hij : i = j
    · subst hij
      rw [Function.update_self]
      exact hnew hcall
    · rw [Function.update_of_ne hij]
      exact hcall
  cases oidcStep_moves h with
  | tick time => exact hcall
  | dismiss hbefore | hit hbefore | miss hbefore =>
    refine moved rfl fun hfor => ?_
    rw [hbefore] at hfor
    exact hfor.elim
  | fail hbefore | serve set hbefore | judge decodedAt hbefore =>
    refine moved rfl fun hfor => ?_
    rw [hbefore] at hfor
    exact hfor
  | store hbefore hnext =>
    refine moved rfl fun hfor => ?_
    rw [hbefore] at hfor
    rcases hnext with rfl | rfl <;> exact hfor

theorem oidcStep_idle {action : OidcAction} (h : oidcStep s action = some s') {i : Nat}
    (hidle : s.calls i = .idle) (hother : ∀ token, action ≠ .begin i token) :
    s'.calls i = .idle := by
  -- only its own begin moves a call that is idle
  have kept : ∀ {j call} {s'' : OidcState lib auth}, s''.calls = Function.update s.calls j call →
      j ≠ i → s''.calls i = .idle := by
    intro j call s'' hcalls hj
    rw [hcalls, Function.update_of_ne (Ne.symm hj)]
    exact hidle
  cases action with
  | tick time =>
    obtain rfl := Option.some.inj h
    exact hidle
  | begin j token =>
    have hj : j ≠ i := by
      rintro rfl
      exact hother token rfl
    simp only [oidcStep] at h
    split at h
    · split at h
      · obtain rfl := Option.some.inj h
        exact kept rfl hj
      · split at h
        · obtain rfl := Option.some.inj h
          exact kept rfl hj
        · split at h <;>
          · obtain rfl := Option.some.inj h
            exact kept rfl hj
    · contradiction
  | answer j answers =>
    simp only [oidcStep] at h
    split at h
    · rename_i hcall
      have hj : j ≠ i := by
        rintro rfl
        rw [hidle] at hcall
        contradiction
      split at h <;>
      · obtain rfl := Option.some.inj h
        exact kept rfl hj
    · contradiction
  | store j =>
    simp only [oidcStep] at h
    split at h
    · rename_i hcall
      have hj : j ≠ i := by
        rintro rfl
        rw [hidle] at hcall
        contradiction
      obtain rfl := Option.some.inj h
      exact kept rfl hj
    · contradiction
  | judge j decodedAt =>
    simp only [oidcStep] at h
    split at h
    · rename_i hcall
      have hj : j ≠ i := by
        rintro rfl
        rw [hidle] at hcall
        contradiction
      obtain rfl := Option.some.inj h
      exact kept rfl hj
    · contradiction

theorem begin_for {i : Nat} {token : Text} (h : oidcStep s (.begin i token) = some s') :
    (s'.calls i).For token := by
  have moved : ∀ {call : OidcCall lib auth}, call.For token →
      ((s.setCall i call).calls i).For token := by
    intro call hcall
    rw [s.setCall_self]
    exact hcall
  simp only [oidcStep] at h
  split at h
  · split at h
    · obtain rfl := Option.some.inj h
      exact moved rfl
    · rename_i read hread
      have htoken := (readToken_ok hread).1
      split at h
      · obtain rfl := Option.some.inj h
        exact moved htoken
      · split at h <;>
        · obtain rfl := Option.some.inj h
          exact moved htoken
  · contradiction

theorem fetchSet_unavailable (auth : OidcAuthenticator) :
    fetchSet auth unavailable = .error "unavailable".toList := rfl

/-- The call on the keys of one authenticator has returned. -/
def OidcDone (auth : OidcAuthenticator) (i : Nat) (token : Text) (s : Backend lib) : Prop :=
  ∃ result, ((s.oidc auth).calls i).resultFor token = some result

theorem oidcDone_cons {s : Backend lib} {calls : OidcState lib auth} {i : Nat} {token : Text}
    {event : BackendEvent} (hstep : workCalls d s event = some (s.setOidc auth calls))
    (h : ∀ s' : Backend lib, s'.oidc auth = calls →
      Attains (workCalls d) (OidcDone auth i token) s') :
    Attains (workCalls d) (OidcDone auth i token) s :=
  .cons hstep (h _ (Function.update_self ..))

/-- A call that has been started returns, at the latest when the issuer fails to answer it. -/
theorem oidcFor_attains {s : Backend lib} {i : Nat} {token : Text}
    (hcall : ((s.oidc auth).calls i).For token) :
    Attains (workCalls d) (OidcDone auth i token) s := by
  have returned : ∀ (s : Backend lib) read result, (s.oidc auth).calls i = .returned read result →
      read.token = token → Attains (workCalls d) (OidcDone auth i token) s :=
    fun s read result h htoken => .now ⟨result, resultFor_eq_some.mpr (Or.inr ⟨read, htoken, h⟩)⟩
  have judging : ∀ (s : Backend lib) read keys, (s.oidc auth).calls i = .judging read keys →
      read.token = token → Attains (workCalls d) (OidcDone auth i token) s := by
    intro s read keys h htoken
    have hstep : workCalls d s (.oidcJudge auth i 0) = some (s.setOidc auth
        { (s.oidc auth).setCall i (.returned read (judgeToken read keys 0)) with
          decoded := (i, 0) :: (s.oidc auth).decoded }) := by
      simp only [workCalls, oidcStep, h, Option.map_some]
    refine oidcDone_cons hstep fun s' hs' => returned s' read (judgeToken read keys 0) ?_ htoken
    rw [hs']
    exact Function.update_self ..
  have fetching : ∀ (s : Backend lib) read force, (s.oidc auth).calls i = .fetching read force →
      read.token = token → Attains (workCalls d) (OidcDone auth i token) s := by
    intro s read force h htoken
    have hstep : workCalls d s (.oidcAnswer auth i unavailable) = some (s.setOidc auth
        { (s.oidc auth).setCall i (.returned read (.error "unavailable".toList)) with
          failed := (i, "unavailable".toList) :: (s.oidc auth).failed }) := by
      simp only [workCalls, oidcStep, h, fetchSet_unavailable, Option.map_some]
    refine oidcDone_cons hstep fun s' hs' =>
      returned s' read (.error "unavailable".toList) ?_ htoken
    rw [hs']
    exact Function.update_self ..
  cases hi : (s.oidc auth).calls i with
  | idle =>
    rw [hi] at hcall
    exact hcall.elim
  | dismissed token' result =>
    rw [hi] at hcall
    obtain rfl := hcall
    exact .now ⟨result, resultFor_eq_some.mpr (Or.inl hi)⟩
  | returned read result =>
    rw [hi] at hcall
    exact returned s read result hi hcall
  | judging read keys =>
    rw [hi] at hcall
    exact judging s read keys hi hcall
  | fetching read force =>
    rw [hi] at hcall
    exact fetching s read force hi hcall
  | storing read force set =>
    rw [hi] at hcall
    have hstored : ∀ call, (call = .judging read (Jwks.ofSet lib set) ∨
        call = .fetching read true) → ∀ s' : Backend lib, (s'.oidc auth).calls i = call →
          Attains (workCalls d) (OidcDone auth i token) s' := by
      rintro call (rfl | rfl) s' hs'
      · exact judging s' read _ hs' hcall
      · exact fetching s' read true hs' hcall
    cases hstep : oidcStep (s.oidc auth) (.store i) with
    | none => simp [oidcStep, hi] at hstep
    | some calls =>
      have hwork : workCalls d s (.oidcStore auth i) = some (s.setOidc auth calls) := by
        simp only [workCalls, hstep, Option.map_some]
      refine oidcDone_cons hwork fun s' hs' => hstored (calls.calls i) ?_ s' (by rw [hs'])
      simp only [oidcStep, hi, Option.some.injEq] at hstep
      rw [← hstep]
      simp only [OidcState.setCall, Function.update_self]
      split
      · exact Or.inl rfl
      · exact Or.inr rfl

end OidcCalls

/-! ### Grants -/

def Sender.Fine : Sender → Prop
  | .asking sent _ => sent < 3
  | .awaiting sent _ => 1 ≤ sent ∧ sent ≤ 3
  | .panicked => False

/-- The limiter is in order, and no call has panicked in it. -/
structure Steady (s : Backend lib) : Prop where
  rate : Sound s.rate
  senders : ∀ i, (s.senders i).Fine

section Grants

variable {s s' : Backend lib} {i : Nat}

theorem Sender.asks_eq_some {sender : Sender} {now sent : Nat}
    (h : sender.asks now = some sent) : sent < 3 := by
  cases sender with
  | panicked => contradiction
  | asking sent' wake | awaiting sent' wake =>
    obtain ⟨⟨hlt, -⟩, rfl⟩ := Option.ite_some_none_eq_some.mp h
    exact hlt

theorem startCall_steady {call : ApiCall} (h : Steady s) (hstep : startCall d s i call = some s') :
    Steady s' := by
  cases call with
  | oidc token =>
    cases hauth : d.oidc with
    | none =>
      simp only [startCall, hauth, Option.some.injEq] at hstep
      exact hstep ▸ h
    | some auth =>
      simp only [startCall, hauth] at hstep
      obtain ⟨calls, -, rfl⟩ := Option.map_eq_some_iff.mp hstep
      exact ⟨h.rate, h.senders⟩
  | token request | access n attrs =>
    obtain ⟨calls, -, rfl⟩ := Option.map_eq_some_iff.mp hstep
    exact ⟨h.rate, h.senders⟩

theorem acquireCall_steady (hqps : NeverStalls d.args.kubeApiQps) (h : Steady s)
    (hstep : acquireCall d s i = some s') : Steady s' := by
  obtain ⟨sent, hsent, rfl⟩ := acquireCall_eq hstep
  obtain ⟨hcalm, hsound⟩ :=
    acquireOnce_safe (.nearest binary64) d.args.kubeApiBurst s.tokens.now hqps h.rate
  refine ⟨hsound, fun j => ?_⟩
  dsimp only
  by_cases hj : j = i
  · subst hj
    rw [Function.update_self]
    have hlt := Sender.asks_eq_some hsent
    cases hpass : (acquireOnce (.nearest binary64) d.args.kubeApiQps d.args.kubeApiBurst
        s.tokens.now s.rate).1 with
    | granted => exact ⟨Nat.succ_pos sent, hlt⟩
    | sleeps nanos => exact hlt
    | panicked => exact absurd hpass hcalm
  · rw [Function.update_of_ne hj]
    exact h.senders j

theorem workCalls_steady (hqps : NeverStalls d.args.kubeApiQps) {event : BackendEvent}
    (h : Steady s) (hstep : workCalls d s event = some s') : Steady s' := by
  cases event with
  | tick time =>
    obtain rfl := Option.some.inj hstep
    exact ⟨h.rate, h.senders⟩
  | acquire i => exact acquireCall_steady hqps h hstep
  | oidcAnswer auth i answers | oidcStore auth i | oidcJudge auth i decodedAt | tokenStore i
  | accessStore i =>
    obtain ⟨calls, -, rfl⟩ := Option.map_eq_some_iff.mp hstep
    exact ⟨h.rate, h.senders⟩
  | tokenAnswer i send | accessAnswer i send =>
    obtain ⟨-, hstep⟩ := Option.ite_none_right_eq_some.mp hstep
    obtain ⟨calls, -, rfl⟩ := Option.map_eq_some_iff.mp hstep
    exact ⟨h.rate, h.senders⟩

theorem acquireCall_granted {sent : Nat}
    (hreviewing : (reviewing (s.tokens.calls i) || reviewing (s.access.calls i)) = true)
    (hasks : (s.senders i).asks s.tokens.now = some sent)
    (hpass : (acquireOnce (.nearest binary64) d.args.kubeApiQps d.args.kubeApiBurst s.tokens.now
      s.rate).1 = .granted) :
    ∃ s', acquireCall d s i = some s' ∧ (s'.senders i).awaits (sent + 1) = true ∧
      s'.tokens = s.tokens ∧ s'.access = s.access := by
  cases hstep : acquireCall d s i with
  | none => simp [acquireCall, hreviewing, hasks] at hstep
  | some s' =>
    obtain ⟨sent', hsent, rfl⟩ := acquireCall_eq hstep
    obtain rfl := Option.some.inj (hasks.symm.trans hsent)
    refine ⟨_, rfl, ?_, rfl, rfl⟩
    dsimp only
    rw [Function.update_self, hpass]
    exact beq_self_eq_true (sent + 1)

/-- A call at a review comes to wait for an answer, at the latest when no other call has asked for a
grant in `2 ^ 64` seconds. -/
theorem granted_attains (hqps : NeverStalls d.args.kubeApiQps) (h : Steady s)
    (hreviewing : (reviewing (s.tokens.calls i) || reviewing (s.access.calls i)) = true) :
    Attains (workCalls d) (fun s' => (∃ n, 1 ≤ n ∧ n ≤ 3 ∧ (s'.senders i).awaits n = true) ∧
      s'.tokens.calls = s.tokens.calls ∧ s'.access.calls = s.access.calls) s := by
  have hfine := h.senders i
  cases hsender : s.senders i with
  | panicked =>
    rw [hsender] at hfine
    exact hfine.elim
  | awaiting sent wake =>
    rw [hsender] at hfine
    refine .now ⟨⟨sent, hfine.1, hfine.2, ?_⟩, rfl, rfl⟩
    rw [hsender]
    exact beq_self_eq_true sent
  | asking sent wake =>
    rw [hsender] at hfine
    have hsent : sent < 3 := hfine
    -- by then the call has slept, and a whole token has flown in
    obtain ⟨time, htime⟩ : ∃ time, wake + (s.rate.last + 2 ^ 64 * 10 ^ 9) ≤ time := ⟨_, le_rfl⟩
    obtain ⟨late, htick, hnow, htokens, haccess, hrate, hsenders⟩ : ∃ late,
        workCalls d s (.tick time) = some late ∧ late.tokens.now = s.tokens.now + time ∧
        late.tokens.calls = s.tokens.calls ∧ late.access.calls = s.access.calls ∧
        late.rate = s.rate ∧ late.senders = s.senders := ⟨_, rfl, rfl, rfl, rfl, rfl, rfl⟩
    have hpass : (acquireOnce (.nearest binary64) d.args.kubeApiQps d.args.kubeApiBurst
        late.tokens.now late.rate).1 = .granted := by
      rw [hrate, hnow]
      exact acquireOnce_waited hqps h.rate (le_trans (Nat.le_add_left ..) (htime.trans
        (Nat.le_add_left ..)))
    have hwake : wake ≤ s.tokens.now + time :=
      le_trans (Nat.le_add_right ..) (htime.trans (Nat.le_add_left ..))
    have hasks : (late.senders i).asks late.tokens.now = some sent := by
      rw [hsenders, hnow, hsender]
      exact if_pos ⟨hsent, hwake⟩
    have hreviewing : (reviewing (late.tokens.calls i) || reviewing (late.access.calls i)) =
        true := by
      rw [htokens, haccess]
      exact hreviewing
    obtain ⟨s', hacquire, hawaits, htokens', haccess'⟩ :=
      acquireCall_granted hreviewing hasks hpass
    refine .cons htick (.cons (show workCalls d late (.acquire i) = some s' from hacquire) ?_)
    exact .now ⟨⟨sent + 1, Nat.succ_pos sent, hsent, hawaits⟩, by rw [htokens', htokens],
      by rw [haccess', haccess]⟩

/-- The first requests of `n` are turned away, and the last fails. -/
def unanswered {Body : Type} (n : Nat) : Attempts Body := fun k =>
  if k + 1 < n then .ok ⟨503, "503 Service Unavailable".toList, .error []⟩ else .error []

theorem requestsSent_unanswered {Body : Type} {n : Nat} (hpos : 1 ≤ n) (hle : n ≤ 3) :
    requestsSent (unanswered n : Attempts Body) 0 2 = n := by
  obtain rfl | rfl | rfl : n = 1 ∨ n = 2 ∨ n = 3 := by omega
  · rfl
  · rfl
  · rfl

end Grants

/-! ### The server -/

/-- No call of this number has been started. -/
def FreeCall (s : Backend lib) (i : Nat) : Prop :=
  (∀ auth, (s.oidc auth).calls i = .idle) ∧ s.tokens.calls i = .idle ∧ s.access.calls i = .idle

def PendingCall (d : Deployment) (s : Backend lib) (i : Nat) : ApiCall → Prop
  | .oidc token => ∀ auth, d.oidc = some auth → ((s.oidc auth).calls i).For token
  | .token request => CallFor request (s.tokens.calls i)
  | .access _ attrs => CallFor attrs (s.access.calls i)

theorem PendingCall.step {s s' : Backend lib} (h : BackendStep d s s') {i : Nat} {call : ApiCall}
    (hcall : PendingCall d s i call) : PendingCall d s' i call := by
  cases call with
  | oidc token =>
    intro auth hauth
    rcases h.oidc auth with hsame | ⟨action, hstep⟩
    · rw [hsame]
      exact hcall auth hauth
    · exact oidcStep_for hstep (hcall auth hauth)
  | token request =>
    have hcall : CallFor request (s.tokens.calls i) := hcall
    show CallFor request (s'.tokens.calls i)
    rcases h.tokens with hsame | ⟨action, hstep⟩
    · rwa [hsame]
    · exact step_callFor hstep hcall
  | access n attrs =>
    have hcall : CallFor attrs (s.access.calls i) := hcall
    show CallFor attrs (s'.access.calls i)
    rcases h.access with hsame | ⟨action, hstep⟩
    · rwa [hsame]
    · exact step_callFor hstep hcall

section Free

variable {s s' : Backend lib} {j : Nat}

theorem FreeCall.of_oidc {auth : OidcAuthenticator} {action : OidcAction} (hfree : FreeCall s j)
    (h : (oidcStep (s.oidc auth) action).map (s.setOidc auth) = some s')
    (hother : ∀ token, action ≠ .begin j token) : FreeCall s' j := by
  obtain ⟨calls, hstep, rfl⟩ := Option.map_eq_some_iff.mp h
  refine ⟨fun other => ?_, hfree.2⟩
  by_cases hsame : other = auth
  · subst hsame
    show (Function.update s.oidc other calls other).calls j = .idle
    rw [Function.update_self]
    exact oidcStep_idle hstep (hfree.1 other) hother
  · show (Function.update s.oidc auth calls other).calls j = .idle
    rw [Function.update_of_ne hsame]
    exact hfree.1 other

theorem FreeCall.of_tokens {action : Action BearerRequest (Attempts TokenResponse)}
    (hfree : FreeCall s j)
    (h : (ReviewCache.step (tokenScheme d.args.authTokenAudiences) s.tokens action).map
      (fun tokens => { s with tokens := tokens }) = some s')
    (hother : ∀ request, action ≠ .lookup j request) : FreeCall s' j := by
  obtain ⟨tokens, hstep, rfl⟩ := Option.map_eq_some_iff.mp h
  exact ⟨hfree.1, step_idle hstep hfree.2.1 hother, hfree.2.2⟩

theorem FreeCall.of_access {action : Action Attributes (Attempts AccessResponse)}
    (hfree : FreeCall s j)
    (h : (ReviewCache.step accessScheme s.access action).map
      (fun access => { s with access := access }) = some s')
    (hother : ∀ request, action ≠ .lookup j request) : FreeCall s' j := by
  obtain ⟨access, hstep, rfl⟩ := Option.map_eq_some_iff.mp h
  exact ⟨hfree.1, hfree.2.1, step_idle hstep hfree.2.2 hother⟩

theorem startCall_free {i : Nat} {call : ApiCall} (h : startCall d s i call = some s')
    (hj : j ≠ i) (hfree : FreeCall s j) : FreeCall s' j := by
  cases call with
  | oidc token =>
    cases hauth : d.oidc with
    | none =>
      simp only [startCall, hauth, Option.some.injEq] at h
      exact h ▸ hfree
    | some auth =>
      simp only [startCall, hauth] at h
      exact hfree.of_oidc h fun _ heq => hj (OidcAction.begin.inj heq).1.symm
  | token request => exact hfree.of_tokens h fun _ heq => hj (Action.lookup.inj heq).1.symm
  | access n attrs => exact hfree.of_access h fun _ heq => hj (Action.lookup.inj heq).1.symm

theorem workCalls_free {event : BackendEvent} (h : workCalls d s event = some s')
    (hfree : FreeCall s j) : FreeCall s' j := by
  cases event with
  | tick time =>
    obtain rfl := Option.some.inj h
    exact hfree
  | acquire i =>
    obtain ⟨sent, -, rfl⟩ := acquireCall_eq h
    exact hfree
  | oidcAnswer auth i answers => exact hfree.of_oidc h nofun
  | oidcStore auth i => exact hfree.of_oidc h nofun
  | oidcJudge auth i decodedAt => exact hfree.of_oidc h nofun
  | tokenAnswer i send => exact hfree.of_tokens (Option.ite_none_right_eq_some.mp h).2 nofun
  | tokenStore i => exact hfree.of_tokens h nofun
  | accessAnswer i send => exact hfree.of_access (Option.ite_none_right_eq_some.mp h).2 nofun
  | accessStore i => exact hfree.of_access h nofun

theorem startCall_exists {i : Nat} (call : ApiCall) (hfree : FreeCall s i) :
    ∃ s', startCall d s i call = some s' := by
  cases call with
  | oidc token =>
    cases hauth : d.oidc with
    | none => exact ⟨s, by simp only [startCall, hauth]⟩
    | some auth =>
      obtain ⟨calls, hstep⟩ := oidcStep_begin_idle (hfree.1 auth) token
      exact ⟨s.setOidc auth calls, by simp only [startCall, hauth, hstep, Option.map_some]⟩
  | token request =>
    obtain ⟨tokens, hstep⟩ := lookup_idle hfree.2.1 request
    exact ⟨{ s with tokens := tokens }, by rw [startCall, hstep]; rfl⟩
  | access n attrs =>
    obtain ⟨access, hstep⟩ := lookup_idle hfree.2.2 attrs
    exact ⟨{ s with access := access }, by rw [startCall, hstep]; rfl⟩

theorem startCall_pending {i : Nat} {call : ApiCall} (h : startCall d s i call = some s') :
    PendingCall d s' i call := by
  cases call with
  | oidc token =>
    intro auth hauth
    simp only [startCall, hauth] at h
    obtain ⟨calls, hstep, rfl⟩ := Option.map_eq_some_iff.mp h
    show ((Function.update s.oidc auth calls auth).calls i).For token
    rw [Function.update_self]
    exact begin_for hstep
  | token request =>
    obtain ⟨tokens, hstep, rfl⟩ := Option.map_eq_some_iff.mp h
    exact lookup_callFor hstep
  | access n attrs =>
    obtain ⟨access, hstep, rfl⟩ := Option.map_eq_some_iff.mp h
    exact lookup_callFor hstep

theorem pendingCall_attains (hqps : NeverStalls d.args.kubeApiQps) {i : Nat} {call : ApiCall}
    (hsteady : Steady s) (h : PendingCall d s i call) :
    Attains (workCalls d) (fun s' => ∃ res, callResult d s' i call = some res) s := by
  cases call with
  | oidc token =>
    cases hauth : d.oidc with
    | none => exact .now ⟨.ok none, by simp only [callResult, hauth]⟩
    | some auth =>
      obtain ⟨events, s', hrun, res, hres⟩ := oidcFor_attains (h auth hauth)
      exact ⟨events, s', hrun, res, by simpa only [callResult, hauth] using hres⟩
  | token request =>
    refine callFor_attains (.tokenStore i) (fun _ _ => rfl) (fun _ => rfl) h fun hreviewing => ?_
    refine (granted_attains hqps hsteady (by rw [hreviewing, Bool.true_or])).trans ?_
    rintro mid ⟨⟨n, hpos, hle, hawaits⟩, htokens, -⟩
    refine .now ⟨congrFun htokens i, unanswered n, .tokenAnswer i (unanswered n), ?_⟩
    rw [workCalls, requestsSent_unanswered hpos hle, if_pos hawaits]
  | access n attrs =>
    refine callFor_attains (.accessStore i) (fun _ _ => rfl) (fun _ => rfl) h fun hreviewing => ?_
    refine (granted_attains hqps hsteady (by rw [hreviewing, Bool.or_true])).trans ?_
    rintro mid ⟨⟨n, hpos, hle, hawaits⟩, -, haccess⟩
    refine .now ⟨congrFun haccess i, unanswered n, .accessAnswer i (unanswered n), ?_⟩
    rw [workCalls, requestsSent_unanswered hpos hle, if_pos hawaits]

end Free

def backendResponsive (d : Deployment) (lib : Jwt) (hqps : NeverStalls d.args.kubeApiQps) :
    Responsive (server d lib).service where
  Inv := Steady
  start_inv := startCall_steady
  work_inv := workCalls_steady hqps
  Free := FreeCall
  Pending := PendingCall d
  start_free := startCall_exists
  start_pending := startCall_pending
  start_free_other := startCall_free
  start_pending_other := fun h _ hcall => hcall.step (startCall_step h)
  work_free := workCalls_free
  work_pending := fun h hcall => hcall.step (workCalls_step h)
  answers := pendingCall_attains hqps

theorem steady_init (d : Deployment) (now : Nat) : Steady (Backend.init d now : Backend lib) where
  rate := ⟨rfl, Nat.cast_nonneg _⟩
  senders _ := Nat.succ_pos 2

/-- In every state that the server comes to, each request that was admitted can be brought to its
end by steps that leave the counter and all other requests alone, if the rate of the limiter is one
that never stalls. -/
theorem requests_finish (hqps : NeverStalls d.args.kubeApiQps) {now : Nat}
    {actions : List (server d lib).Action} {s : (server d lib).State}
    (hrun : ServerRun d lib now actions s) {i : Nat}
    {task : Task UInt64 Incoming ApiCall ApiCall.Res Filtered} (htask : s.tasks i = some task) :
    ∃ more s' task' filtered, Pool.run s more = some s' ∧ s'.tasks i = some task' ∧
      task'.program = .done filtered ∧ s'.front = s.front ∧
      ∀ j, j ≠ i → s'.tasks j = s.tasks j := by
  have hfree : ∀ i, (backendResponsive d lib hqps).Free (Backend.init d now) i :=
    fun i => ⟨fun _ => rfl, rfl, rfl⟩
  exact Pool.run_finish (backendResponsive d lib hqps) (steady_init d now) hfree hrun htask

theorem requests_finish_pods : ∃ s task, ServerRun podDeployment foreignLib 0 podActions s ∧
    s.tasks 0 = some task ∧ ∃ more s' task' filtered, Pool.run s more = some s' ∧
      s'.tasks 0 = some task' ∧ task'.program = .done filtered ∧ s'.front = s.front ∧
      ∀ j, j ≠ 0 → s'.tasks j = s.tasks j := by
  obtain ⟨s, task, filtered, hrun, htask, -⟩ := podActions_forward
  refine ⟨s, task, hrun, htask, requests_finish (fun value hvalue hqps => ?_) hrun htask⟩
  obtain ⟨rfl, -⟩ := FloatNumber.finite.inj hqps
  exact Or.inr (by norm_num)

end KubeRbacProxy
