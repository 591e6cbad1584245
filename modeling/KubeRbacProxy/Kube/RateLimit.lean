import KubeRbacProxy.Kube.Client
import KubeRbacProxy.Library.TokenBucket

/-! The rate limit of the Kubernetes client.  Any number of calls of `requestWithRetry` share one
token bucket; a call takes a grant before each request that it sends, and sleeps where it is refused
one.  A pass of the loop of `acquire` holds the lock and reads the clock, so runs are interleavings
of passes, sleeps, and requests.  Times are in seconds and arithmetic is exact. -/

namespace KubeRbacProxy

open Library

section

variable {K : Type} [Field K] [LinearOrder K]

structure RateLimits (K : Type) where
  qps : K
  burst : K

/-- The limits of a client that is created with these flags. -/
def rateLimits (qps : K) (burst : Nat) : RateLimits K := ⟨qps, (max burst 1 : Nat)⟩

/-- One pass of the loop of `acquire`: a grant, or the time to sleep. -/
def acquirePass (limits : RateLimits K) (now : K) (rate : Bucket K) : Option K × Bucket K :=
  let rate := rate.refill limits.qps limits.burst now
  if 1 ≤ rate.level then (none, rate.take) else (some ((1 - rate.level) / limits.qps), rate)

/-- A call of `requestWithRetry`, at one of its attempts. -/
inductive Posting (K Body : Type) where
  | idle
  | acquiring (attempt : Nat)
  | throttled (attempt : Nat) (wake : K)
  | granted (attempt : Nat)
  | awaiting (attempt : Nat)
  | backingOff (attempt : Nat) (wake : K)
  | returned (result : Except Text (Response Body))

/-- A grant or a request: the call, its attempt, and the time. -/
structure Event (K : Type) where
  call : Nat
  attempt : Nat
  time : K

def Event.key (e : Event K) : Nat × Nat := (e.call, e.attempt)

structure ClientState (K Body : Type) where
  now : K
  rate : Bucket K
  calls : Nat → Posting K Body
  grants : List (Event K)
  posts : List (Event K)

inductive ClientAction (K : Type) where
  | tick (time : K)
  | start (call : Nat)
  | pass (call : Nat)
  | wake (call : Nat)
  | post (call : Nat)
  | answer (call : Nat)
  | resume (call : Nat)

variable {Body : Type}

def ClientState.init (burst : Nat) (now : K) : ClientState K Body where
  now := now
  rate := ⟨now, (max burst 1 : Nat)⟩
  calls _ := .idle
  grants := []
  posts := []

def ClientState.setCall (s : ClientState K Body) (i : Nat) (call : Posting K Body) :
    ClientState K Body :=
  { s with calls := Function.update s.calls i call }

omit [Field K] [LinearOrder K] in
theorem ClientState.setCall_self (s : ClientState K Body) (i : Nat) (call : Posting K Body) :
    (s.setCall i call).calls i = call := Function.update_self ..

omit [Field K] [LinearOrder K] in
theorem ClientState.setCall_other (s : ClientState K Body) {i j : Nat} (h : j ≠ i)
    (call : Posting K Body) : (s.setCall i call).calls j = s.calls j := Function.update_of_ne h ..

/-- The state after a step, where `send i` gives the outcomes of the attempts of call `i`. -/
def clientStep (limits : RateLimits K) (send : Nat → Attempts Body) (s : ClientState K Body) :
    ClientAction K → Option (ClientState K Body)
  | .tick time => if 0 ≤ time then some { s with now := s.now + time } else none
  | .start i =>
    match s.calls i with
    | .idle => some (s.setCall i (.acquiring 0))
    | _ => none
  | .pass i =>
    match s.calls i with
    | .acquiring n =>
      if limits.qps ≤ 0 then some (s.setCall i (.granted n))
      else
        match acquirePass limits s.now s.rate with
        | (none, rate) => some { s.setCall i (.granted n) with
            rate := rate, grants := ⟨i, n, s.now⟩ :: s.grants }
        | (some wait, rate) => some { s.setCall i (.throttled n (s.now + wait)) with rate := rate }
    | _ => none
  | .wake i =>
    match s.calls i with
    | .throttled n wake => if wake ≤ s.now then some (s.setCall i (.acquiring n)) else none
    | _ => none
  | .post i =>
    match s.calls i with
    | .granted n => some { s.setCall i (.awaiting n) with posts := ⟨i, n, s.now⟩ :: s.posts }
    | _ => none
  | .answer i =>
    match s.calls i with
    | .awaiting n =>
      match send i n with
      | .error e => some (s.setCall i (.returned (.error e)))
      | .ok response =>
        if ¬response.retryable ∨ n = 2 then some (s.setCall i (.returned (.ok response)))
        else some (s.setCall i (.backingOff n (s.now + (50 * (n + 1) : Nat) / 1000)))
    | _ => none
  | .resume i =>
    match s.calls i with
    | .backingOff n wake => if wake ≤ s.now then some (s.setCall i (.acquiring (n + 1))) else none
    | _ => none

abbrev clientRun (limits : RateLimits K) (send : Nat → Attempts Body) (s : ClientState K Body)
    (actions : List (ClientAction K)) : Option (ClientState K Body) :=
  runFrom (clientStep limits send) s actions

/-! ### What each step does -/

/-- The steps of call `i` that touch nothing but the call. -/
inductive Advances (limits : RateLimits K) (send : Nat → Attempts Body) (now : K) (i : Nat) :
    Posting K Body → Posting K Body → Prop
  | start : Advances limits send now i .idle (.acquiring 0)
  | unlimited {n : Nat} (h : limits.qps ≤ 0) :
      Advances limits send now i (.acquiring n) (.granted n)
  | wake {n : Nat} {wake : K} : Advances limits send now i (.throttled n wake) (.acquiring n)
  | fail {n : Nat} {e : Text} (h : send i n = .error e) :
      Advances limits send now i (.awaiting n) (.returned (.error e))
  | finish {n : Nat} {response : Response Body} (h : send i n = .ok response)
      (hlast : ¬response.retryable ∨ n = 2) :
      Advances limits send now i (.awaiting n) (.returned (.ok response))
  | retry {n : Nat} {response : Response Body} {wake : K} (h : send i n = .ok response)
      (hretry : response.retryable) (hn : n ≠ 2) :
      Advances limits send now i (.awaiting n) (.backingOff n wake)
  | resume {n : Nat} {wake : K} :
      Advances limits send now i (.backingOff n wake) (.acquiring (n + 1))

inductive Moves (limits : RateLimits K) (send : Nat → Attempts Body) (s : ClientState K Body) :
    ClientState K Body → Prop
  | tick {time : K} (h : 0 ≤ time) : Moves limits send s { s with now := s.now + time }
  | call {i : Nat} {call : Posting K Body}
      (h : Advances limits send s.now i (s.calls i) call) : Moves limits send s (s.setCall i call)
  | grant {i n : Nat} {rate : Bucket K} (hcall : s.calls i = .acquiring n)
      (h : acquirePass limits s.now s.rate = (none, rate)) :
      Moves limits send s { s.setCall i (.granted n) with
        rate := rate, grants := ⟨i, n, s.now⟩ :: s.grants }
  | refuse {i n : Nat} {wait : K} {rate : Bucket K} (hcall : s.calls i = .acquiring n)
      (h : acquirePass limits s.now s.rate = (some wait, rate)) :
      Moves limits send s { s.setCall i (.throttled n (s.now + wait)) with rate := rate }
  | post {i n : Nat} (hcall : s.calls i = .granted n) :
      Moves limits send s { s.setCall i (.awaiting n) with posts := ⟨i, n, s.now⟩ :: s.posts }

variable {limits : RateLimits K} {send : Nat → Attempts Body} {s s' : ClientState K Body}

theorem clientStep_moves {action : ClientAction K} (h : clientStep limits send s action = some s') :
    Moves limits send s s' := by
  cases action with
  | tick time =>
    simp only [clientStep, Option.ite_none_right_eq_some, Option.some.injEq] at h
    obtain ⟨htime, rfl⟩ := h
    exact .tick htime
  | start i =>
    simp only [clientStep] at h
    split at h
    · rename_i hcall
      obtain rfl := Option.some.inj h
      exact .call (hcall ▸ .start)
    · contradiction
  | pass i =>
    simp only [clientStep] at h
    split at h
    · rename_i n hcall
      split at h
      · rename_i hqps
        obtain rfl := Option.some.inj h
        exact .call (hcall ▸ .unlimited hqps)
      split at h
      · rename_i rate hpass
        obtain rfl := Option.some.inj h
        exact .grant hcall hpass
      · rename_i wait rate hpass
        obtain rfl := Option.some.inj h
        exact .refuse hcall hpass
    · contradiction
  | wake i =>
    simp only [clientStep] at h
    split at h
    · rename_i n wake hcall
      simp only [Option.ite_none_right_eq_some, Option.some.injEq] at h
      obtain ⟨-, rfl⟩ := h
      exact .call (hcall ▸ .wake)
    · contradiction
  | post i =>
    simp only [clientStep] at h
    split at h
    · rename_i n hcall
      obtain rfl := Option.some.inj h
      exact .post hcall
    · contradiction
  | answer i =>
    simp only [clientStep] at h
    split at h
    · rename_i n hcall
      split at h
      · rename_i e hsend
        obtain rfl := Option.some.inj h
        exact .call (hcall ▸ .fail hsend)
      · rename_i response hsend
        split at h
        · rename_i hlast
          obtain rfl := Option.some.inj h
          exact .call (hcall ▸ .finish hsend hlast)
        · rename_i hretry
          rw [not_or, not_not] at hretry
          obtain rfl := Option.some.inj h
          exact .call (hcall ▸ .retry hsend hretry.1 hretry.2)
    · contradiction
  | resume i =>
    simp only [clientStep] at h
    split at h
    · rename_i n wake hcall
      simp only [Option.ite_none_right_eq_some, Option.some.injEq] at h
      obtain ⟨-, rfl⟩ := h
      exact .call (hcall ▸ .resume)
    · contradiction

/-! ### What holds of one call -/

/-- The attempt that the loop of a call goes on with. -/
def Posting.attempt : Posting K Body → Option Nat
  | .acquiring n | .throttled n _ | .granted n | .awaiting n => some n
  | .backingOff n _ => some (n + 1)
  | .idle | .returned _ => none

/-- The attempts of a call that may have been sent are those below this one. -/
def Posting.sent : Posting K Body → Nat
  | .idle => 0
  | .acquiring n | .throttled n _ | .granted n => n
  | .awaiting n | .backingOff n _ => n + 1
  | .returned _ => 3

/-- Call `i` follows `requestWithRetry` on its outcomes: what is left of it is the loop from its
attempt on. -/
structure Follows (send : Nat → Attempts Body) (i : Nat) (call : Posting K Body) : Prop where
  attempt : ∀ n, call.attempt = some n →
    n ≤ 2 ∧ requestWithRetry (send i) = retryLoop (send i) n (2 - n)
  returned : ∀ result, call = .returned result → requestWithRetry (send i) = result

omit [Field K] [LinearOrder K] in
theorem Follows.same {i n : Nat} {call call' : Posting K Body} (h : Follows send i call)
    (hcall : call.attempt = some n) (hcall' : call'.attempt = some n) : Follows send i call' := by
  constructor
  · intro m hm
    obtain rfl := Option.some.inj (hcall'.symm.trans hm)
    exact h.attempt n hcall
  · rintro result rfl
    contradiction

theorem retryLoop_last {attempts : Attempts Body} {n left : Nat} {response : Response Body}
    (h : attempts n = .ok response) (hlast : ¬response.retryable ∨ left = 0) :
    retryLoop attempts n left = .ok response := by
  cases left with
  | zero => exact h
  | succ left => simp [retryLoop, h, hlast.resolve_right (Nat.succ_ne_zero left)]

theorem Advances.follows {now : K} {i : Nat} {call call' : Posting K Body}
    (hfollows : Follows send i call) (h : Advances limits send now i call call') :
    Follows send i call' := by
  cases h with
  | start =>
    refine ⟨fun n hn => ?_, nofun⟩
    obtain rfl := Option.some.inj hn
    exact ⟨by decide, rfl⟩
  | unlimited h => exact hfollows.same rfl rfl
  | wake => exact hfollows.same rfl rfl
  | @fail n e h =>
    refine ⟨nofun, fun result hresult => ?_⟩
    obtain rfl := Posting.returned.inj hresult
    rw [(hfollows.attempt n rfl).2]
    cases 2 - n with
    | zero => exact h
    | succ left => simp only [retryLoop, h]
  | @finish n response h hlast =>
    refine ⟨nofun, fun result hresult => ?_⟩
    obtain rfl := Posting.returned.inj hresult
    rw [(hfollows.attempt n rfl).2]
    exact retryLoop_last h (hlast.imp_right fun hn => by omega)
  | @retry n response wake h hretry hn =>
    obtain ⟨hle, hloop⟩ := hfollows.attempt n rfl
    refine ⟨fun m hm => ?_, nofun⟩
    obtain rfl := Option.some.inj hm
    refine ⟨by omega, ?_⟩
    rw [hloop, show 2 - n = 2 - (n + 1) + 1 by omega]
    simp only [retryLoop, h, hretry, if_true]
  | resume => exact hfollows.same rfl rfl

/-! ### What holds of every run -/

/-- What holds after every run from the creation of the client at `t0`: the bucket accounts for the
grants, every request has a grant of its own, and every call follows `requestWithRetry`. -/
structure ClientInv (limits : RateLimits K) (send : Nat → Attempts Body) (t0 : K)
    (s : ClientState K Body) : Prop where
  metered : s.rate.Metered limits.qps limits.burst (s.grants.map Event.time)
  clock : s.rate.last ≤ s.now
  created : t0 ≤ s.now ∧ ∀ g ∈ s.grants, t0 ≤ g.time
  follows : ∀ i, Follows send i (s.calls i)
  granted : ∀ i n, s.calls i = .granted n → ∃ g ∈ s.grants, g.key = (i, n)
  covered : ∀ p ∈ s.posts, ∃ g ∈ s.grants, g.key = p.key ∧ g.time ≤ p.time
  sent : ∀ p ∈ s.posts, p.attempt < (s.calls p.call).sent
  distinct : (s.posts.map Event.key).Nodup

omit [Field K] [LinearOrder K] in
theorem Follows.sent_le {i : Nat} {call : Posting K Body} (h : Follows send i call) :
    call.sent ≤ 3 := by
  cases call with
  | idle => exact Nat.zero_le 3
  | returned result => exact le_rfl
  | acquiring n | throttled n wake | granted n =>
    have := (h.attempt n rfl).1
    exact this.trans (by decide)
  | awaiting n =>
    have := (h.attempt n rfl).1
    exact Nat.succ_le_succ this
  | backingOff n wake =>
    have := (h.attempt (n + 1) rfl).1
    exact this.trans (by decide)

theorem Advances.sent {now : K} {i : Nat} {call call' : Posting K Body}
    (hfollows : Follows send i call) (h : Advances limits send now i call call') :
    call.sent ≤ call'.sent := by
  cases h with
  | start | unlimited | wake | resume | retry => exact le_rfl
  | fail | finish => exact hfollows.sent_le

variable {t0 : K}

/-- Moving a call on keeps the invariant, when the call then has a grant where it needs one. -/
theorem ClientInv.setCall {i : Nat} {call : Posting K Body} (h : ClientInv limits send t0 s)
    (hfollows : Follows send i call) (hsent : (s.calls i).sent ≤ call.sent)
    (hgranted : ∀ n, call = .granted n → ∃ g ∈ s.grants, g.key = (i, n)) :
    ClientInv limits send t0 (s.setCall i call) := by
  refine ⟨h.metered, h.clock, h.created, ?_, ?_, h.covered, ?_, h.distinct⟩
  · intro j
    by_cases hj : j = i
    · rw [hj, s.setCall_self]
      exact hfollows
    · rw [s.setCall_other hj]
      exact h.follows j
  · intro j n hcall
    by_cases hj : j = i
    · rw [hj, s.setCall_self] at hcall
      rw [hj]
      exact hgranted n hcall
    · rw [s.setCall_other hj] at hcall
      exact h.granted j n hcall
  · intro p hp
    have hbefore := h.sent p hp
    by_cases hj : p.call = i
    · rw [hj] at hbefore ⊢
      rw [s.setCall_self]
      exact hbefore.trans_le hsent
    · rwa [s.setCall_other hj]

theorem ClientInv.post {i n : Nat} (h : ClientInv limits send t0 s)
    (hcall : s.calls i = .granted n) :
    ClientInv limits send t0
      { s.setCall i (.awaiting n) with posts := ⟨i, n, s.now⟩ :: s.posts } := by
  have hfollows : Follows send i (.awaiting n) := (hcall ▸ h.follows i).same rfl rfl
  have hmoved := h.setCall hfollows (by rw [hcall]; exact Nat.le_succ n) nofun
  refine ⟨h.metered, h.clock, h.created, hmoved.follows, hmoved.granted, ?_, ?_, ?_⟩
  · rw [List.forall_mem_cons]
    refine ⟨?_, h.covered⟩
    obtain ⟨g, hg, hkey⟩ := h.granted i n hcall
    exact ⟨g, hg, hkey, (h.metered.past g.time (List.mem_map_of_mem hg)).trans h.clock⟩
  · rw [List.forall_mem_cons]
    refine ⟨?_, hmoved.sent⟩
    show n < ((s.setCall i (.awaiting n)).calls i).sent
    rw [s.setCall_self]
    exact Nat.lt_succ_self n
  · rw [List.map_cons, List.nodup_cons]
    refine ⟨fun hmem => ?_, h.distinct⟩
    -- the attempts sent before are below this one
    obtain ⟨p, hp, hkey⟩ := List.mem_map.mp hmem
    obtain ⟨hpcall, hpattempt⟩ := Prod.mk.inj hkey
    have hlt := h.sent p hp
    rw [hpcall, hcall, hpattempt] at hlt
    exact lt_irrefl n hlt

/-- The events from `a` to `b`. -/
def eventsIn (events : List (Event K)) (a b : K) : List (Event K) :=
  events.filter fun e => a ≤ e.time ∧ e.time ≤ b

omit [Field K] in
theorem granted_times (events : List (Event K)) (a b : K) :
    Bucket.granted (events.map Event.time) a b = (eventsIn events a b).length := by
  rw [Bucket.granted, List.countP_map, List.countP_eq_length_filter]
  rfl

/-- The requests sent by `t` are at most the grants by then: each has its own. -/
theorem ClientInv.posts_le (h : ClientInv limits send t0 s) (t : K) :
    (s.posts.filter (·.time ≤ t)).length ≤ (eventsIn s.grants t0 t).length := by
  have hnodup : ((s.posts.filter (·.time ≤ t)).map Event.key).Nodup :=
    h.distinct.sublist (List.filter_sublist.map _)
  have hsubset : (s.posts.filter (·.time ≤ t)).map Event.key ⊆
      (eventsIn s.grants t0 t).map Event.key := by
    intro key hkey
    obtain ⟨p, hp, rfl⟩ := List.mem_map.mp hkey
    obtain ⟨hmem, htime⟩ := List.mem_filter.mp hp
    obtain ⟨g, hg, hsame, hle⟩ := h.covered p hmem
    rw [← hsame]
    refine List.mem_map_of_mem (List.mem_filter.mpr ⟨hg, ?_⟩)
    exact decide_eq_true ⟨h.created.2 g hg, hle.trans (of_decide_eq_true htime)⟩
  have hlen := (List.subperm_of_subset hnodup hsubset).length_le
  rwa [List.length_map, List.length_map] at hlen

theorem ClientInv.posts_of_call (h : ClientInv limits send t0 s) (i : Nat) :
    (s.posts.filter (·.call = i)).length ≤ 3 := by
  have hnodup : ((s.posts.filter (·.call = i)).map Event.key).Nodup :=
    h.distinct.sublist (List.filter_sublist.map _)
  have hsubset : (s.posts.filter (·.call = i)).map Event.key ⊆ [(i, 0), (i, 1), (i, 2)] := by
    intro key hkey
    obtain ⟨p, hp, rfl⟩ := List.mem_map.mp hkey
    obtain ⟨hmem, hcall⟩ := List.mem_filter.mp hp
    obtain rfl := of_decide_eq_true hcall
    have hlt := (h.sent p hmem).trans_le (h.follows p.call).sent_le
    have hcases : p.attempt = 0 ∨ p.attempt = 1 ∨ p.attempt = 2 := by omega
    rcases hcases with h0 | h1 | h2
    · simp [Event.key, h0]
    · simp [Event.key, h1]
    · simp [Event.key, h2]
  have hlen := (List.subperm_of_subset hnodup hsubset).length_le
  rwa [List.length_map] at hlen

section

variable [IsStrictOrderedRing K]

theorem ClientInv.init {qps : K} (hqps : 0 ≤ qps) (burst : Nat) :
    ClientInv (rateLimits qps burst) send t0 (ClientState.init burst t0) where
  metered := Bucket.Metered.full hqps (Nat.cast_nonneg _) t0
  clock := le_rfl
  created := ⟨le_rfl, by simp [ClientState.init]⟩
  follows i := ⟨nofun, nofun⟩
  granted := nofun
  covered := nofun
  sent := nofun
  distinct := List.nodup_nil

theorem ClientInv.tick {time : K} (h : ClientInv limits send t0 s) (htime : 0 ≤ time) :
    ClientInv limits send t0 { s with now := s.now + time } :=
  ⟨h.metered, h.clock.trans (le_add_of_nonneg_right htime),
    ⟨h.created.1.trans (le_add_of_nonneg_right htime), h.created.2⟩, h.follows, h.granted,
    h.covered, h.sent, h.distinct⟩

/-- A pass through the bucket keeps the invariant: the clock has not run backwards since the last
one. -/
theorem ClientInv.refuse {wait : K} {rate : Bucket K} (h : ClientInv limits send t0 s)
    (hqps : 0 ≤ limits.qps) (hpass : acquirePass limits s.now s.rate = (some wait, rate)) :
    ClientInv limits send t0 { s with rate := rate } := by
  have hrefill := h.metered.refill hqps h.clock
  simp only [acquirePass] at hpass
  split at hpass
  · simp at hpass
  · obtain rfl := (Prod.mk.inj hpass).2
    exact ⟨hrefill, le_rfl, h.created, h.follows, h.granted, h.covered, h.sent, h.distinct⟩

theorem ClientInv.grant {i n : Nat} {rate : Bucket K} (h : ClientInv limits send t0 s)
    (hqps : 0 ≤ limits.qps) (hpass : acquirePass limits s.now s.rate = (none, rate)) :
    ClientInv limits send t0 { s with rate := rate, grants := ⟨i, n, s.now⟩ :: s.grants } := by
  have hrefill := h.metered.refill hqps h.clock
  simp only [acquirePass] at hpass
  split at hpass
  · rename_i hlevel
    obtain rfl := (Prod.mk.inj hpass).2
    refine ⟨hrefill.take hqps hlevel, le_rfl, ⟨h.created.1, ?_⟩, h.follows, ?_, ?_, h.sent,
      h.distinct⟩
    · rw [List.forall_mem_cons]
      exact ⟨h.created.1, h.created.2⟩
    · intro j m hcall
      obtain ⟨g, hg, hkey⟩ := h.granted j m hcall
      exact ⟨g, List.mem_cons_of_mem _ hg, hkey⟩
    · intro p hp
      obtain ⟨g, hg, hkey⟩ := h.covered p hp
      exact ⟨g, List.mem_cons_of_mem _ hg, hkey⟩
  · simp at hpass

theorem moves_inv (hqps : 0 < limits.qps) (h : ClientInv limits send t0 s)
    (hmoves : Moves limits send s s') : ClientInv limits send t0 s' := by
  cases hmoves with
  | tick htime => exact h.tick htime
  | @call i call hadvances =>
    refine h.setCall (hadvances.follows (h.follows i)) (hadvances.sent (h.follows i)) ?_
    rintro n rfl
    cases hcall : s.calls i with
    | acquiring m =>
      rw [hcall] at hadvances
      cases hadvances with
      | unlimited hfree => exact absurd hqps (not_lt.mpr hfree)
    | _ =>
      rw [hcall] at hadvances
      cases hadvances
  | @grant i n rate hcall hpass =>
    have hgranted := h.grant (i := i) (n := n) hqps.le hpass
    refine hgranted.setCall ((hcall ▸ h.follows i).same rfl rfl) (by rw [hcall]; exact le_rfl) ?_
    intro m hm
    obtain rfl := Posting.granted.inj hm
    exact ⟨_, List.mem_cons_self, rfl⟩
  | @refuse i n wait rate hcall hpass =>
    have hrefused := h.refuse hqps.le hpass
    exact hrefused.setCall ((hcall ▸ h.follows i).same rfl rfl) (by rw [hcall]; exact le_rfl) nofun
  | post hcall => exact h.post hcall

theorem clientRun_inv (hqps : 0 < limits.qps) (h : ClientInv limits send t0 s)
    {actions : List (ClientAction K)} (hrun : clientRun limits send s actions = some s') :
    ClientInv limits send t0 s' :=
  runFrom_invariant (fun hinv hstep => moves_inv hqps hinv (clientStep_moves hstep)) h hrun

/-- A call that runs among others returns what `requestWithRetry` returns on its outcomes. -/
theorem clientRun_returned {qps : K} (hqps : 0 < qps) (burst : Nat)
    {actions : List (ClientAction K)}
    (hrun : clientRun (rateLimits qps burst) send (.init burst t0) actions = some s) {i : Nat}
    {result : Except Text (Response Body)} (hcall : s.calls i = .returned result) :
    requestWithRetry (send i) = result :=
  ((clientRun_inv hqps (ClientInv.init hqps.le burst)
    hrun).follows i).returned result hcall

/-- In every run of calls from the creation of the client at `t0`, the bucket holds no less than
nothing and no more than its capacity, every window of time has at most the grants of a full bucket
and its inflow, every request has a grant of its own, a call sends at most three, and the requests
sent by `t` are at most those of a full bucket and the inflow since `t0`. -/
theorem acquire_rate_limit {qps : K} (hqps : 0 < qps) (burst : Nat)
    {actions : List (ClientAction K)}
    (hrun : clientRun (rateLimits qps burst) send (.init burst t0) actions = some s) :
    (0 ≤ s.rate.level ∧ s.rate.level ≤ (max burst 1 : Nat)) ∧
    (∀ a b, a ≤ b → ((eventsIn s.grants a b).length : K) ≤ (max burst 1 : Nat) + qps * (b - a)) ∧
    ((s.posts.map Event.key).Nodup ∧
      ∀ p ∈ s.posts, ∃ g ∈ s.grants, g.key = p.key ∧ g.time ≤ p.time) ∧
    (∀ i, (s.posts.filter (·.call = i)).length ≤ 3) ∧
    ∀ t, t0 ≤ t →
      ((s.posts.filter (·.time ≤ t)).length : K) ≤ (max burst 1 : Nat) + qps * (t - t0) := by
  have hinv := clientRun_inv hqps
    (ClientInv.init hqps.le burst) hrun
  have hwindow : ∀ a b, a ≤ b →
      ((eventsIn s.grants a b).length : K) ≤ (max burst 1 : Nat) + qps * (b - a) := by
    intro a b hab
    rw [← granted_times]
    exact hinv.metered.window a b hab
  refine ⟨⟨hinv.metered.nonneg, hinv.metered.capped⟩, hwindow, ⟨hinv.distinct, hinv.covered⟩,
    hinv.posts_of_call, fun t ht => ?_⟩
  have hposts : ((s.posts.filter (·.time ≤ t)).length : K) ≤ (eventsIn s.grants t0 t).length :=
    Nat.cast_le.mpr (hinv.posts_le t)
  exact hposts.trans (hwindow t0 t ht)

end

end

def created : Attempts Unit := fun _ => .ok ⟨201, "201 Created".toList, .ok ()⟩

/-- The second call is refused a grant, sleeps, and is granted one. -/
def twoCalls : List (ClientAction ℚ) :=
  [.start 0, .start 1, .pass 0, .pass 1, .post 0, .answer 0, .tick 2, .wake 1, .pass 1, .post 1]

theorem acquire_rate_limit_two : ∃ s,
    clientRun (rateLimits (1 / 2) 1) (fun _ => created) (.init 1 0) twoCalls = some s ∧
      ((s.posts.filter (·.time ≤ 2)).length : ℚ) ≤ (max 1 1 : Nat) + 1 / 2 * (2 - 0) := by
  have hruns : (clientRun (rateLimits (1 / 2 : ℚ) 1) (fun _ => created) (.init 1 0)
      twoCalls).isSome = true := by
    decide +kernel
  obtain ⟨s, hs⟩ := Option.isSome_iff_exists.mp hruns
  exact ⟨s, hs, (acquire_rate_limit (by norm_num) 1 hs).2.2.2.2 2 (by norm_num)⟩

end KubeRbacProxy
