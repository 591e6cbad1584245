import KubeRbacProxy.Oidc.KeyRotation

/-! When a signing key that the issuer no longer lists is accepted for the last time.  A document
from before may still be stored after that; from then on the cache forgets it within an hour, so a
call that begins later finds the key in no document. -/

namespace KubeRbacProxy

open Library

variable {lib : Jwt} {auth : OidcAuthenticator} {s0 s s' : OidcState lib auth} {c time : Nat}

/-- The document lists one of the keys. -/
def Lists (lib : Jwt) (keys : Set lib.Key) (set : JwkSet) : Prop :=
  ∃ kid, ∃ key ∈ keys, Listed lib set kid key

/-- The documents that list one of the keys were fetched by the time of `s0`, and are stored by
`settled` if at all. -/
structure Removed (s0 s : OidcState lib auth) (keys : Set lib.Key) (settled : Nat) : Prop where
  fetched : ∀ entry ∈ s.fetched, Lists lib keys entry.2 → entry ∈ s0.fetched
  stored : ∀ entry ∈ s.stored, Lists lib keys entry.2 → entry.1 ≤ settled

/-- The call looked at the cache at `time` or later, if it has. -/
def OidcCall.StartedFrom (time : Nat) : OidcCall lib auth → Prop
  | .idle | .dismissed _ _ => True
  | .fetching read _ | .storing read _ _ | .judging read _ | .returned read _ =>
    time ≤ read.startedAt

/-- Documents are fetched by calls that were begun. -/
def FetchedByCalls (s : OidcState lib auth) : Prop := ∀ entry ∈ s.fetched, s.calls entry.1 ≠ .idle

/-! ### What each step preserves -/

theorem oidcMoves_now (h : OidcMoves s s') : s.now ≤ s'.now := by
  cases h with
  | tick time => exact Nat.le_add_right _ _
  | dismiss | hit | miss | fail | serve | store | judge => exact le_rfl

theorem oidcMoves_startedFrom (h : OidcMoves s s') (hnow : time ≤ s.now)
    (hcall : (s.calls c).StartedFrom time) : (s'.calls c).StartedFrom time := by
  -- what the moved call is must have started from `time` too
  have moved : ∀ {j call} {s'' : OidcState lib auth}, s''.calls = Function.update s.calls j call →
      ((s.calls j).StartedFrom time → call.StartedFrom time) →
      (s''.calls c).StartedFrom time := by
    intro j call s'' hcalls hnew
    rw [hcalls]
    by_cases hcj : c = j
    · subst hcj
      rw [Function.update_self]
      exact hnew hcall
    · rwa [Function.update_of_ne hcj]
  cases h with
  | tick time => exact hcall
  | dismiss hbefore hread => exact moved rfl fun _ => trivial
  | hit hbefore hread | miss hbefore hread =>
    refine moved rfl fun _ => ?_
    show time ≤ _
    rwa [(readToken_ok hread).2]
  | fail hbefore | serve set hbefore | judge decodedAt hbefore =>
    refine moved rfl fun hstarted => ?_
    rw [hbefore] at hstarted
    exact hstarted
  | store hbefore hnext =>
    refine moved rfl fun hstarted => ?_
    rw [hbefore] at hstarted
    rcases hnext with rfl | rfl <;> exact hstarted

theorem oidcMoves_fetchedByCalls (h : OidcMoves s s') (hs : FetchedByCalls s) :
    FetchedByCalls s' := by
  -- no move makes a call idle
  have kept : ∀ {j call} {s'' : OidcState lib auth}, s''.calls = Function.update s.calls j call →
      call ≠ .idle → ∀ i, s.calls i ≠ .idle → s''.calls i ≠ .idle := by
    intro j call s'' hcalls hcall i hi
    rw [hcalls]
    by_cases hij : i = j
    · subst hij
      rwa [Function.update_self]
    · rwa [Function.update_of_ne hij]
  intro entry hmem
  cases h with
  | tick time => exact hs entry hmem
  | dismiss | hit | miss | fail | judge => exact kept rfl (by simp) _ (hs entry hmem)
  | store hbefore hnext =>
    refine kept rfl ?_ _ (hs entry hmem)
    rcases hnext with rfl | rfl <;> simp
  | @serve i read force set hbefore =>
    rcases List.mem_cons.mp hmem with rfl | hold
    · apply kept rfl (by simp)
      rw [hbefore]
      simp
    · exact kept rfl (by simp) _ (hs entry hold)

theorem oidcRun_fetchedByCalls {now : Nat} {actions : List OidcAction}
    (h : oidcRun (OidcState.init lib auth now) actions = some s) : FetchedByCalls s :=
  oidcRun_induction (fun hs hmoves => oidcMoves_fetchedByCalls hmoves hs)
    (fun _ hmem => absurd hmem List.not_mem_nil) h

/-- A call that begins when the key has been removed, and is out of the cache, has it from no
document. -/
theorem Removed.not_lists {keys : Set lib.Key} {settled : Nat} (h : Removed s0 s keys settled)
    (hs0 : FetchedByCalls s0) (hidle : s0.calls c = .idle) {read : TokenRead lib auth}
    (hstarted : settled + keysTtl ≤ read.startedAt) {set : JwkSet} (hsource : Source s c read set) :
    ¬Lists lib keys set := by
  intro hlists
  rcases hsource with hfetched | ⟨storedAt, hstored, -, hage⟩
  · exact hs0 _ (h.fetched _ hfetched hlists) hidle
  · have hby : storedAt ≤ settled := h.stored _ hstored hlists
    omega

end KubeRbacProxy
