import KubeRbacProxy.Kube.AccessCache
import KubeRbacProxy.Kube.TokenCache
import KubeRbacProxy.Library.ReviewOrder

/-! Stale verdicts in the two caches.  `authorize` and `authenticate` store what they were answered
without a look at what was stored meanwhile, so a revoked permission can come back for another 30
seconds.  Only a call that was in flight at the time brings it back. -/

namespace KubeRbacProxy

open Library ReviewCache

/-- Calls on the same authenticator that share a key ask for the same review. -/
theorem tokenScheme_sharing (audiences : List Text) (r : BearerRequest) :
    sharing (tokenScheme audiences) r = Set.univ := by
  apply Set.eq_univ_of_forall
  intro b (h : b.token = r.token)
  show TokenSpec.mk b.token audiences = ⟨r.token, audiences⟩
  rw [h]

/-- In every run, a verdict stored over that of a review sent after it was answered is that of a
call which was in flight when the review was sent; and a call that starts after another has returned
a verdict for the same record or token returns another verdict only on a review that was sent after
that, or by a call in flight then.  In runs in which no call goes on to a review while another one
for the key is in flight, no stale verdict is stored, and the review was sent after the return. -/
theorem reviews_ordered (now : Nat) : (∀ attrs, Ordered accessScheme now attrs) ∧
    ∀ audiences r, sharing (tokenScheme audiences) r = Set.univ ∧
      Ordered (tokenScheme audiences) now r := by
  constructor
  · intro attrs
    exact ordered now attrs
  · intro audiences r
    exact ⟨tokenScheme_sharing audiences r, ordered now r⟩

def denying : Attempts AccessResponse := fun _ =>
  .ok ⟨201, "201 Created".toList, .ok ⟨some ⟨some false⟩⟩⟩

/-- A permission that is revoked between two reviews: the call with the older answer stores it over
the newer one, and a call after the denial is allowed. -/
theorem authorize_overtaken :
    ¬StoresInOrder accessScheme 0 (Any accessScheme (podRecord "own")) (podRecord "own")
        (fun _ => False) ∧
      ¬VerdictsHold accessScheme 0 (Any accessScheme (podRecord "own")) (podRecord "own")
        Call.Unanswered := by
  have hallow : accessScheme.judge allowing = .ok true := rfl
  have hdeny : accessScheme.judge denying = .ok false := rfl
  exact overtaken 0 (podRecord "own") hallow hdeny (by decide) (by decide)

end KubeRbacProxy
