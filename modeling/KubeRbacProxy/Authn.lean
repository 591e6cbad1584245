import KubeRbacProxy.Http
import KubeRbacProxy.Types

/-! Authenticators and their chain.  An authenticator reads a request and answers with an identity,
with none when the request carries no credential of its kind, or with an error. -/

namespace KubeRbacProxy

open Library

abbrev Authenticator := Request → Except Text (Option Identity)

/-- The first identity that an authenticator of the chain finds; an error ends the search. -/
def authenticateChain : List Authenticator → Authenticator
  | [], _ => .ok none
  | authenticator :: rest, request =>
    match authenticator request with
    | .error e => .error e
    | .ok (some identity) => .ok (some identity)
    | .ok none => authenticateChain rest request

def Authenticator.finds (authenticator : Authenticator) (request : Request) : Option Identity :=
  match authenticator request with
  | .ok found => found
  | .error _ => none

/-- The chain finds what the first of its authenticators to find anything finds alone. -/
def Composes (chain : List Authenticator) (request : Request) : Prop :=
  authenticateChain chain request = .ok (chain.findSome? (·.finds request))

theorem composes_nil (request : Request) : Composes [] request := rfl

/-- An authenticator that fails alone fails the chain, whatever those after it would find. -/
theorem composes_cons {a : Authenticator} {rest : List Authenticator} {request : Request} :
    Composes (a :: rest) request ↔
      (∃ identity, a request = .ok (some identity)) ∨
        (a request = .ok none ∧ Composes rest request) := by
  simp only [Composes, authenticateChain, List.findSome?_cons, Authenticator.finds]
  cases a request with
  | error e => simp
  | ok found => cases found <;> simp

theorem composes_cons_iff_ok {a : Authenticator} {rest : List Authenticator} {request : Request}
    (hrest : Composes rest request) :
    Composes (a :: rest) request ↔ ∃ found, a request = .ok found := by
  rw [composes_cons]
  constructor
  · rintro (⟨identity, h⟩ | ⟨h, -⟩)
    · exact ⟨some identity, h⟩
    · exact ⟨none, h⟩
  · rintro ⟨found, h⟩
    cases found with
    | some identity => exact Or.inl ⟨identity, h⟩
    | none => exact Or.inr ⟨h, hrest⟩

end KubeRbacProxy
