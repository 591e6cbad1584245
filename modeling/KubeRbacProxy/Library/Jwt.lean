import KubeRbacProxy.Library.Text

/-! JSON web tokens as a program sees them through a token library.  `Jwt` is the interface of the
library, `Documented` says what its `decode` does, and `Jwt.ofBasis` is a library that does it.  The
settings of a validation that keep their defaults are left out. -/

namespace Library

inductive Json where
  | null
  | bool (value : Bool)
  | number (literal : Text)
  | string (value : Text)
  | array (values : List Json)
  | object (entries : List (Text × Json))

def Json.get (key : Text) : Json → Option Json
  | .object entries => entries.lookup key
  | _ => none

def Json.asStr : Json → Option Text
  | .string value => some value
  | _ => none

/-- The names under `key`, where the value is a text or a list of texts. -/
def Json.namesUnder (key : Text) (claims : Json) : Option (List Text) :=
  (claims.get key).bind fun value =>
    match value with
    | .string name => some [name]
    | .array values => values.mapM Json.asStr
    | _ => none

namespace Jwt

inductive Algorithm where
  | HS256 | HS384 | HS512
  | ES256 | ES384
  | RS256 | RS384 | RS512
  | PS256 | PS384 | PS512
  | EdDSA
  deriving DecidableEq

structure Header where
  alg : Algorithm
  kid : Option Text

def expClaim : Text := "exp".toList
def nbfClaim : Text := "nbf".toList
def subClaim : Text := "sub".toList
def issClaim : Text := "iss".toList
def audClaim : Text := "aud".toList

structure Validation where
  algorithms : List Algorithm
  requiredSpecClaims : List Text := [expClaim]
  /-- Seconds after its expiry for which a token is still accepted. -/
  leeway : Nat := 60
  aud : Option (List Text) := none
  iss : Option (List Text) := none

def Validation.new (alg : Algorithm) : Validation where
  algorithms := [alg]

def Validation.setAudience (v : Validation) (items : List Text) : Validation :=
  { v with aud := some items }

def Validation.setIssuer (v : Validation) (items : List Text) : Validation :=
  { v with iss := some items }

end Jwt

/-- A token library.  `decode` takes the seconds since the epoch as its last argument. -/
structure Jwt where
  Key : Type
  fromRsaComponents : Text → Text → Option Key
  decodeHeader : Text → Except Text Jwt.Header
  decode : Text → Key → Jwt.Validation → Nat → Except Text Json

namespace Jwt

/-- What `decode` rests on: the claims in the payload of a token, the signatures that verify, and
the numbers that are times in seconds. -/
structure Basis (Key : Type) where
  payload : Text → Option Json
  verifies : Text → Key → Algorithm → Bool
  numericDate : Json → Option Nat

variable {Key : Type} (basis : Basis Key)

def Basis.timeUnder (key : Text) (claims : Json) : Option Nat :=
  (claims.get key).bind basis.numericDate

/-- The claim is there and can be read; names of unregistered claims are ignored. -/
def Basis.present (claims : Json) (claim : Text) : Bool :=
  if claim = expClaim ∨ claim = nbfClaim then (basis.timeUnder claim claims).isSome
  else if claim = subClaim then ((claims.get claim).bind Json.asStr).isSome
  else if claim = issClaim ∨ claim = audClaim then (claims.namesUnder claim).isSome
  else true

/-- The checks on the claims.  Issuers and audiences are compared where the token names them. -/
def Basis.admits (v : Validation) (now : Nat) (claims : Json) : Bool :=
  v.requiredSpecClaims.all (basis.present claims) &&
    (basis.timeUnder expClaim claims).all (fun exp => decide (now ≤ exp + v.leeway)) &&
    (claims.namesUnder issClaim).all (fun names =>
      v.iss.all fun accepted => names.any (accepted.contains ·)) &&
    (claims.namesUnder audClaim).all (fun names =>
      v.aud.any fun accepted => names.any (accepted.contains ·))

/-- `decode` with one algorithm accepts the tokens of that algorithm that verify under the key and
whose claims are admitted. -/
def Documented (lib : Jwt) (basis : Basis lib.Key) : Prop :=
  ∀ token key alg v now claims, v.algorithms = [alg] →
    (lib.decode token key v now = .ok claims ↔
      ∃ header, lib.decodeHeader token = .ok header ∧ header.alg = alg ∧
        basis.verifies token key alg = true ∧ basis.payload token = some claims ∧
        basis.admits v now claims = true)

theorem Basis.admits_single {v : Validation} {issuer audience : Text} {now : Nat} {claims : Json}
    (hrequired : v.requiredSpecClaims = [expClaim]) (hiss : v.iss = some [issuer])
    (haud : v.aud = some [audience]) :
    basis.admits v now claims = true ↔
      (∃ exp, basis.timeUnder expClaim claims = some exp ∧ now ≤ exp + v.leeway) ∧
      (∀ names, claims.namesUnder issClaim = some names → issuer ∈ names) ∧
      ∀ names, claims.namesUnder audClaim = some names → audience ∈ names := by
  have hnames : ∀ (names : List Text) (accepted : Text),
      (names.any fun name => [accepted].contains name) = true ↔ accepted ∈ names := by
    intro names accepted
    simp [List.any_eq_true]
  have hexp : basis.present claims expClaim = (basis.timeUnder expClaim claims).isSome := rfl
  simp only [Basis.admits, hrequired, hiss, haud, List.all_cons, List.all_nil, Bool.and_true, hexp,
    Bool.and_eq_true, Option.all_some, Option.any_some, Option.all_eq_true, hnames,
    decide_eq_true_eq, and_assoc]
  constructor
  · rintro ⟨hsome, htime, hissuer, haudience⟩
    obtain ⟨exp, hexp⟩ := Option.isSome_iff_exists.mp hsome
    exact ⟨⟨exp, hexp, htime exp hexp⟩, hissuer, haudience⟩
  · rintro ⟨⟨exp, hexp, htime⟩, hissuer, haudience⟩
    refine ⟨by rw [hexp]; rfl, fun other hother => ?_, hissuer, haudience⟩
    rw [hexp, Option.some.injEq] at hother
    rwa [← hother]

def ofBasis {Key : Type} (basis : Basis Key) (fromRsaComponents : Text → Text → Option Key)
    (decodeHeader : Text → Except Text Header) : Jwt where
  Key := Key
  fromRsaComponents := fromRsaComponents
  decodeHeader := decodeHeader
  decode token key v now :=
    match decodeHeader token, basis.payload token with
    | .ok header, some claims =>
      if v.algorithms.contains header.alg && basis.verifies token key header.alg &&
          basis.admits v now claims then .ok claims
      else .error "InvalidToken".toList
    | _, _ => .error "InvalidToken".toList

theorem ofBasis_documented (fromRsaComponents : Text → Text → Option Key)
    (decodeHeader : Text → Except Text Header) :
    Documented (ofBasis basis fromRsaComponents decodeHeader) basis := by
  intro token key alg v now claims halg
  simp only [ofBasis, halg]
  cases hheader : decodeHeader token with
  | error e => simp
  | ok header =>
    cases hpayload : basis.payload token with
    | none => simp
    | some payload =>
      simp only [Except.ok.injEq, exists_eq_left', Option.some.injEq, List.contains_cons,
        List.contains_nil, Bool.or_false]
      constructor
      · intro h
        split at h
        · rename_i hchecks
          simp only [Bool.and_eq_true, beq_iff_eq] at hchecks
          obtain ⟨⟨rfl, hverifies⟩, hadmits⟩ := hchecks
          obtain rfl := Except.ok.inj h
          exact ⟨rfl, hverifies, rfl, hadmits⟩
        · contradiction
      · rintro ⟨rfl, hverifies, rfl, hadmits⟩
        simp [hverifies, hadmits]

end Jwt

end Library
