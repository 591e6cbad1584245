import KubeRbacProxy.Main.Validate

/-! The provider of TLS: the cipher suites of the default provider, less those below the minimum
version and those that are not named.  The suites of the default provider are a parameter. -/

namespace KubeRbacProxy

open Library

/-- A suite under the name of its debug format. -/
structure CipherSuite where
  name : Text
  tls13 : Bool
  deriving DecidableEq

/-- What `provider_for` retains. -/
def CipherSuite.retained (minVersion : Text) (cipherNames : List Text) (suite : CipherSuite) :
    Bool :=
  (decide (minVersion ≠ "VersionTLS13".toList) || suite.tls13) &&
    (cipherNames.isEmpty || cipherNames.contains suite.name)

section Provider

variable (suites : List CipherSuite) (minVersion : Text) (cipherNames : List Text)

def providerFor : Except Text (List CipherSuite) :=
  match suites.filter (·.retained minVersion cipherNames) with
  | [] => .error "TLS settings select no supported cipher suites".toList
  | suite :: rest => .ok (suite :: rest)

/-- `installed` is the provider that the process has for its default; without one, that is the
default provider of the library. -/
def installProvider (installed : Option (List CipherSuite)) :
    Except Text (Option (List CipherSuite)) :=
  if minVersion = "VersionTLS12".toList ∧ cipherNames = [] then .ok installed
  else
    match providerFor suites minVersion cipherNames, installed with
    | .error e, _ => .error e
    | .ok _, some _ => .error "TLS crypto provider was already installed".toList
    | .ok kept, none => .ok (some kept)

/-- The settings leave the suite in. -/
structure CipherSuite.Allowed (suite : CipherSuite) : Prop where
  version : minVersion = "VersionTLS13".toList → suite.tls13 = true
  name : cipherNames ≠ [] → suite.name ∈ cipherNames

variable {suites minVersion cipherNames}

theorem retained_iff {suite : CipherSuite} :
    suite.retained minVersion cipherNames = true ↔ suite.Allowed minVersion cipherNames := by
  simp only [CipherSuite.retained, Bool.and_eq_true, Bool.or_eq_true, decide_eq_true_eq,
    List.isEmpty_iff, List.contains_iff_mem]
  exact ⟨fun h => ⟨fun heq => h.1.resolve_left (not_not.mpr heq), h.2.resolve_left⟩,
    fun h => ⟨not_or_of_imp h.version, or_iff_not_imp_left.mpr h.name⟩⟩

theorem providerFor_ok {kept : List CipherSuite} :
    providerFor suites minVersion cipherNames = .ok kept ↔
      kept = suites.filter (·.retained minVersion cipherNames) ∧ kept ≠ [] := by
  unfold providerFor
  split
  · rename_i hnil
    simp [hnil]
  · rename_i suite rest hcons
    rw [hcons, Except.ok.injEq, eq_comm (b := suite :: rest)]
    exact ⟨fun h => ⟨h, h ▸ List.cons_ne_nil suite rest⟩, And.left⟩

theorem providerFor_error {e : Text} (h : providerFor suites minVersion cipherNames = .error e) :
    ∀ suite ∈ suites, ¬suite.Allowed minVersion cipherNames := by
  unfold providerFor at h
  split at h
  · rename_i hnil
    intro suite hsuite hallowed
    exact List.filter_eq_nil_iff.mp hnil suite hsuite (retained_iff.mpr hallowed)
  · contradiction

theorem allowed_default (suite : CipherSuite) : suite.Allowed "VersionTLS12".toList [] where
  version h := absurd h (by decide)
  name h := absurd rfl h

/-- What is installed over nothing leaves just the allowed suites in use, and it is not empty. -/
theorem installProvider_ok {installed : Option (List CipherSuite)}
    (h : installProvider suites minVersion cipherNames none = .ok installed) :
    (∀ suite, suite ∈ installed.getD suites ↔
      suite ∈ suites ∧ suite.Allowed minVersion cipherNames) ∧ installed ≠ some [] := by
  unfold installProvider at h
  split at h
  · rename_i hdefault
    obtain ⟨rfl, rfl⟩ := hdefault
    obtain rfl := Except.ok.inj h
    exact ⟨fun suite => (and_iff_left (allowed_default suite)).symm, by simp⟩
  · cases hfor : providerFor suites minVersion cipherNames with
    | error e =>
      rw [hfor] at h
      contradiction
    | ok kept =>
      rw [hfor] at h
      obtain rfl := Except.ok.inj h
      obtain ⟨rfl, hne⟩ := providerFor_ok.mp hfor
      refine ⟨fun suite => ?_, by simpa using hne⟩
      rw [Option.getD_some, List.mem_filter, retained_iff]

theorem installProvider_error {e : Text}
    (h : installProvider suites minVersion cipherNames none = .error e) :
    ∀ suite ∈ suites, ¬suite.Allowed minVersion cipherNames := by
  unfold installProvider at h
  split at h
  · contradiction
  · cases hfor : providerFor suites minVersion cipherNames with
    | error e' => exact providerFor_error hfor
    | ok kept =>
      rw [hfor] at h
      contradiction

end Provider

end KubeRbacProxy
