import KubeRbacProxy.Library.Split
import KubeRbacProxy.Kube.TokenCache
import KubeRbacProxy.Proxy.Headers

/-! What an upstream reads from the groups header.  The names of the groups are joined as they are,
so that the list is read back exactly when the separator is found only where it was put. -/

namespace KubeRbacProxy

open Library

/-- The groups in a value of the groups header. -/
def groupsRead (separator : Text) (value : Bytes) : List Text :=
  splitText separator (decodeUtf8Lossy value)

theorem groupsHeader_value {proxy : Proxy} {headers out : HeaderMap} {user : Identity}
    (hauth : proxy.authHeaders = true)
    (h : upstreamRequestFilter proxy headers ⟨some user⟩ = .ok out) :
    out.getAllText proxy.groupsHeader =
      [encodeUtf8 (proxy.groupSeparator.intercalate user.groups)] := by
  have hparse : ∃ name, HeaderName.parse proxy.groupsHeader = some name := by
    simp only [upstreamRequestFilter, hauth] at h
    split at h
    · contradiction
    · obtain ⟨name, hname, -⟩ := insertHeader_ok h
      exact ⟨name, hname⟩
  obtain ⟨name, hname⟩ := hparse
  have hvalue := upstreamRequestFilter_identity hauth h (Or.inr hname)
  rw [identityValue, if_pos hname] at hvalue
  simp only [HeaderMap.getAllText, hname, hvalue]

theorem encodeUtf8_inj {s t : Text} : encodeUtf8 s = encodeUtf8 t ↔ s = t := by
  refine ⟨fun h => ?_, congrArg encodeUtf8⟩
  rw [← decodeUtf8Lossy_encodeUtf8 s, h, decodeUtf8Lossy_encodeUtf8]

/-- The groups header of an identity has its groups exactly when they are separable, and separable
lists with the same header are the same list, up to the empty list and a single empty name. -/
theorem groupsHeader_determines {proxy : Proxy} (hauth : proxy.authHeaders = true)
    (hne : proxy.groupSeparator ≠ []) {headers headers' out out' : HeaderMap}
    {user user' : Identity} (hout : upstreamRequestFilter proxy headers ⟨some user⟩ = .ok out)
    (hout' : upstreamRequestFilter proxy headers' ⟨some user'⟩ = .ok out') :
    (∃ value, out.getAllText proxy.groupsHeader = [value] ∧
      (groupsRead proxy.groupSeparator value = partsRead user.groups ↔
        Separable proxy.groupSeparator user.groups)) ∧
    (Separable proxy.groupSeparator user.groups → Separable proxy.groupSeparator user'.groups →
      (out.getAllText proxy.groupsHeader = out'.getAllText proxy.groupsHeader ↔
        partsRead user.groups = partsRead user'.groups)) := by
  have hsplit := splitText_intercalate_iff hne user.groups
  have hsplit' := splitText_intercalate_iff hne user'.groups
  rw [groupsHeader_value hauth hout, groupsHeader_value hauth hout']
  refine ⟨⟨_, rfl, ?_⟩, fun h h' => ?_⟩
  · rw [groupsRead, decodeUtf8Lossy_encodeUtf8, hsplit]
  · rw [List.singleton_inj, encodeUtf8_inj]
    constructor
    · intro hjoin
      rw [← hsplit.mpr h, hjoin, hsplit'.mpr h']
    · intro hread
      have hjoined : ∀ groups : List Text, proxy.groupSeparator.intercalate (partsRead groups) =
          proxy.groupSeparator.intercalate groups := by
        intro groups
        cases groups <;> rfl
      rw [← hjoined, hread, hjoined]

def developer : Identity := ⟨"dave".toList, ["dev".toList, "admins of dev".toList]⟩

def administrator : Identity := ⟨"dave".toList, ["dev".toList, "admin".toList]⟩

def sentFor (user : Identity) : HeaderMap :=
  (upstreamRequestFilter publicProxy [] ⟨some user⟩).toOption.getD []

theorem groupsHeader_determines_developer :
    (∃ value, (sentFor developer).getAllText publicProxy.groupsHeader = [value] ∧
      (groupsRead publicProxy.groupSeparator value = partsRead developer.groups ↔
        Separable publicProxy.groupSeparator developer.groups)) ∧
    (Separable publicProxy.groupSeparator developer.groups →
      Separable publicProxy.groupSeparator administrator.groups →
      ((sentFor developer).getAllText publicProxy.groupsHeader =
          (sentFor administrator).getAllText publicProxy.groupsHeader ↔
        partsRead developer.groups = partsRead administrator.groups)) :=
  have hdeveloper : upstreamRequestFilter publicProxy [] ⟨some developer⟩ =
      .ok (sentFor developer) := by
    decide +kernel
  have hadministrator : upstreamRequestFilter publicProxy [] ⟨some administrator⟩ =
      .ok (sentFor administrator) := by
    decide +kernel
  groupsHeader_determines rfl (by decide) hdeveloper hadministrator

/-- A user in one group with the separator in its name, and a user in two groups, have the same
headers; the upstream reads two groups for both. -/
theorem groupsHeader_collides :
    tokenReview (reviewOf ⟨"dave".toList, ["dev|admin".toList]⟩) =
      .ok (some ⟨"dave".toList, ["dev|admin".toList]⟩) ∧
    tokenReview (reviewOf administrator) = .ok (some administrator) ∧
    publicProxy.groupSeparator ≠ [] ∧
    ∃ out, upstreamRequestFilter publicProxy [] ⟨some ⟨"dave".toList, ["dev|admin".toList]⟩⟩ =
        .ok out ∧
      upstreamRequestFilter publicProxy [] ⟨some administrator⟩ = .ok out :=
  ⟨tokenReview_reviewOf _, tokenReview_reviewOf _, by decide, _, rfl, by decide +kernel⟩

end KubeRbacProxy
