import KubeRbacProxy.Library.Segments
import KubeRbacProxy.Proxy.Filter

/-! The allow and ignore lists against the resolution of paths.  Patterns are matched with the path
as it is sent, so a path with dot segments can match a pattern that its resolution does not match;
paths without dot segments are the ones where this cannot happen. -/

namespace KubeRbacProxy

open Library

/-- The request is sent upstream and nobody was authenticated. -/
def Bypassed (filtered : Filtered) : Prop :=
  filtered.result = .ok false ∧ filtered.ctx.identity = none

theorem bypassed_ignored {respond : Reply → Except Text Unit} {requestsTotal : UInt64}
    {proxy : Proxy} {iter : Iteration} {session : Session}
    (h : Bypassed (requestFilter respond newCtx requestsTotal proxy iter session)) :
    ignored proxy session.reqHeader.path = true := by
  obtain ⟨-, ⟨hignored, -⟩ | ⟨-, user, -, -, -, -, hctx⟩⟩ := requestFilter_forwards h.1
  · exact hignored
  · have hnone := h.2
    rw [hctx] at hnone
    contradiction

/-! ### Patterns that are paths -/

theorem pathMatches_self (x : Text) : pathMatches x x = true := by simp [pathMatches]

theorem ends_with_slash {u v w : Text} {c : Char} (hc : c ≠ '/') (h : u ++ c :: v = w ++ ['/']) :
    ∃ t, v = t ++ ['/'] := by
  rcases List.eq_nil_or_concat' v with rfl | ⟨t, d, rfl⟩
  · have := (List.append_inj' h rfl).2
    exact absurd (List.cons.inj this).1 hc
  · rw [← List.cons_append, ← List.append_assoc] at h
    rw [(List.append_inj' h rfl).2]
    exact ⟨t, rfl⟩

theorem segment_of_ends {front back s y : Text} (hs : s ∈ (front ++ '*' :: back).splitOn '/')
    (hstar : '*' ∉ s) (hfront : front <+: y) (hback : back <:+ y) : s ∈ y.splitOn '/' := by
  obtain ⟨hnot, a, b, hsplit, ha, hb⟩ := mem_splitOn_iff.mp hs
  have hbstar : ∀ t, b ≠ '*' :: t := by
    rintro t rfl
    rcases hb with hb | ⟨b', hb⟩
    · contradiction
    · simp at hb
  refine mem_splitOn_iff.mpr ⟨hnot, ?_⟩
  rcases List.append_eq_append_iff.mp hsplit with ⟨a', rfl, hrest⟩ | ⟨t, rfl, hrest⟩
  · -- The star is before the segment, which is in the back of the pattern.
    obtain ⟨r, rfl⟩ := hback
    cases a' with
    | nil =>
      cases s with
      | nil => exact absurd hrest.symm (hbstar back)
      | cons c s => simp at hrest; simp [← hrest.1] at hstar
    | cons c a' =>
      obtain ⟨rfl, rfl⟩ := List.cons.inj hrest
      refine ⟨r ++ a', b, by simp, Or.inr ?_, hb⟩
      rcases ha with ha | ⟨a'', ha⟩
      · simp at ha
      · obtain ⟨t, rfl⟩ := ends_with_slash (by decide) ha
        exact ⟨r ++ t, by simp⟩
  · -- The star is after the segment, which is in the front of the pattern.
    obtain ⟨r, rfl⟩ := hfront
    rcases List.append_eq_append_iff.mp hrest with ⟨u, rfl, hu⟩ | ⟨u, rfl, hu⟩
    · refine ⟨a, u ++ r, by simp, ha, ?_⟩
      cases u with
      | nil => exact absurd hu (hbstar back)
      | cons c u =>
        rcases hb with rfl | ⟨b', rfl⟩
        · contradiction
        · rw [← (List.cons.inj hu).1]
          exact Or.inr ⟨u ++ r, rfl⟩
    · cases u with
      | nil => exact absurd hu.symm (hbstar back)
      | cons c u =>
        rw [← (List.cons.inj hu).1] at hstar
        simp at hstar

theorem dotted_pattern_misses {x s : Text} (hs : s ∈ x.splitOn '/') (hdot : IsDot s) :
    pathMatches x (removeDotSegments x) = false := by
  have hplain := removeDotSegments_plain x
  have hstar : '*' ∉ s := by
    rcases hdot with rfl | rfl <;> decide
  unfold pathMatches
  split
  · rename_i heq
    rcases heq with heq | rfl
    · exact absurd hdot (hplain s (heq ▸ hs))
    · rw [List.splitOn_eq_singleton (by decide), List.mem_singleton] at hs
      exact absurd (hs ▸ List.mem_cons_self) hstar
  split
  · rename_i front back hsplit
    refine Bool.eq_false_iff.mpr fun hends => ?_
    rw [Bool.and_eq_true, List.isPrefixOf_iff_prefix, List.isSuffixOf_iff_suffix] at hends
    have hx : x = front ++ '*' :: back := by
      have hjoin : ['*'].intercalate (x.splitOn '*') = x := List.intercalate_splitOn '*'
      rw [← hjoin, hsplit]
      simp [List.intercalate]
    exact hplain s (segment_of_ends (hx ▸ hs) hstar hends.1 hends.2) hdot
  · rfl

/-! ### The lists and the resolution of paths -/

def listProxy (allow ignore : List Text) : Proxy where
  authz := {}
  allow := allow
  ignore := ignore
  authHeaders := false
  userHeader := []
  groupsHeader := []
  groupSeparator := []
  authenticators := []
  kubeClient := none
  operationalEndpoints := false

theorem listProxy_bypassed {x : Text} {ignore : List Text} (iter : Iteration) (session : Session)
    (hx : session.reqHeader.path = x) (h : ignored (listProxy [] ignore) x = true) :
    Bypassed (requestFilter (fun _ => .ok ()) newCtx 0 (listProxy [] ignore) iter session) := by
  rw [requestFilter_ignored _ _ _ _ rfl rfl (hx ▸ h)]
  exact ⟨rfl, rfl⟩

/-- For every path, a request that bypasses authentication resolves to an ignored path, and one that
passes the allow list resolves to an allowed one, whatever the lists are, exactly when the path has
no dot segment.  For given lists it is enough that no pattern matches the path as it is sent. -/
theorem bypass_resolved_iff (x : Text) :
    ((∀ respond requestsTotal proxy iter session, session.reqHeader.path = x →
        Bypassed (requestFilter respond newCtx requestsTotal proxy iter session) →
        ignored proxy (removeDotSegments x) = true) ↔
      ∀ s ∈ x.splitOn '/', ¬IsDot s) ∧
    ((∀ proxy, allowed proxy x = true → allowed proxy (removeDotSegments x) = true) ↔
      ∀ s ∈ x.splitOn '/', ¬IsDot s) ∧
    ∀ proxy,
      ((∀ pattern ∈ proxy.ignore, pathMatches pattern x = false) →
        ∀ respond requestsTotal iter session, session.reqHeader.path = x →
          ¬Bypassed (requestFilter respond newCtx requestsTotal proxy iter session)) ∧
      ((∀ pattern ∈ proxy.allow, pathMatches pattern x = false) →
        allowed proxy x = true → allowed proxy (removeDotSegments x) = true) := by
  refine ⟨⟨fun h s hs hdot => ?_, ?_⟩, ⟨fun h s hs hdot => ?_, ?_⟩, fun proxy => ⟨?_, ?_⟩⟩
  · have hignored : ignored (listProxy [] [x]) x = true := by
      simp [ignored, listProxy, pathMatches_self]
    have hbypassed := listProxy_bypassed insertionOrder ⟨⟨[], x, none, []⟩, none⟩ rfl hignored
    have hresolved := h _ _ _ _ _ rfl hbypassed
    simp [ignored, listProxy, dotted_pattern_misses hs hdot] at hresolved
  · rintro h respond requestsTotal proxy iter session rfl hbypassed
    rw [removeDotSegments_self h]
    exact bypassed_ignored hbypassed
  · have hresolved := h (listProxy [x] []) (by simp [allowed, listProxy, pathMatches_self])
    simp [allowed, listProxy, dotted_pattern_misses hs hdot] at hresolved
  · intro h proxy hallowed
    rwa [removeDotSegments_self h]
  · rintro hnone respond requestsTotal iter session rfl hbypassed
    obtain ⟨pattern, hmem, hmatch⟩ := List.any_eq_true.mp (bypassed_ignored hbypassed)
    rw [hnone pattern hmem] at hmatch
    contradiction
  · intro hnone hallowed
    -- no pattern lets the path through, so the list is empty and lets everything through
    rw [allowed, Bool.or_eq_true] at hallowed ⊢
    rcases hallowed with hempty | hsome
    · exact Or.inl hempty
    · obtain ⟨pattern, hmem, hmatch⟩ := List.any_eq_true.mp hsome
      rw [hnone pattern hmem] at hmatch
      contradiction

/-- With everything under `/public/` ignored, `/public/../admin` is sent upstream without
authentication, and resolves to `/admin`, which no pattern ignores. -/
theorem bypass_unresolved :
    Bypassed (requestFilter (fun _ => .ok ()) newCtx 0 (listProxy [] ["/public/*".toList])
      insertionOrder ⟨⟨"GET".toList, "/public/../admin".toList, none, []⟩, none⟩) ∧
    removeDotSegments "/public/../admin".toList = "/admin".toList ∧
    ignored (listProxy [] ["/public/*".toList])
      (removeDotSegments "/public/../admin".toList) = false :=
  ⟨listProxy_bypassed _ _ rfl (by decide +kernel), by decide +kernel, by decide +kernel⟩

end KubeRbacProxy
