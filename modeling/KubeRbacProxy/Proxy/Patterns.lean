import KubeRbacProxy.Library.Glob
import KubeRbacProxy.Proxy.Filter

/-! The patterns of the allow list and the ignore list.  A pattern with one star is decided by its
two ends, each compared on its own, so a short path can match with ends that overlap. -/

namespace KubeRbacProxy

open Library

/-- A match is an instance of the pattern, and every instance of a pattern with at most one star
matches. -/
def GlobExact (pattern path : Text) : Prop :=
  (pathMatches pattern path = true → Glob '*' pattern path) ∧
  (pattern.count '*' ≤ 1 → Glob '*' pattern path → pathMatches pattern path = true)

structure OneStar (pattern front back : Text) : Prop where
  split : pattern = front ++ '*' :: back
  front : '*' ∉ front
  back : '*' ∉ back

/-- The path starts with the text before the only star and ends with the text after it, and is
shorter than both together. -/
def Overlaps (pattern path : Text) : Prop :=
  ∃ front back, OneStar pattern front back ∧ front <+: path ∧ back <:+ path ∧
    path.length < front.length + back.length

theorem splitOn_oneStar {pattern front back : Text} (h : OneStar pattern front back) :
    pattern.splitOn '*' = [front, back] := by
  rw [h.split, List.splitOn_append_cons_self, List.splitOn_eq_singleton h.front,
    List.splitOn_eq_singleton h.back]
  rfl

theorem oneStar_of_splitOn {pattern front back : Text} (h : pattern.splitOn '*' = [front, back]) :
    OneStar pattern front back := by
  by_cases hstar : '*' ∈ pattern
  · obtain ⟨u, v, rfl, hu⟩ := List.eq_append_cons_of_mem hstar
    rw [List.splitOn_append_cons_self, List.splitOn_eq_singleton hu] at h
    obtain ⟨rfl, hv⟩ := List.cons.inj h
    change v.splitOn '*' = [back] at hv
    by_cases hstar' : '*' ∈ v
    · obtain ⟨w, x, rfl, hw⟩ := List.eq_append_cons_of_mem hstar'
      rw [List.splitOn_append_cons_self, List.splitOn_eq_singleton hw] at hv
      exact absurd (List.cons.inj hv).2 (List.splitOn_ne_nil '*' x)
    · rw [List.splitOn_eq_singleton hstar'] at hv
      obtain rfl := List.singleton_inj.mp hv
      exact ⟨rfl, hu, hstar'⟩
  · rw [List.splitOn_eq_singleton hstar] at h
    simp at h

theorem oneStar_of_count {pattern : Text} (hstar : '*' ∈ pattern) (hcount : pattern.count '*' ≤ 1) :
    ∃ front back, OneStar pattern front back := by
  obtain ⟨front, back, rfl, hfront⟩ := List.eq_append_cons_of_mem hstar
  rw [List.count_append, List.count_cons_self, List.count_eq_zero_of_not_mem hfront] at hcount
  refine ⟨front, back, rfl, hfront, fun hback => ?_⟩
  have := List.count_pos_iff.mpr hback
  omega

theorem pathMatches_iff {pattern path : Text} :
    pathMatches pattern path = true ↔ pattern = path ∨
      ∃ front back, OneStar pattern front back ∧ front <+: path ∧ back <:+ path := by
  unfold pathMatches
  by_cases hsame : pattern = path
  · simp [hsame]
  by_cases hall : pattern = ['*']
  · subst hall
    simp only [or_true, if_true, true_iff]
    exact Or.inr ⟨[], [], ⟨rfl, by simp, by simp⟩, List.nil_prefix, List.nil_suffix⟩
  rw [if_neg (not_or.mpr ⟨hsame, hall⟩), or_iff_right hsame]
  constructor
  · intro h
    split at h
    · rename_i front back hsplit
      rw [Bool.and_eq_true, List.isPrefixOf_iff_prefix, List.isSuffixOf_iff_suffix] at h
      exact ⟨front, back, oneStar_of_splitOn hsplit, h.1, h.2⟩
    · contradiction
  · rintro ⟨front, back, hpattern, hfront, hback⟩
    simp only [splitOn_oneStar hpattern, Bool.and_eq_true, List.isPrefixOf_iff_prefix,
      List.isSuffixOf_iff_suffix]
    exact ⟨hfront, hback⟩

theorem OneStar.glob_iff {pattern front back path : Text} (h : OneStar pattern front back) :
    Glob '*' pattern path ↔ ∃ filling, path = front ++ (filling ++ back) := by
  rw [h.split]
  exact glob_one_star h.front h.back

theorem pathMatches_of_glob {pattern path : Text} (hcount : pattern.count '*' ≤ 1)
    (h : Glob '*' pattern path) : pathMatches pattern path = true := by
  apply pathMatches_iff.mpr
  by_cases hstar : '*' ∈ pattern
  · obtain ⟨front, back, hpattern⟩ := oneStar_of_count hstar hcount
    obtain ⟨filling, rfl⟩ := hpattern.glob_iff.mp h
    refine Or.inr ⟨front, back, hpattern, List.prefix_append _ _, ?_⟩
    rw [← List.append_assoc]
    exact List.suffix_append _ _
  · exact Or.inl ((glob_plain hstar).mp h).symm

theorem globExact_iff {pattern path : Text} : GlobExact pattern path ↔ ¬Overlaps pattern path := by
  constructor
  · rintro ⟨hsound, -⟩ ⟨front, back, hpattern, hfront, hback, hlen⟩
    have hglob := hsound (pathMatches_iff.mpr (Or.inr ⟨front, back, hpattern, hfront, hback⟩))
    have hle := (append_of_prefix_of_suffix hfront hback).mp (hpattern.glob_iff.mp hglob)
    omega
  · intro hoverlap
    refine ⟨fun h => ?_, pathMatches_of_glob⟩
    rcases pathMatches_iff.mp h with rfl | ⟨front, back, hpattern, hfront, hback⟩
    · exact Glob.refl '*' pattern
    · apply hpattern.glob_iff.mpr
      apply (append_of_prefix_of_suffix hfront hback).mpr
      by_contra hlen
      exact hoverlap ⟨front, back, hpattern, hfront, hback, by omega⟩

/-- A path is matched as the pattern says exactly when the ends of a one-star pattern do not overlap
in it.  All paths are exactly when no text ends the one and starts the other. -/
theorem pathMatches_exact_iff (pattern : Text) :
    (∀ path, GlobExact pattern path ↔ ¬Overlaps pattern path) ∧
    ((∀ path, GlobExact pattern path) ↔ ∀ front back, OneStar pattern front back →
      ¬∃ shared, shared ≠ [] ∧ shared <:+ front ∧ shared <+: back) := by
  refine ⟨fun path => globExact_iff, ?_⟩
  simp only [globExact_iff, ← exists_overlap]
  constructor
  · rintro h front back hpattern ⟨path, hends⟩
    exact h path ⟨front, back, hpattern, hends⟩
  · rintro h path ⟨front, back, hpattern, hends⟩
    exact h front back hpattern ⟨path, hends⟩

/-- The pattern takes the `a` of the path for both of its ends. -/
theorem pathMatches_overlap : ¬GlobExact "/a*a".toList "/a".toList := by
  intro h
  have hglob := h.1 (by decide +kernel)
  have hpattern : OneStar "/a*a".toList "/a".toList "a".toList :=
    ⟨by decide +kernel, by decide +kernel, by decide +kernel⟩
  obtain ⟨filling, hfilling⟩ := hpattern.glob_iff.mp hglob
  have := congrArg List.length hfilling
  simp at this

end KubeRbacProxy
