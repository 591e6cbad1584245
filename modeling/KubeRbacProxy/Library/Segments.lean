import KubeRbacProxy.Library.Text

/-! The segments of a path, and the removal of dot segments.  Removal keeps empty segments, and a
dot segment at the end leaves an empty one. -/

namespace Library

theorem mem_splitOn_iff {x s : Text} : s ∈ x.splitOn '/' ↔ '/' ∉ s ∧ ∃ a b, x = a ++ (s ++ b) ∧
    (a = [] ∨ ∃ a', a = a' ++ ['/']) ∧ (b = [] ∨ ∃ b', b = '/' :: b') := by
  constructor
  · induction hlen : x.length using Nat.strong_induction_on generalizing x with
    | _ n ih =>
      intro hs
      by_cases hslash : '/' ∈ x
      · obtain ⟨u, v, rfl, hu⟩ := List.eq_append_cons_of_mem hslash
        rw [List.splitOn_append_cons_self, List.splitOn_eq_singleton hu] at hs
        rcases List.mem_append.mp hs with hs | hs
        · obtain rfl := List.mem_singleton.mp hs
          exact ⟨hu, [], '/' :: v, rfl, Or.inl rfl, Or.inr ⟨v, rfl⟩⟩
        · obtain ⟨hnot, a, b, rfl, ha, hb⟩ := ih v.length (by simp at hlen; omega) rfl hs
          refine ⟨hnot, u ++ '/' :: a, b, by simp, Or.inr ?_, hb⟩
          rcases ha with rfl | ⟨a', rfl⟩
          · exact ⟨u, rfl⟩
          · exact ⟨u ++ '/' :: a', by simp⟩
      · rw [List.splitOn_eq_singleton hslash, List.mem_singleton] at hs
        exact ⟨hs ▸ hslash, [], [], by simp [hs], Or.inl rfl, Or.inl rfl⟩
  · rintro ⟨hnot, a, b, rfl, ha, hb⟩
    have hs : s ∈ (s ++ b).splitOn '/' := by
      rcases hb with rfl | ⟨b', rfl⟩
      · simp [List.splitOn_eq_singleton hnot]
      · simp [List.splitOn_append_cons_self, List.splitOn_eq_singleton hnot]
    rcases ha with rfl | ⟨a', rfl⟩
    · exact hs
    · rw [List.append_assoc, List.singleton_append, List.splitOn_append_cons_self]
      exact List.mem_append_right _ hs

theorem slash_not_mem_splitOn {x s : Text} (h : s ∈ x.splitOn '/') : '/' ∉ s :=
  (mem_splitOn_iff.mp h).1

def IsDot (segment : Text) : Prop := segment = ['.'] ∨ segment = ['.', '.']

instance (segment : Text) : Decidable (IsDot segment) := inferInstanceAs (Decidable (_ ∨ _))

/-- The segments after a slash, without dot segments, behind the ones kept so far. -/
def removeDots : List Text → List Text → List Text
  | kept, [] => kept
  | kept, [segment] =>
    if segment = ['.'] then kept ++ [[]]
    else if segment = ['.', '.'] then kept.dropLast ++ [[]]
    else kept ++ [segment]
  | kept, segment :: rest =>
    if segment = ['.'] then removeDots kept rest
    else if segment = ['.', '.'] then removeDots kept.dropLast rest
    else removeDots (kept ++ [segment]) rest

/-- The path that `x` resolves to: `.` segments are dropped, and each `..` removes the segment
before. -/
def removeDotSegments (x : Text) : Text :=
  match x.splitOn '/' with
  | [] :: segment :: rest => '/' :: ['/'].intercalate (removeDots [] (segment :: rest))
  | segments => ['/'].intercalate (removeDots [] segments)

example : removeDotSegments "/a/b/c/./../../g".toList = "/a/g".toList := by decide +kernel

theorem removeDots_plain {segments : List Text} (h : ∀ s ∈ segments, ¬IsDot s) (kept : List Text) :
    removeDots kept segments = kept ++ segments := by
  induction segments generalizing kept with
  | nil => simp [removeDots]
  | cons s rest ih =>
    have hs := h s List.mem_cons_self
    rw [IsDot, not_or] at hs
    have hrest := ih fun r hr => h r (List.mem_cons_of_mem _ hr)
    cases rest with
    | nil => simp [removeDots, hs.1, hs.2]
    | cons r rest => simp [removeDots, hs.1, hs.2, hrest]

theorem removeDots_mem {kept segments : List Text} {s : Text} (h : s ∈ removeDots kept segments) :
    s ∈ kept ∨ s = [] ∨ (s ∈ segments ∧ ¬IsDot s) := by
  induction segments generalizing kept with
  | nil => exact Or.inl h
  | cons first rest ih =>
    have later : ∀ {k}, s ∈ removeDots k rest → (s ∈ k → s ∈ kept ∨ (s = first ∧ ¬IsDot first)) →
        s ∈ kept ∨ s = [] ∨ (s ∈ first :: rest ∧ ¬IsDot s) := by
      intro k hk hkept
      rcases ih hk with h | h | h
      · rcases hkept h with h | ⟨rfl, hdot⟩
        · exact Or.inl h
        · exact Or.inr (Or.inr ⟨List.mem_cons_self, hdot⟩)
      · exact Or.inr (Or.inl h)
      · exact Or.inr (Or.inr ⟨List.mem_cons_of_mem _ h.1, h.2⟩)
    have added : s ∈ kept ++ [first] → ¬IsDot first →
        s ∈ kept ∨ (s = first ∧ ¬IsDot first) := by
      intro h hdot
      rcases List.mem_append.mp h with h | h
      · exact Or.inl h
      · exact Or.inr ⟨List.mem_singleton.mp h, hdot⟩
    have plain : first ≠ ['.'] → first ≠ ['.', '.'] → ¬IsDot first := fun h h' hdot =>
      hdot.elim h h'
    cases rest with
    | nil =>
      unfold removeDots at h
      split at h
      · rcases List.mem_append.mp h with h | h
        · exact Or.inl h
        · exact Or.inr (Or.inl (List.mem_singleton.mp h))
      split at h
      · rcases List.mem_append.mp h with h | h
        · exact Or.inl (List.dropLast_subset _ h)
        · exact Or.inr (Or.inl (List.mem_singleton.mp h))
      · rename_i hone htwo
        rcases added h (plain hone htwo) with h | ⟨rfl, hdot⟩
        · exact Or.inl h
        · exact Or.inr (Or.inr ⟨List.mem_cons_self, hdot⟩)
    | cons second rest =>
      simp only [removeDots] at h
      split at h
      · exact later h Or.inl
      split at h
      · exact later h fun h => Or.inl (List.dropLast_subset _ h)
      · rename_i hone htwo
        exact later h fun h => added h (plain hone htwo)

theorem removeDots_ne_nil {kept segments : List Text} (h : segments ≠ []) :
    removeDots kept segments ≠ [] := by
  induction segments generalizing kept with
  | nil => contradiction
  | cons first rest ih =>
    cases rest with
    | nil =>
      unfold removeDots
      split
      · simp
      split <;> simp
    | cons second rest =>
      simp only [removeDots]
      split
      · exact ih (by simp)
      split <;> exact ih (by simp)

theorem removeDotSegments_plain (x : Text) : ∀ s ∈ (removeDotSegments x).splitOn '/', ¬IsDot s := by
  have hdots : ∀ segments : List Text, segments ≠ [] → (∀ s ∈ segments, '/' ∉ s) →
      ∀ s ∈ (['/'].intercalate (removeDots [] segments)).splitOn '/', ¬IsDot s := by
    intro segments hne hslash s hs
    have kept : ∀ r ∈ removeDots [] segments, '/' ∉ r ∧ ¬IsDot r := by
      intro r hr
      rcases removeDots_mem hr with hr | rfl | ⟨hr, hdot⟩
      · simp at hr
      · exact ⟨by simp, by decide⟩
      · exact ⟨hslash r hr, hdot⟩
    rw [List.splitOn_intercalate '/' (fun r hr => (kept r hr).1) (removeDots_ne_nil hne)] at hs
    exact (kept s hs).2
  have hsegments : ∀ s ∈ x.splitOn '/', '/' ∉ s := fun s => slash_not_mem_splitOn
  have hnil := List.splitOn_ne_nil '/' x
  unfold removeDotSegments
  split
  · rename_i segment rest heq
    rw [heq] at hsegments
    intro s hs
    rw [show ∀ t : Text, '/' :: t = [] ++ '/' :: t from fun _ => rfl,
      List.splitOn_append_cons_self] at hs
    rcases List.mem_append.mp hs with hs | hs
    · simp at hs
      rw [hs]
      decide
    · exact hdots _ (by simp) (fun r hr => hsegments r (List.mem_cons_of_mem _ hr)) s hs
  · exact hdots _ hnil hsegments

theorem removeDotSegments_self {x : Text} (h : ∀ s ∈ x.splitOn '/', ¬IsDot s) :
    removeDotSegments x = x := by
  have hjoin : ['/'].intercalate (x.splitOn '/') = x := List.intercalate_splitOn '/'
  unfold removeDotSegments
  split
  · rename_i segment rest heq
    rw [heq] at h hjoin
    rw [removeDots_plain fun s hs => h s (List.mem_cons_of_mem _ hs), List.nil_append, ← hjoin]
    rfl
  · rw [removeDots_plain h, List.nil_append, hjoin]

end Library
