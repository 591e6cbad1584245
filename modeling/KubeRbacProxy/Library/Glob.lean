import Mathlib.Data.List.Infix

/-! Patterns with stars.  A list is an instance of a pattern when replacing every star by some list,
which may be empty, gives it. -/

namespace Library

variable {α : Type}

/-- The lists that a pattern stands for. -/
inductive Glob (star : α) : List α → List α → Prop
  | nil : Glob star [] []
  | plain {a : α} {pattern list : List α} (hne : a ≠ star) (h : Glob star pattern list) :
      Glob star (a :: pattern) (a :: list)
  | filled (filling : List α) {pattern list : List α} (h : Glob star pattern list) :
      Glob star (star :: pattern) (filling ++ list)

variable {star : α}

theorem Glob.refl (star : α) (pattern : List α) : Glob star pattern pattern := by
  induction pattern with
  | nil => exact .nil
  | cons a pattern ih =>
    by_cases hstar : a = star
    · subst hstar
      exact .filled [a] ih
    · exact .plain hstar ih

theorem glob_plain_append {front pattern list : List α} (hfront : star ∉ front) :
    Glob star (front ++ pattern) list ↔ ∃ rest, list = front ++ rest ∧ Glob star pattern rest := by
  induction front generalizing list with
  | nil => simp
  | cons a front ih =>
    rw [List.mem_cons, not_or] at hfront
    constructor
    · intro h
      cases h with
      | plain _ h =>
        obtain ⟨rest, rfl, hrest⟩ := (ih hfront.2).mp h
        exact ⟨rest, rfl, hrest⟩
      | filled _ _ => exact absurd rfl hfront.1
    · rintro ⟨rest, rfl, hrest⟩
      exact .plain (Ne.symm hfront.1) ((ih hfront.2).mpr ⟨rest, rfl, hrest⟩)

/-- A pattern without stars stands for itself. -/
theorem glob_plain {pattern list : List α} (h : star ∉ pattern) :
    Glob star pattern list ↔ list = pattern := by
  have happend : Glob star (pattern ++ []) list ↔
      ∃ rest, list = pattern ++ rest ∧ Glob star [] rest := glob_plain_append h
  rw [List.append_nil] at happend
  rw [happend]
  constructor
  · rintro ⟨rest, rfl, hrest⟩
    cases hrest
    exact List.append_nil _
  · rintro rfl
    exact ⟨[], (List.append_nil _).symm, .nil⟩

/-- The text before a star and the text after it are disjoint parts of an instance. -/
theorem glob_one_star {front back list : List α} (hfront : star ∉ front) (hback : star ∉ back) :
    Glob star (front ++ star :: back) list ↔ ∃ filling, list = front ++ (filling ++ back) := by
  rw [glob_plain_append hfront]
  constructor
  · rintro ⟨rest, rfl, hrest⟩
    cases hrest with
    | plain hne _ => exact absurd rfl hne
    | filled filling h => exact ⟨filling, by rw [(glob_plain hback).mp h]⟩
  · rintro ⟨filling, rfl⟩
    exact ⟨_, rfl, .filled filling ((glob_plain hback).mpr rfl)⟩

theorem append_of_prefix_of_suffix {front back list : List α} (hfront : front <+: list)
    (hback : back <:+ list) :
    (∃ filling, list = front ++ (filling ++ back)) ↔ front.length + back.length ≤ list.length := by
  constructor
  · rintro ⟨filling, rfl⟩
    simp only [List.length_append]
    omega
  · intro hlen
    obtain ⟨rest, rfl⟩ := hfront
    obtain ⟨start, hstart⟩ := hback
    rw [List.length_append] at hlen
    have hle : front.length ≤ start.length := by
      have := congrArg List.length hstart
      simp only [List.length_append] at this
      omega
    have hprefix : front <+: start :=
      List.prefix_of_prefix_length_le ⟨rest, hstart.symm ▸ rfl⟩ ⟨back, hstart⟩ hle
    obtain ⟨filling, rfl⟩ := hprefix
    rw [List.append_assoc] at hstart
    exact ⟨filling, by rw [List.append_cancel_left hstart]⟩

/-- Two lists have a common list that starts with one and ends with the other, and is shorter than
both together, exactly when an end of the first is a start of the second. -/
theorem exists_overlap {front back : List α} :
    (∃ list, front <+: list ∧ back <:+ list ∧ list.length < front.length + back.length) ↔
      ∃ shared, shared ≠ [] ∧ shared <:+ front ∧ shared <+: back := by
  constructor
  · rintro ⟨list, ⟨rest, rfl⟩, ⟨start, hstart⟩, hlen⟩
    have hlens := congrArg List.length hstart
    simp only [List.length_append] at hlens hlen
    rcases List.append_eq_append_iff.mp hstart with ⟨shared, rfl, rfl⟩ | ⟨filling, rfl, rfl⟩
    · refine ⟨shared, ?_, ⟨start, rfl⟩, ⟨rest, rfl⟩⟩
      rintro rfl
      simp at hlens hlen
    · simp only [List.length_append] at hlen
      omega
  · rintro ⟨shared, hne, ⟨start, rfl⟩, ⟨rest, rfl⟩⟩
    refine ⟨start ++ (shared ++ rest), ⟨rest, by simp⟩, ⟨start, rfl⟩, ?_⟩
    have := List.length_pos_iff.mpr hne
    simp only [List.length_append]
    omega

end Library
