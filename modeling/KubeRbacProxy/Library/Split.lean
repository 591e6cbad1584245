import Mathlib.Data.List.Infix

/-! Splitting a text at the occurrences of a separator, found from the left, and joining parts with
one.  Joining the parts of a text gives the text back; splitting what was joined gives the parts
back exactly when no separator is found before its place. -/

namespace Library

variable {α : Type}

section Split

variable [DecidableEq α]

/-- `splitText` after `skip` more characters of the separator found last. -/
def splitFrom (separator : List α) : Nat → List α → List (List α)
  | _, [] => [[]]
  | skip + 1, _ :: rest => splitFrom separator skip rest
  | 0, c :: rest =>
    if separator.isPrefixOf (c :: rest) then
      [] :: splitFrom separator (separator.length - 1) rest
    else (splitFrom separator 0 rest).modifyHead (c :: ·)

/-- The parts of `t` around the occurrences of `separator`, from the left. -/
def splitText (separator t : List α) : List (List α) := splitFrom separator 0 t

end Split

/-- A list of parts as it is read: without a part, as one that is empty. -/
def partsRead : List (List α) → List (List α)
  | [] => [[]]
  | parts => parts

/-- In `part` with the separator behind it, the separator occurs first at the end. -/
def Apart (separator part : List α) : Prop :=
  ∀ k < part.length, ¬separator <+: part.drop k ++ separator

/-- Between the joined parts the separator is found where it was put, and nowhere in the last. -/
def Separable (separator : List α) : List (List α) → Prop
  | [] => True
  | [part] => ¬separator <:+: part
  | part :: parts => Apart separator part ∧ Separable separator parts

theorem prefix_append_iff {separator : List α} (part rest : List α) :
    separator <+: part ++ (separator ++ rest) ↔ separator <+: part ++ separator := by
  rw [← List.append_assoc]
  refine ⟨fun h => ?_, fun h => h.trans (List.prefix_append _ _)⟩
  exact List.prefix_of_prefix_length_le h (List.prefix_append _ _) (by simp)

theorem apart_cons_iff {separator part : List α} {c : α} :
    Apart separator (c :: part) ↔
      ¬separator <+: c :: (part ++ separator) ∧ Apart separator part := by
  constructor
  · intro h
    exact ⟨h 0 (by simp), fun k hk => h (k + 1) (by simpa using hk)⟩
  · rintro ⟨hfirst, h⟩ k hk
    cases k with
    | zero => exact hfirst
    | succ k => exact h k (by simpa using hk)

variable [DecidableEq α]

theorem splitFrom_drop (separator : List α) (skip : Nat) (t : List α) :
    splitFrom separator skip t = splitFrom separator 0 (t.drop skip) := by
  induction t generalizing skip with
  | nil => cases skip <;> simp [splitFrom]
  | cons c t ih =>
    cases skip with
    | zero => rfl
    | succ skip => simpa [splitFrom] using ih skip

theorem splitText_separator {separator : List α} (hne : separator ≠ []) (rest : List α) :
    splitText separator (separator ++ rest) = [] :: splitText separator rest := by
  obtain ⟨c, separator, rfl⟩ := List.exists_cons_of_ne_nil hne
  have hfound : (c :: separator).isPrefixOf (c :: (separator ++ rest)) = true :=
    List.isPrefixOf_iff_prefix.mpr (List.prefix_append _ _)
  simp only [splitText, List.cons_append, splitFrom, hfound, if_true, List.length_cons,
    Nat.add_sub_cancel]
  rw [splitFrom_drop, List.drop_left]

theorem splitText_skip {separator rest : List α} {c : α} (h : ¬separator <+: c :: rest) :
    splitText separator (c :: rest) = (splitText separator rest).modifyHead (c :: ·) := by
  have hnone : separator.isPrefixOf (c :: rest) = false :=
    Bool.eq_false_iff.mpr fun hfound => h (List.isPrefixOf_iff_prefix.mp hfound)
  simp [splitText, splitFrom, hnone]

theorem splitText_ne_nil {separator : List α} (hne : separator ≠ []) (t : List α) :
    splitText separator t ≠ [] := by
  induction t with
  | nil => simp [splitText, splitFrom]
  | cons c t ih =>
    by_cases hstarts : separator <+: c :: t
    · obtain ⟨rest, hrest⟩ := hstarts
      simp [← hrest, splitText_separator hne]
    · rw [splitText_skip hstarts]
      cases hsplit : splitText separator t with
      | nil => exact absurd hsplit ih
      | cons first parts => simp

/-- A text is its only part exactly when the separator does not occur in it. -/
theorem splitText_eq_singleton_iff {separator : List α} (hne : separator ≠ []) {t : List α} :
    splitText separator t = [t] ↔ ¬separator <:+: t := by
  induction t with
  | nil => simp [splitText, splitFrom, hne]
  | cons c t ih =>
    rw [List.infix_cons_iff, not_or, ← ih]
    by_cases hstarts : separator <+: c :: t
    · obtain ⟨rest, hrest⟩ := hstarts
      have htwo : splitText separator (c :: t) = [] :: splitText separator rest := by
        rw [← hrest, splitText_separator hne]
      rw [htwo]
      exact iff_of_false (by simp) fun h => h.1 ⟨rest, hrest⟩
    · rw [splitText_skip hstarts]
      cases hsplit : splitText separator t with
      | nil => exact absurd hsplit (splitText_ne_nil hne t)
      | cons first parts => simp [hstarts]

/-- The first part before a separator is read as it was written exactly when it is apart, and then
the other parts are those of the text behind. -/
theorem splitText_part_iff {separator : List α} (hne : separator ≠ []) {part rest : List α}
    {parts : List (List α)} :
    splitText separator (part ++ (separator ++ rest)) = part :: parts ↔
      Apart separator part ∧ splitText separator rest = parts := by
  induction part with
  | nil => simp [splitText_separator hne, Apart]
  | cons c part ih =>
    rw [apart_cons_iff, and_assoc, ← ih]
    have hhere : separator <+: c :: (part ++ (separator ++ rest)) ↔
        separator <+: c :: (part ++ separator) := prefix_append_iff (c :: part) rest
    by_cases hstarts : separator <+: c :: (part ++ separator)
    · obtain ⟨after, hafter⟩ := hhere.mpr hstarts
      have hempty : splitText separator (c :: part ++ (separator ++ rest)) =
          [] :: splitText separator after := by
        rw [List.cons_append, ← hafter, splitText_separator hne]
      rw [hempty]
      exact iff_of_false (by simp) fun h => h.1 hstarts
    · rw [List.cons_append, splitText_skip (mt hhere.mp hstarts)]
      cases hsplit : splitText separator (part ++ (separator ++ rest)) with
      | nil => exact absurd hsplit (splitText_ne_nil hne _)
      | cons first others => simp [hstarts]

/-- Splitting recovers a joined list exactly when the list is separable. -/
theorem splitText_intercalate_iff {separator : List α} (hne : separator ≠ [])
    (parts : List (List α)) :
    splitText separator (separator.intercalate parts) = partsRead parts ↔
      Separable separator parts := by
  induction parts with
  | nil => exact iff_of_true rfl trivial
  | cons part parts ih =>
    cases parts with
    | nil =>
      rw [List.intercalate_singleton]
      exact splitText_eq_singleton_iff hne
    | cons second parts =>
      rw [List.intercalate_cons_cons, List.append_assoc]
      exact (splitText_part_iff hne).trans (and_congr_right fun _ => ih)

end Library
