import KubeRbacProxy.Library.Percent
import KubeRbacProxy.Library.Segments

/-! Endpoint patterns.  A pattern and a path are cleaned and compared segment by segment; a segment
of the pattern in braces captures the decoded segment of the path under its name. -/

namespace KubeRbacProxy

open Library

/-- A letter, then letters, digits, and underscores. -/
def captureNameChars : Text → Bool
  | [] => true
  | c :: rest => c.isAlpha && rest.all fun c => c.isAlpha || c.isDigit || c == '_'

def validCaptureName (name : Text) : Bool := !name.isEmpty && captureNameChars name

/-- Captured names with their texts, in the order of an iteration. -/
structure Captures where
  entries : List (Text × Text)
  valid : ∀ entry ∈ entries, validCaptureName entry.1 = true
  distinct : (entries.map Prod.fst).Nodup
  deriving DecidableEq

def Captures.empty : Captures := ⟨[], by simp, by simp⟩

def Captures.insertNew (captures : Captures) (name : Text) (h : validCaptureName name = true)
    (text : Text) : Option Captures :=
  if hnew : name ∈ captures.entries.map Prod.fst then none
  else some
    { entries := captures.entries ++ [(name, text)]
      valid := by
        intro entry hentry
        rcases List.mem_append.mp hentry with hentry | hentry
        · exact captures.valid entry hentry
        · rw [List.mem_singleton.mp hentry]
          exact h
      distinct := by
        rw [List.map_append, List.nodup_append]
        refine ⟨captures.distinct, by simp, ?_⟩
        rintro a ha b hb rfl
        simp only [List.map_cons, List.map_nil, List.mem_singleton] at hb
        exact hnew (hb ▸ ha) }

/-- An order in which a map of captures is iterated. -/
structure Iteration where
  order : Captures → Captures
  perm : ∀ captures, (order captures).entries.Perm captures.entries

def insertionOrder : Iteration := ⟨id, fun _ => .refl _⟩

/-- One segment of a path: empty segments and `.` are dropped, and `..` drops the segment before. -/
def cleanStep (parts : List Text) (part : Text) : List Text :=
  if part = [] ∨ part = ['.'] then parts
  else if part = ['.', '.'] then parts.dropLast
  else parts ++ [part]

def cleanParts (input : Text) : List Text := (input.splitOn '/').foldl cleanStep []

def clean (input : Text) : Text := '/' :: ['/'].intercalate (cleanParts input)

def normalize (input : Text) : Text :=
  let trimmed := trimEndMatches '/' (clean input)
  if trimmed = [] then ['/'] else trimmed

def isCapture (segment : Text) : Bool :=
  segment.head? == some '{' && segment.getLast? == some '}'

def captureName (segment : Text) : Text := segment.tail.dropLast

def matchSegments : List (Text × Text) → Captures → Option Captures
  | [], out => some out
  | (p, r) :: rest, out =>
    if isCapture p then
      if h : validCaptureName (captureName p) then
        match out.insertNew (captureName p) h (percentDecodeStr r) with
        | some out => matchSegments rest out
        | none => none
      else none
    else if p ≠ ['*'] ∧ p ≠ r then none
    else matchSegments rest out

def endpointMatch (pattern path : Text) : Option Captures :=
  let pp := (normalize pattern).splitOn '/'
  let rp := (normalize path).splitOn '/'
  if pp.length ≠ rp.length then none else matchSegments (pp.zip rp) .empty

example : (endpointMatch "/api/v1/jobs/*".toList "/api/v1/jobs/../jobs/99".toList).isSome = true ∧
    (endpointMatch "/api/v1/jobs/*".toList "/api/v1/jobs/123/details".toList).isSome = false := by
  decide +kernel

/-! ### Cleaned segments -/

def Kept (segment : Text) : Prop := segment ≠ [] ∧ ¬IsDot segment

theorem cleanStep_kept {segment : Text} (h : Kept segment) (parts : List Text) :
    cleanStep parts segment = parts ++ [segment] := by
  have hdot := h.2
  rw [IsDot, not_or] at hdot
  simp [cleanStep, h.1, hdot.1, hdot.2]

theorem cleanStep_mem {parts : List Text} {part s : Text} (h : s ∈ cleanStep parts part) :
    s ∈ parts ∨ (s = part ∧ Kept part) := by
  unfold cleanStep at h
  split at h
  · exact Or.inl h
  rename_i hempty
  rw [not_or] at hempty
  split at h
  · exact Or.inl (List.dropLast_subset _ h)
  rename_i hdots
  rcases List.mem_append.mp h with h | h
  · exact Or.inl h
  · exact Or.inr ⟨List.mem_singleton.mp h, hempty.1, not_or.mpr ⟨hempty.2, hdots⟩⟩

theorem foldl_cleanStep_mem {parts segments : List Text} {s : Text}
    (h : s ∈ segments.foldl cleanStep parts) : s ∈ parts ∨ (s ∈ segments ∧ Kept s) := by
  induction segments generalizing parts with
  | nil => exact Or.inl h
  | cons part segments ih =>
    rcases ih h with h | h
    · rcases cleanStep_mem h with h | ⟨rfl, hkept⟩
      · exact Or.inl h
      · exact Or.inr ⟨List.mem_cons_self, hkept⟩
    · exact Or.inr ⟨List.mem_cons_of_mem _ h.1, h.2⟩

theorem cleanParts_mem {x s : Text} (h : s ∈ cleanParts x) : s ∈ x.splitOn '/' ∧ Kept s := by
  rcases foldl_cleanStep_mem h with h | h
  · contradiction
  · exact h

theorem foldl_cleanStep_kept {segments : List Text} (h : ∀ s ∈ segments, Kept s)
    (parts : List Text) : segments.foldl cleanStep parts = parts ++ segments := by
  induction segments generalizing parts with
  | nil => simp
  | cons s segments ih =>
    rw [List.foldl_cons, cleanStep_kept (h s List.mem_cons_self),
      ih fun r hr => h r (List.mem_cons_of_mem _ hr), List.append_assoc, List.singleton_append]

theorem cleanParts_join {parts : List Text} (h : ∀ s ∈ parts, Kept s ∧ '/' ∉ s) :
    cleanParts ('/' :: ['/'].intercalate parts) = parts := by
  have hsplit : ('/' :: ['/'].intercalate parts).splitOn '/' =
      [] :: (['/'].intercalate parts).splitOn '/' := by
    rw [show ∀ t : Text, '/' :: t = [] ++ '/' :: t from fun _ => rfl, List.splitOn_append_cons_self]
    rfl
  unfold cleanParts
  rw [hsplit]
  by_cases hparts : parts = []
  · subst hparts
    rfl
  · rw [List.splitOn_intercalate '/' (fun s hs => (h s hs).2) hparts, List.foldl_cons,
      show cleanStep [] [] = [] from rfl, foldl_cleanStep_kept fun s hs => (h s hs).1]
    rfl

theorem intercalate_concat (parts : List Text) (last : Text) :
    ∃ front, ['/'].intercalate (parts ++ [last]) = front ++ last := by
  induction parts with
  | nil => exact ⟨[], by simp [List.intercalate]⟩
  | cons first parts ih =>
    obtain ⟨front, hfront⟩ := ih
    refine ⟨first ++ '/' :: front, ?_⟩
    rw [List.cons_append]
    cases hrest : parts ++ [last] with
    | nil => simp at hrest
    | cons second rest =>
      rw [hrest] at hfront
      simp [List.intercalate, ← hfront]

/-- The segments that a path is compared by: the cleaned ones, or an empty one for the root. -/
def comparedParts (x : Text) : List Text := if cleanParts x = [] then [[]] else cleanParts x

theorem splitOn_normalize (x : Text) : (normalize x).splitOn '/' = [] :: comparedParts x := by
  have hkept : ∀ s ∈ cleanParts x, s ≠ [] ∧ '/' ∉ s := fun s hs =>
    ⟨(cleanParts_mem hs).2.1, slash_not_mem_splitOn (cleanParts_mem hs).1⟩
  unfold normalize clean comparedParts
  rcases List.eq_nil_or_concat' (cleanParts x) with hnil | ⟨parts, last, hparts⟩
  · rw [hnil]
    decide
  · obtain ⟨front, hfront⟩ := intercalate_concat parts last
    obtain ⟨hlast, hslash⟩ := hkept last (by simp [hparts])
    obtain ⟨last', c, rfl⟩ := (List.eq_nil_or_concat' last).resolve_left hlast
    have htrim : trimEndMatches '/' ('/' :: ['/'].intercalate (cleanParts x)) =
        '/' :: ['/'].intercalate (cleanParts x) := by
      rw [hparts, hfront, trimEndMatches, List.rdropWhile_eq_self_iff]
      intro hne
      have hc : c ≠ '/' := by
        rintro rfl
        simp at hslash
      simpa [← List.append_assoc] using hc
    simp only [htrim]
    rw [if_neg (by simp), if_neg (by simp [hparts]),
      show ∀ t : Text, '/' :: t = [] ++ '/' :: t from fun _ => rfl, List.splitOn_append_cons_self,
      List.splitOn_intercalate '/' (fun s hs => (hkept s hs).2) (by simp [hparts])]
    rfl

theorem endpointMatch_parts (pattern path : Text) :
    endpointMatch pattern path =
      if (comparedParts pattern).length ≠ (comparedParts path).length then none
      else matchSegments ((comparedParts pattern).zip (comparedParts path)) .empty := by
  have hroot : ∀ rest, matchSegments (([], []) :: rest) .empty = matchSegments rest .empty := by
    intro rest
    simp [matchSegments, isCapture]
  simp only [endpointMatch, splitOn_normalize, List.length_cons, List.zip_cons_cons, hroot,
    ne_eq, Nat.add_right_cancel_iff]

end KubeRbacProxy
