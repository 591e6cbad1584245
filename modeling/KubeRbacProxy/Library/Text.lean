import Mathlib.Data.List.DropRight

/-! Texts as lists of characters, and the string functions of a systems language on them: ASCII
case, white space, prefixes, trimming, and splitting at the last occurrence of a character.
Splitting at every occurrence is `List.splitOn`, joining is `List.intercalate`. -/

namespace Library

abbrev Text := List Char

abbrev Bytes := List UInt8

/-- The proof that membership of a text in a list of texts is decided with. -/
instance : LawfulBEq Text := inferInstance

/-- The Unicode property `White_Space`. -/
def isWhitespace (c : Char) : Bool :=
  let n := c.toNat
  (9 ≤ n && n ≤ 13) || n == 0x20 || n == 0x85 || n == 0xA0 || n == 0x1680 ||
    (0x2000 ≤ n && n ≤ 0x200A) || n == 0x2028 || n == 0x2029 || n == 0x202F || n == 0x205F ||
    n == 0x3000

def trim (t : Text) : Text := (t.dropWhile isWhitespace).rdropWhile isWhitespace

def trimEndMatches (c : Char) (t : Text) : Text := t.rdropWhile (· == c)

def toAsciiLowercase (t : Text) : Text := t.map Char.toLower

def eqIgnoreAsciiCase (s t : Text) : Bool := toAsciiLowercase s == toAsciiLowercase t

def stripPrefix (p t : Text) : Option Text :=
  if p.isPrefixOf t then some (t.drop p.length) else none

def decimal (n : Nat) : Text := Nat.toDigits 10 n

/-- The texts before and after the last `c`. -/
def rsplitOnce (c : Char) : Text → Option (Text × Text)
  | [] => none
  | d :: rest =>
    match rsplitOnce c rest with
    | some (front, back) => some (d :: front, back)
    | none => if d = c then some ([], rest) else none

theorem rsplitOnce_eq_none {c : Char} {t : Text} : rsplitOnce c t = none ↔ c ∉ t := by
  induction t with
  | nil => simp [rsplitOnce]
  | cons d rest ih =>
    rw [rsplitOnce, List.mem_cons, not_or, ← ih]
    cases rsplitOnce c rest with
    | some split => simp
    | none => simp [eq_comm]

theorem rsplitOnce_eq_some {c : Char} {t front back : Text} :
    rsplitOnce c t = some (front, back) ↔ t = front ++ c :: back ∧ c ∉ back := by
  induction t generalizing front with
  | nil => simp [rsplitOnce]
  | cons d rest ih =>
    rw [rsplitOnce]
    cases hrest : rsplitOnce c rest with
    | some split =>
      obtain ⟨front', back'⟩ := split
      have hin : c ∈ rest := by
        by_contra hnot
        rw [rsplitOnce_eq_none.mpr hnot] at hrest
        contradiction
      rw [hrest] at ih
      cases front with
      | nil =>
        refine iff_of_false (by simp) ?_
        rintro ⟨heq, hnot⟩
        rw [List.nil_append, List.cons.injEq] at heq
        exact hnot (heq.2 ▸ hin)
      | cons f front =>
        rw [List.cons_append, List.cons.injEq, and_assoc, ← ih]
        simp only [Option.some.injEq, Prod.mk.injEq, List.cons.injEq, and_assoc]
    | none =>
      have hnot := rsplitOnce_eq_none.mp hrest
      cases front with
      | nil =>
        rw [List.nil_append, List.cons.injEq]
        simp only [Option.ite_none_right_eq_some, Option.some.injEq, Prod.mk.injEq, true_and]
        exact ⟨fun h => ⟨⟨h.1, h.2⟩, h.2 ▸ hnot⟩, fun h => h.1⟩
      | cons f front =>
        refine iff_of_false (by simp) ?_
        rintro ⟨heq, -⟩
        rw [List.cons_append, List.cons.injEq] at heq
        exact hnot (heq.2 ▸ List.mem_append_right front List.mem_cons_self)

end Library
