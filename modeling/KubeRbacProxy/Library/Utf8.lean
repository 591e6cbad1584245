import KubeRbacProxy.Library.Text
import Mathlib.Algebra.Group.Nat.Defs

/-! UTF-8 with replacement of ill-formed input.  `decodeUtf8Lossy` reads a byte string as the
standard libraries of systems languages do: each maximal prefix of a character that is not continued
becomes one replacement character.  It reads the encoding of a text as that text. -/

namespace Library

def encodeUtf8 (t : Text) : Bytes := t.flatMap String.utf8EncodeChar

def replacement : Char := Char.ofNat 0xFFFD

def isContinuation (b : UInt8) : Bool := b.toNat / 64 == 2

/-- The number of bytes in the character that starts with `b`, or 0 when no character does. -/
def charWidth (b : UInt8) : Nat :=
  let n := b.toNat
  if n < 0x80 then 1
  else if 0xC2 ≤ n && n ≤ 0xDF then 2
  else if 0xE0 ≤ n && n ≤ 0xEF then 3
  else if 0xF0 ≤ n && n ≤ 0xF4 then 4
  else 0

/-- The second bytes `c` that may follow a first byte `b` of a character of three or four bytes:
they exclude overlong forms, surrogates, and values above U+10FFFF. -/
def isSecond (b c : UInt8) : Bool :=
  if b.toNat == 0xE0 then 0xA0 ≤ c.toNat && c.toNat ≤ 0xBF
  else if b.toNat == 0xED then 0x80 ≤ c.toNat && c.toNat ≤ 0x9F
  else if b.toNat == 0xF0 then 0x90 ≤ c.toNat && c.toNat ≤ 0xBF
  else if b.toNat == 0xF4 then 0x80 ≤ c.toNat && c.toNat ≤ 0x8F
  else isContinuation c

/-- The character whose bytes are `b` and the continuation bytes `cs`, where `b` has `bits` bits of
payload. -/
def assemble (bits : Nat) (b : UInt8) (cs : Bytes) : Char :=
  Char.ofNat (cs.foldl (fun n c => n * 64 + c.toNat % 64) (b.toNat % 2 ^ bits))

/-- The character at the front of `b :: rest`, and how many bytes of `rest` belong to it.  Where the
bytes are ill-formed, the bytes taken are the longest prefix of a character. -/
def firstChar (b : UInt8) (rest : Bytes) : Char × Nat :=
  match charWidth b, rest with
  | 1, _ => (assemble 7 b [], 0)
  | 2, c :: _ => if isContinuation c then (assemble 5 b [c], 1) else (replacement, 0)
  | 3, c :: rest =>
    if isSecond b c then
      match rest with
      | d :: _ => if isContinuation d then (assemble 4 b [c, d], 2) else (replacement, 1)
      | [] => (replacement, 1)
    else (replacement, 0)
  | 4, c :: rest =>
    if isSecond b c then
      match rest with
      | d :: rest =>
        if isContinuation d then
          match rest with
          | e :: _ => if isContinuation e then (assemble 3 b [c, d, e], 3) else (replacement, 2)
          | [] => (replacement, 2)
        else (replacement, 1)
      | [] => (replacement, 1)
    else (replacement, 0)
  | _, _ => (replacement, 0)

/-- `decodeUtf8Lossy` after `skip` more bytes of the character read last. -/
def decodeFrom : Nat → Bytes → Text
  | _, [] => []
  | skip + 1, _ :: rest => decodeFrom skip rest
  | 0, b :: rest => (firstChar b rest).1 :: decodeFrom (firstChar b rest).2 rest

def decodeUtf8Lossy (bytes : Bytes) : Text := decodeFrom 0 bytes

/-! ### Decoding what was encoded -/

theorem toNat_ofNat_lt {n : Nat} (h : n < 256) : (UInt8.ofNat n).toNat = n := by
  rw [UInt8.toNat_ofNat', Nat.mod_eq_of_lt h]

theorem val_bounds (c : Char) : c.toNat < 0xD800 ∨ (0xDFFF < c.toNat ∧ c.toNat < 0x110000) :=
  c.valid

theorem encodeUtf8_nil : encodeUtf8 [] = [] := rfl

theorem encodeUtf8_cons (c : Char) (t : Text) :
    encodeUtf8 (c :: t) = String.utf8EncodeChar c ++ encodeUtf8 t := rfl

theorem encodeUtf8_append (s t : Text) : encodeUtf8 (s ++ t) = encodeUtf8 s ++ encodeUtf8 t :=
  List.flatMap_append

theorem encodeChar_one {c : Char} (h : c.toNat ≤ 0x7F) :
    String.utf8EncodeChar c = [UInt8.ofNat c.toNat] := if_pos h

theorem encodeChar_two {c : Char} (h : ¬c.toNat ≤ 0x7F) (h' : c.toNat ≤ 0x7FF) :
    String.utf8EncodeChar c =
      [UInt8.ofNat (c.toNat / 64 % 0x20 + 0xC0), UInt8.ofNat (c.toNat % 0x40 + 0x80)] :=
  (if_neg h).trans (if_pos h')

theorem encodeChar_three {c : Char} (h : ¬c.toNat ≤ 0x7F) (h' : ¬c.toNat ≤ 0x7FF)
    (h'' : c.toNat ≤ 0xFFFF) :
    String.utf8EncodeChar c =
      [UInt8.ofNat (c.toNat / 4096 % 0x10 + 0xE0), UInt8.ofNat (c.toNat / 64 % 0x40 + 0x80),
        UInt8.ofNat (c.toNat % 0x40 + 0x80)] :=
  (if_neg h).trans ((if_neg h').trans (if_pos h''))

theorem encodeChar_four {c : Char} (h : ¬c.toNat ≤ 0x7F) (h' : ¬c.toNat ≤ 0x7FF)
    (h'' : ¬c.toNat ≤ 0xFFFF) :
    String.utf8EncodeChar c =
      [UInt8.ofNat (c.toNat / 262144 % 0x08 + 0xF0), UInt8.ofNat (c.toNat / 4096 % 0x40 + 0x80),
        UInt8.ofNat (c.toNat / 64 % 0x40 + 0x80), UInt8.ofNat (c.toNat % 0x40 + 0x80)] :=
  (if_neg h).trans ((if_neg h').trans (if_neg h''))

theorem isContinuation_low (n : Nat) : isContinuation (UInt8.ofNat (n % 0x40 + 0x80)) = true := by
  have h : n % 0x40 + 0x80 < 256 := by omega
  simp only [isContinuation, toNat_ofNat_lt h, beq_iff_eq]
  omega

theorem assemble_ofNat {c : Char} {bits : Nat} {b : UInt8} {cs : Bytes}
    (h : cs.foldl (fun n c => n * 64 + c.toNat % 64) (b.toNat % 2 ^ bits) = c.toNat) :
    assemble bits b cs = c := by
  rw [assemble, h, Char.ofNat_toNat]

theorem firstChar_one {c : Char} (h1 : c.toNat ≤ 0x7F) (rest : Bytes) :
    firstChar (UInt8.ofNat c.toNat) rest = (c, 0) := by
  have hb : c.toNat < 256 := by omega
  have hw : charWidth (UInt8.ofNat c.toNat) = 1 := by
    simp only [charWidth, toNat_ofNat_lt hb, if_pos (show c.toNat < 0x80 by omega)]
  simp only [firstChar, hw]
  rw [assemble_ofNat (c := c) (by simp only [List.foldl_nil, toNat_ofNat_lt hb]; omega)]

theorem firstChar_two {c : Char} (h1 : ¬c.toNat ≤ 0x7F) (h2 : c.toNat ≤ 0x7FF) (rest : Bytes) :
    firstChar (UInt8.ofNat (c.toNat / 64 % 0x20 + 0xC0))
      (UInt8.ofNat (c.toNat % 0x40 + 0x80) :: rest) = (c, 1) := by
  have hb : c.toNat / 64 % 0x20 + 0xC0 < 256 := by omega
  have hd : c.toNat % 0x40 + 0x80 < 256 := by omega
  have hw : charWidth (UInt8.ofNat (c.toNat / 64 % 0x20 + 0xC0)) = 2 := by
    simp only [charWidth, toNat_ofNat_lt hb, Bool.and_eq_true, decide_eq_true_eq]
    rw [if_neg (by omega), if_pos (by omega)]
  simp only [firstChar, hw, isContinuation_low, if_true]
  rw [assemble_ofNat (c := c) (by
    simp only [List.foldl_cons, List.foldl_nil, toNat_ofNat_lt hb, toNat_ofNat_lt hd]; omega)]

theorem firstChar_three {c : Char} (h2 : ¬c.toNat ≤ 0x7FF) (h3 : c.toNat ≤ 0xFFFF)
    (rest : Bytes) :
    firstChar (UInt8.ofNat (c.toNat / 4096 % 0x10 + 0xE0))
      (UInt8.ofNat (c.toNat / 64 % 0x40 + 0x80) :: UInt8.ofNat (c.toNat % 0x40 + 0x80) :: rest) =
      (c, 2) := by
  have hc := val_bounds c
  have hb : c.toNat / 4096 % 0x10 + 0xE0 < 256 := by omega
  have hd : c.toNat / 64 % 0x40 + 0x80 < 256 := by omega
  have he : c.toNat % 0x40 + 0x80 < 256 := by omega
  have hw : charWidth (UInt8.ofNat (c.toNat / 4096 % 0x10 + 0xE0)) = 3 := by
    simp only [charWidth, toNat_ofNat_lt hb, Bool.and_eq_true, decide_eq_true_eq]
    rw [if_neg (by omega), if_neg (by omega), if_pos (by omega)]
  have hs : isSecond (UInt8.ofNat (c.toNat / 4096 % 0x10 + 0xE0))
      (UInt8.ofNat (c.toNat / 64 % 0x40 + 0x80)) = true := by
    simp only [isSecond, isContinuation_low, toNat_ofNat_lt hb, toNat_ofNat_lt hd, beq_iff_eq]
    split_ifs <;> simp only [Bool.and_eq_true, decide_eq_true_eq] <;> omega
  simp only [firstChar, hw, hs, isContinuation_low, if_true]
  rw [assemble_ofNat (c := c) (by
    simp only [List.foldl_cons, List.foldl_nil, toNat_ofNat_lt hb, toNat_ofNat_lt hd,
      toNat_ofNat_lt he]; omega)]

theorem firstChar_four {c : Char} (h3 : ¬c.toNat ≤ 0xFFFF) (rest : Bytes) :
    firstChar (UInt8.ofNat (c.toNat / 262144 % 0x08 + 0xF0))
      (UInt8.ofNat (c.toNat / 4096 % 0x40 + 0x80) :: UInt8.ofNat (c.toNat / 64 % 0x40 + 0x80) ::
        UInt8.ofNat (c.toNat % 0x40 + 0x80) :: rest) = (c, 3) := by
  have hc := val_bounds c
  have hb : c.toNat / 262144 % 0x08 + 0xF0 < 256 := by omega
  have hd : c.toNat / 4096 % 0x40 + 0x80 < 256 := by omega
  have he : c.toNat / 64 % 0x40 + 0x80 < 256 := by omega
  have hf : c.toNat % 0x40 + 0x80 < 256 := by omega
  have hw : charWidth (UInt8.ofNat (c.toNat / 262144 % 0x08 + 0xF0)) = 4 := by
    simp only [charWidth, toNat_ofNat_lt hb, Bool.and_eq_true, decide_eq_true_eq]
    rw [if_neg (by omega), if_neg (by omega), if_neg (by omega), if_pos (by omega)]
  have hs : isSecond (UInt8.ofNat (c.toNat / 262144 % 0x08 + 0xF0))
      (UInt8.ofNat (c.toNat / 4096 % 0x40 + 0x80)) = true := by
    simp only [isSecond, isContinuation_low, toNat_ofNat_lt hb, toNat_ofNat_lt hd, beq_iff_eq]
    split_ifs <;> simp only [Bool.and_eq_true, decide_eq_true_eq] <;> omega
  simp only [firstChar, hw, hs, isContinuation_low, if_true]
  rw [assemble_ofNat (c := c) (by
    simp only [List.foldl_cons, List.foldl_nil, toNat_ofNat_lt hb, toNat_ofNat_lt hd,
      toNat_ofNat_lt he, toNat_ofNat_lt hf]; omega)]

/-- Reading the bytes of one character consumes them all and gives the character. -/
theorem firstChar_encodeChar (c : Char) (rest : Bytes) :
    ∃ b cs, String.utf8EncodeChar c = b :: cs ∧ firstChar b (cs ++ rest) = (c, cs.length) := by
  by_cases h1 : c.toNat ≤ 0x7F
  · exact ⟨_, _, encodeChar_one h1, firstChar_one h1 rest⟩
  by_cases h2 : c.toNat ≤ 0x7FF
  · exact ⟨_, _, encodeChar_two h1 h2, firstChar_two h1 h2 rest⟩
  by_cases h3 : c.toNat ≤ 0xFFFF
  · exact ⟨_, _, encodeChar_three h1 h2 h3, firstChar_three h2 h3 rest⟩
  · exact ⟨_, _, encodeChar_four h1 h2 h3, firstChar_four h3 rest⟩

theorem decodeFrom_skip (taken rest : Bytes) :
    decodeFrom taken.length (taken ++ rest) = decodeFrom 0 rest := by
  induction taken with
  | nil => rfl
  | cons b taken ih => exact ih

theorem decodeUtf8Lossy_encodeChar (c : Char) (rest : Bytes) :
    decodeUtf8Lossy (String.utf8EncodeChar c ++ rest) = c :: decodeUtf8Lossy rest := by
  obtain ⟨b, cs, hbytes, hfirst⟩ := firstChar_encodeChar c rest
  rw [hbytes, List.cons_append, decodeUtf8Lossy, decodeFrom, hfirst, decodeFrom_skip]
  rfl

theorem decodeUtf8Lossy_encodeUtf8 (t : Text) : decodeUtf8Lossy (encodeUtf8 t) = t := by
  induction t with
  | nil => rfl
  | cons c t ih => rw [encodeUtf8_cons, decodeUtf8Lossy_encodeChar, ih]

example : decodeUtf8Lossy [0x61, 0xFF, 0xE2, 0x82] = ['a', replacement, replacement] := by
  decide +kernel

end Library
