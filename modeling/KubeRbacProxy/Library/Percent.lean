import KubeRbacProxy.Library.Utf8
import Mathlib.Tactic.IntervalCases

/-! Percent-encoding and `application/x-www-form-urlencoded` queries.  A `%` that two hexadecimal
digits do not follow stands for itself.  Decoding leaves a text without `%` as it is, and reads a
text whose every byte is encoded as that text. -/

namespace Library

def hexDigit (b : UInt8) : Option Nat :=
  let n := b.toNat
  if 0x30 ≤ n ∧ n ≤ 0x39 then some (n - 0x30)
  else if 0x41 ≤ n ∧ n ≤ 0x46 then some (n - 0x41 + 10)
  else if 0x61 ≤ n ∧ n ≤ 0x66 then some (n - 0x61 + 10)
  else none

def escapedByte : Bytes → Option UInt8
  | h :: l :: _ =>
    match hexDigit h, hexDigit l with
    | some x, some y => some (UInt8.ofNat (x * 16 + y))
    | _, _ => none
  | _ => none

/-- `percentDecode` after `skip` more digits of the escape read last. -/
def percentDecodeFrom : Nat → Bytes → Bytes
  | _, [] => []
  | skip + 1, _ :: rest => percentDecodeFrom skip rest
  | 0, b :: rest =>
    if b = 0x25 then
      match escapedByte rest with
      | some value => value :: percentDecodeFrom 2 rest
      | none => b :: percentDecodeFrom 0 rest
    else b :: percentDecodeFrom 0 rest

def percentDecode (bytes : Bytes) : Bytes := percentDecodeFrom 0 bytes

/-- The text that a percent-encoded text stands for, with ill-formed UTF-8 replaced. -/
def percentDecodeStr (t : Text) : Text := decodeUtf8Lossy (percentDecode (encodeUtf8 t))

def hexChar (n : Nat) : Char := Char.ofNat (if n < 10 then 0x30 + n else 0x41 + (n - 10))

def percentEncodeByte (b : UInt8) : Text := ['%', hexChar (b.toNat / 16), hexChar (b.toNat % 16)]

def percentEncode (t : Text) : Text := (encodeUtf8 t).flatMap percentEncodeByte

/-! ### Form-encoded queries -/

/-- A component of a form-encoded query: `+` is a space, and the rest is percent-encoded. -/
def formDecode (bytes : Bytes) : Text :=
  decodeUtf8Lossy (percentDecode (bytes.map fun b => if b = 0x2B then 0x20 else b))

def formPair (sequence : Bytes) : Text × Text :=
  (formDecode (sequence.takeWhile (· != 0x3D)),
    formDecode ((sequence.dropWhile (· != 0x3D)).drop 1))

/-- The names and values of a query, in order; empty sequences between `&` are skipped. -/
def parseForm (query : Text) : List (Text × Text) :=
  (((encodeUtf8 query).splitOn 0x26).filter (· != [])).map formPair

example : parseForm "a=b%20c&&d&e=f=g+h".toList =
    [("a".toList, "b c".toList), ("d".toList, []), ("e".toList, "f=g h".toList)] := by
  decide +kernel

/-! ### Text without escapes -/

theorem encodeUtf8_no_percent {t : Text} (h : '%' ∉ t) : (0x25 : UInt8) ∉ encodeUtf8 t := by
  intro hmem
  obtain ⟨c, hc, hb⟩ := List.mem_flatMap.mp hmem
  have hv := val_bounds c
  have hne : c.toNat ≠ 0x25 := fun he => h (by
    have : c = '%' := by rw [← Char.ofNat_toNat c, he]
    exact this ▸ hc)
  have apart : ∀ n, n < 256 → n ≠ 0x25 → (0x25 : UInt8) ≠ UInt8.ofNat n := fun n hn hne he =>
    hne (by rw [← toNat_ofNat_lt hn, ← he]; rfl)
  by_cases h1 : c.toNat ≤ 0x7F
  · rw [encodeChar_one h1, List.mem_singleton] at hb
    exact apart _ (by omega) hne hb
  by_cases h2 : c.toNat ≤ 0x7FF
  · rw [encodeChar_two h1 h2] at hb
    simp only [List.mem_cons, List.not_mem_nil, or_false] at hb
    rcases hb with hb | hb <;> exact apart _ (by omega) (by omega) hb
  by_cases h3 : c.toNat ≤ 0xFFFF
  · rw [encodeChar_three h1 h2 h3] at hb
    simp only [List.mem_cons, List.not_mem_nil, or_false] at hb
    rcases hb with hb | hb | hb <;> exact apart _ (by omega) (by omega) hb
  · rw [encodeChar_four h1 h2 h3] at hb
    simp only [List.mem_cons, List.not_mem_nil, or_false] at hb
    rcases hb with hb | hb | hb | hb <;> exact apart _ (by omega) (by omega) hb

theorem percentDecode_no_percent {bytes : Bytes} (h : (0x25 : UInt8) ∉ bytes) :
    percentDecode bytes = bytes := by
  unfold percentDecode
  induction bytes with
  | nil => rfl
  | cons b bytes ih =>
    rw [List.mem_cons, not_or] at h
    rw [percentDecodeFrom, if_neg (Ne.symm h.1), ih h.2]

theorem percentDecodeStr_no_percent {t : Text} (h : '%' ∉ t) : percentDecodeStr t = t := by
  rw [percentDecodeStr, percentDecode_no_percent (encodeUtf8_no_percent h),
    decodeUtf8Lossy_encodeUtf8]

/-! ### Text that is all escapes -/

theorem hexChar_bounds {n : Nat} (h : n < 16) :
    (hexChar n).toNat = if n < 10 then 0x30 + n else 0x41 + (n - 10) := by
  interval_cases n <;> rfl

theorem hexDigit_hexChar {n : Nat} (h : n < 16) :
    hexDigit (UInt8.ofNat (hexChar n).toNat) = some n := by
  interval_cases n <;> rfl

theorem encodeUtf8_hexChar {n : Nat} (h : n < 16) :
    String.utf8EncodeChar (hexChar n) = [UInt8.ofNat (hexChar n).toNat] := by
  apply encodeChar_one
  rw [hexChar_bounds h]
  split <;> omega

theorem encodeUtf8_percentEncodeByte (b : UInt8) :
    encodeUtf8 (percentEncodeByte b) = [0x25, UInt8.ofNat (hexChar (b.toNat / 16)).toNat,
      UInt8.ofNat (hexChar (b.toNat % 16)).toNat] := by
  have hb := b.toNat_lt
  simp only [percentEncodeByte, encodeUtf8_cons, encodeUtf8_nil,
    encodeUtf8_hexChar (show b.toNat / 16 < 16 by omega),
    encodeUtf8_hexChar (show b.toNat % 16 < 16 by omega)]
  rfl

theorem percentDecode_encodeByte (b : UInt8) (rest : Bytes) :
    percentDecode (encodeUtf8 (percentEncodeByte b) ++ rest) = b :: percentDecode rest := by
  have hb := b.toNat_lt
  rw [encodeUtf8_percentEncodeByte]
  simp only [percentDecode, List.cons_append, List.nil_append, percentDecodeFrom, escapedByte,
    hexDigit_hexChar (show b.toNat / 16 < 16 by omega),
    hexDigit_hexChar (show b.toNat % 16 < 16 by omega), if_true]
  rw [show b.toNat / 16 * 16 + b.toNat % 16 = b.toNat by omega, UInt8.ofNat_toNat]

theorem percentDecode_encodeBytes (bytes : Bytes) :
    percentDecode (encodeUtf8 (bytes.flatMap percentEncodeByte)) = bytes := by
  induction bytes with
  | nil => rfl
  | cons b bytes ih =>
    rw [List.flatMap_cons, encodeUtf8_append, percentDecode_encodeByte, ih]

theorem percentDecodeStr_percentEncode (t : Text) : percentDecodeStr (percentEncode t) = t := by
  rw [percentDecodeStr, percentEncode, percentDecode_encodeBytes, decodeUtf8Lossy_encodeUtf8]

theorem encodeUtf8_ne_nil {t : Text} (h : t ≠ []) : encodeUtf8 t ≠ [] := by
  intro he
  have := decodeUtf8Lossy_encodeUtf8 t
  rw [he] at this
  exact h this.symm

theorem percentEncode_head {t : Text} (h : t ≠ []) : ∃ rest, percentEncode t = '%' :: rest := by
  obtain ⟨b, bytes, hb⟩ := List.exists_cons_of_ne_nil (encodeUtf8_ne_nil h)
  exact ⟨_, by rw [percentEncode, hb, List.flatMap_cons, percentEncodeByte, List.cons_append]⟩

theorem percentDecodeStr_eq_nil {t : Text} : percentDecodeStr t = [] ↔ t = [] := by
  constructor
  · intro h
    by_contra hne
    obtain ⟨b, bytes, hb⟩ := List.exists_cons_of_ne_nil (encodeUtf8_ne_nil hne)
    obtain ⟨c, decoded, hc⟩ : ∃ c decoded, percentDecode (b :: bytes) = c :: decoded := by
      simp only [percentDecode, percentDecodeFrom]
      split
      · split <;> exact ⟨_, _, rfl⟩
      · exact ⟨_, _, rfl⟩
    rw [percentDecodeStr, hb, hc, decodeUtf8Lossy, decodeFrom] at h
    contradiction
  · rintro rfl
    rfl

theorem percentEncode_no_slash (t : Text) : '/' ∉ percentEncode t := by
  have hdigit : ∀ n, n < 16 → hexChar n ≠ '/' := by
    intro n hn
    interval_cases n <;> decide
  intro h
  obtain ⟨b, -, hb⟩ := List.mem_flatMap.mp h
  have hlt := b.toNat_lt
  simp only [percentEncodeByte, List.mem_cons, List.not_mem_nil, or_false] at hb
  rcases hb with hb | hb | hb
  · contradiction
  · exact hdigit _ (by omega) hb.symm
  · exact hdigit _ (by omega) hb.symm

end Library
