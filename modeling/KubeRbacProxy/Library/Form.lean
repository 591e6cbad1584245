import KubeRbacProxy.Library.Percent

/-! The spellings of a form-encoded query.  A byte of a name or a value stands for itself, or as an
escape, and a space also as `+`; a query has any number of empty sequences between its pairs.  All
the spellings of a list of pairs are read as that list, and each list has one. -/

namespace Library

/-- `raw` spells `bytes`, where the bytes of `reserved` do not stand for themselves. -/
inductive Spells (reserved : List UInt8) : Bytes → Bytes → Prop
  | nil : Spells reserved [] []
  | itself {b : UInt8} {raw bytes : Bytes} (hb : b ∉ reserved) (h : Spells reserved raw bytes) :
      Spells reserved (b :: raw) (b :: bytes)
  | plus {raw bytes : Bytes} (h : Spells reserved raw bytes) :
      Spells reserved (0x2B :: raw) (0x20 :: bytes)
  | escape {x y : UInt8} {high low : Nat} {raw bytes : Bytes} (hx : hexDigit x = some high)
      (hy : hexDigit y = some low) (h : Spells reserved raw bytes) :
      Spells reserved (0x25 :: x :: y :: raw) (UInt8.ofNat (high * 16 + low) :: bytes)

/-- The bytes `%`, `+`, and `&`, and in names also `=`. -/
def valueReserved : List UInt8 := [0x25, 0x2B, 0x26]

def nameReserved : List UInt8 := 0x3D :: valueReserved

/-- The sequences between `&` spell the pairs. -/
inductive SpellsPairs : List Bytes → List (Text × Text) → Prop
  | nil : SpellsPairs [] []
  | blank {rest : List Bytes} {pairs : List (Text × Text)} (h : SpellsPairs rest pairs) :
      SpellsPairs ([] :: rest) pairs
  | name {raw : Bytes} {name : Text} {rest : List Bytes} {pairs : List (Text × Text)}
      (hname : Spells nameReserved raw (encodeUtf8 name)) (hne : name ≠ [])
      (h : SpellsPairs rest pairs) : SpellsPairs (raw :: rest) ((name, []) :: pairs)
  | pair {rawName rawValue : Bytes} {name value : Text} {rest : List Bytes}
      {pairs : List (Text × Text)} (hname : Spells nameReserved rawName (encodeUtf8 name))
      (hvalue : Spells valueReserved rawValue (encodeUtf8 value)) (h : SpellsPairs rest pairs) :
      SpellsPairs ((rawName ++ 0x3D :: rawValue) :: rest) ((name, value) :: pairs)

def SpellsForm (query : Text) (pairs : List (Text × Text)) : Prop :=
  ∃ sequences, encodeUtf8 query = [0x26].intercalate sequences ∧ SpellsPairs sequences pairs

/-! ### Reading a spelling -/

theorem hexDigit_not_reserved {x : UInt8} {n : Nat} (h : hexDigit x = some n) :
    x ∉ nameReserved := by
  intro hmem
  simp only [nameReserved, valueReserved, List.mem_cons, List.not_mem_nil, or_false] at hmem
  rcases hmem with rfl | rfl | rfl | rfl <;> contradiction

theorem percentDecode_cons {b : UInt8} (h : b ≠ 0x25) (rest : Bytes) :
    percentDecode (b :: rest) = b :: percentDecode rest := by
  rw [percentDecode, percentDecodeFrom, if_neg h]
  rfl

theorem percentDecode_escape {x y : UInt8} {high low : Nat} (hx : hexDigit x = some high)
    (hy : hexDigit y = some low) (rest : Bytes) :
    percentDecode (0x25 :: x :: y :: rest) =
      UInt8.ofNat (high * 16 + low) :: percentDecode rest := by
  simp only [percentDecode, percentDecodeFrom, escapedByte, hx, hy, if_true]

def plusToSpace (b : UInt8) : UInt8 := if b = 0x2B then 0x20 else b

theorem plusToSpace_ne {b : UInt8} (h : b ≠ 0x2B) : plusToSpace b = b := if_neg h

theorem Spells.decode {reserved : List UInt8} (hreserved : valueReserved ⊆ reserved)
    {raw bytes : Bytes} (h : Spells reserved raw bytes) :
    percentDecode (raw.map plusToSpace) = bytes := by
  have hdigit : ∀ {x : UInt8} {n : Nat}, hexDigit x = some n → plusToSpace x = x := by
    intro x n hx
    apply plusToSpace_ne
    rintro rfl
    contradiction
  induction h with
  | nil => rfl
  | @itself b raw bytes hb _ ih =>
    have hplus : b ≠ 0x2B := fun he => hb (hreserved (he ▸ by decide))
    have hpercent : b ≠ 0x25 := fun he => hb (hreserved (he ▸ by decide))
    rw [List.map_cons, plusToSpace_ne hplus, percentDecode_cons hpercent, ih]
  | plus _ ih =>
    rw [List.map_cons, show plusToSpace 0x2B = 0x20 from rfl, percentDecode_cons (by decide), ih]
  | escape hx hy _ ih =>
    rw [List.map_cons, List.map_cons, List.map_cons, plusToSpace_ne (by decide), hdigit hx,
      hdigit hy, percentDecode_escape hx hy, ih]

theorem Spells.formDecode {reserved : List UInt8} (hreserved : valueReserved ⊆ reserved)
    {raw : Bytes} {t : Text} (h : Spells reserved raw (encodeUtf8 t)) : formDecode raw = t := by
  have hdecode : percentDecode (raw.map plusToSpace) = encodeUtf8 t := h.decode hreserved
  exact (congrArg decodeUtf8Lossy hdecode).trans (decodeUtf8Lossy_encodeUtf8 t)

/-- A separator does not occur in what is spelled, where it is reserved. -/
theorem Spells.not_mem {reserved : List UInt8} {raw bytes : Bytes} (h : Spells reserved raw bytes)
    {separator : UInt8} (hreserved : separator ∈ reserved) (hform : separator = 0x26 ∨
      separator = 0x3D) : separator ∉ raw := by
  have hname : separator ∈ nameReserved := by rcases hform with rfl | rfl <;> decide
  induction h with
  | nil => exact List.not_mem_nil
  | itself hb _ ih =>
    rw [List.mem_cons, not_or]
    exact ⟨fun he => hb (he ▸ hreserved), ih⟩
  | plus _ ih =>
    rw [List.mem_cons, not_or]
    exact ⟨by rcases hform with rfl | rfl <;> decide, ih⟩
  | escape hx hy _ ih =>
    simp only [List.mem_cons, not_or]
    exact ⟨by rcases hform with rfl | rfl <;> decide,
      fun he => hexDigit_not_reserved hx (he ▸ hname),
      fun he => hexDigit_not_reserved hy (he ▸ hname), ih⟩

theorem Spells.no_equals {raw : Bytes} {t : Text} (h : Spells nameReserved raw (encodeUtf8 t)) :
    ∀ b ∈ raw, (b != 0x3D) = true := by
  intro b hb
  have hnot := h.not_mem (by decide) (Or.inr rfl)
  rw [bne_iff_ne]
  rintro rfl
  exact hnot hb

theorem formPair_pair {rawName rawValue : Bytes} {name value : Text}
    (hname : Spells nameReserved rawName (encodeUtf8 name))
    (hvalue : Spells valueReserved rawValue (encodeUtf8 value)) :
    formPair (rawName ++ 0x3D :: rawValue) = (name, value) := by
  rw [formPair, List.takeWhile_append_of_pos hname.no_equals,
    List.dropWhile_append_of_pos hname.no_equals, List.takeWhile_cons_of_neg (by decide),
    List.dropWhile_cons_of_neg (by decide), List.append_nil, List.drop_one, List.tail_cons,
    hname.formDecode (by decide), hvalue.formDecode (by decide)]

theorem formPair_name {raw : Bytes} {name : Text}
    (hname : Spells nameReserved raw (encodeUtf8 name)) : formPair raw = (name, []) := by
  rw [formPair, List.takeWhile_eq_self_iff.mpr hname.no_equals,
    List.dropWhile_eq_nil_iff.mpr hname.no_equals, hname.formDecode (by decide)]
  rfl

theorem SpellsPairs.read {sequences : List Bytes} {pairs : List (Text × Text)}
    (h : SpellsPairs sequences pairs) : (sequences.filter (· != [])).map formPair = pairs := by
  induction h with
  | nil => rfl
  | blank _ ih =>
    rw [List.filter_cons_of_neg (by decide)]
    exact ih
  | @name raw name rest pairs hname hne _ ih =>
    have hraw : raw ≠ [] := by
      rintro rfl
      generalize hbytes : encodeUtf8 name = bytes at hname
      cases hname
      exact encodeUtf8_ne_nil hne hbytes
    rw [List.filter_cons_of_pos (by simpa using hraw), List.map_cons, formPair_name hname, ih]
  | pair hname hvalue _ ih =>
    rw [List.filter_cons_of_pos (by simp), List.map_cons, formPair_pair hname hvalue, ih]

theorem SpellsPairs.no_ampersand {sequences : List Bytes} {pairs : List (Text × Text)}
    (h : SpellsPairs sequences pairs) : ∀ sequence ∈ sequences, (0x26 : UInt8) ∉ sequence := by
  induction h with
  | nil => simp
  | blank _ ih =>
    rw [List.forall_mem_cons]
    exact ⟨List.not_mem_nil, ih⟩
  | name hname _ _ ih =>
    rw [List.forall_mem_cons]
    exact ⟨hname.not_mem (by decide) (Or.inl rfl), ih⟩
  | pair hname hvalue _ ih =>
    rw [List.forall_mem_cons]
    refine ⟨fun hmem => ?_, ih⟩
    rcases List.mem_append.mp hmem with hleft | hright
    · exact hname.not_mem (by decide) (Or.inl rfl) hleft
    · rcases List.mem_cons.mp hright with heq | hright
      · contradiction
      · exact hvalue.not_mem (by decide) (Or.inl rfl) hright

/-- Every spelling of the pairs is read as the pairs. -/
theorem parseForm_spells {query : Text} {pairs : List (Text × Text)} (h : SpellsForm query pairs) :
    parseForm query = pairs := by
  obtain ⟨sequences, hquery, hpairs⟩ := h
  rw [parseForm, hquery]
  by_cases hnil : sequences = []
  · subst hnil
    cases hpairs
    rfl
  · rw [List.splitOn_intercalate 0x26 hpairs.no_ampersand hnil, hpairs.read]

/-! ### A spelling for every list -/

theorem spells_self {reserved : List UInt8} {bytes : Bytes} (h : ∀ b ∈ bytes, b ∉ reserved) :
    Spells reserved bytes bytes := by
  induction bytes with
  | nil => exact .nil
  | cons b bytes ih =>
    rw [List.forall_mem_cons] at h
    exact .itself h.1 (ih h.2)

theorem spells_percentEncode (reserved : List UInt8) (t : Text) :
    Spells reserved (encodeUtf8 (percentEncode t)) (encodeUtf8 t) := by
  rw [percentEncode]
  induction encodeUtf8 t with
  | nil => exact .nil
  | cons b bytes ih =>
    have hb := b.toNat_lt
    rw [List.flatMap_cons, encodeUtf8_append, encodeUtf8_percentEncodeByte]
    have hvalue : UInt8.ofNat (b.toNat / 16 * 16 + b.toNat % 16) = b := by
      rw [show b.toNat / 16 * 16 + b.toNat % 16 = b.toNat by omega, UInt8.ofNat_toNat]
    have hspelled := Spells.escape (hexDigit_hexChar (show b.toNat / 16 < 16 by omega))
      (hexDigit_hexChar (show b.toNat % 16 < 16 by omega)) ih
    rw [hvalue] at hspelled
    exact hspelled

/-- The pairs with every byte escaped. -/
def encodeForm (pairs : List (Text × Text)) : Text :=
  ['&'].intercalate (pairs.map fun pair => percentEncode pair.1 ++ '=' :: percentEncode pair.2)

theorem encodeUtf8_intercalate (parts : List Text) :
    encodeUtf8 (['&'].intercalate parts) = [0x26].intercalate (parts.map encodeUtf8) := by
  induction parts with
  | nil => rfl
  | cons part parts ih =>
    cases parts with
    | nil => simp
    | cons second parts =>
      rw [List.intercalate_cons_cons, List.map_cons, List.map_cons, List.intercalate_cons_cons,
        encodeUtf8_append, encodeUtf8_append, ih, List.map_cons]
      rfl

theorem spells_encodeForm (pairs : List (Text × Text)) : SpellsForm (encodeForm pairs) pairs := by
  refine ⟨_, encodeUtf8_intercalate _, ?_⟩
  induction pairs with
  | nil => exact .nil
  | cons pair pairs ih =>
    rw [List.map_cons, List.map_cons, encodeUtf8_append]
    exact .pair (spells_percentEncode _ pair.1) (spells_percentEncode _ pair.2) ih

end Library
