import KubeRbacProxy.Library.Percent

/-! Requests and their headers.  A header name is a lower-case token, as the `http` crate stores it,
and a header map lists names and values in the order of arrival. -/

namespace KubeRbacProxy

open Library

def isHeaderChar (c : Char) : Bool :=
  ('a' ≤ c && c ≤ 'z') || ('0' ≤ c && c ≤ '9') || "!#$%&'*+-.^_`|~".toList.contains c

structure HeaderName where
  text : Text
  valid : text ≠ [] ∧ text.all isHeaderChar ∧ text.length < 2 ^ 16
  deriving DecidableEq

def HeaderName.parse (t : Text) : Option HeaderName :=
  if h : toAsciiLowercase t ≠ [] ∧ (toAsciiLowercase t).all isHeaderChar ∧
      (toAsciiLowercase t).length < 2 ^ 16 then
    some ⟨toAsciiLowercase t, h⟩
  else none

/-- The bytes that a header value may have: tabs, and everything but control bytes. -/
def isHeaderValueByte (b : UInt8) : Bool := (32 ≤ b && b != 127) || b == 9

def headerValue (t : Text) : Option Bytes :=
  if (encodeUtf8 t).all isHeaderValueByte then some (encodeUtf8 t) else none

def isVisibleAscii (b : UInt8) : Bool := (32 ≤ b && b < 127) || b == 9

/-- A header value as text, when all its bytes are visible ASCII, space, or tab. -/
def toStr (value : Bytes) : Option Text :=
  if value.all isVisibleAscii then some (value.map fun b => Char.ofNat b.toNat) else none

abbrev HeaderMap := List (HeaderName × Bytes)

def HeaderMap.getAll (headers : HeaderMap) (name : HeaderName) : List Bytes :=
  (headers.filter fun h => h.1 == name).map Prod.snd

def HeaderMap.get (headers : HeaderMap) (name : HeaderName) : Option Bytes :=
  (headers.getAll name).head?

def HeaderMap.insert (headers : HeaderMap) (name : HeaderName) (value : Bytes) : HeaderMap :=
  (headers.filter fun h => h.1 != name) ++ [(name, value)]

/-- The values under the name that `t` spells; a text that is no header name has none. -/
def HeaderMap.getAllText (headers : HeaderMap) (t : Text) : List Bytes :=
  match HeaderName.parse t with
  | some name => headers.getAll name
  | none => []

def HeaderMap.getText (headers : HeaderMap) (t : Text) : Option Bytes :=
  (headers.getAllText t).head?

structure Request where
  method : Text
  path : Text
  query : Option Text
  headers : HeaderMap

theorem HeaderMap.getAll_insert_self (headers : HeaderMap) (name : HeaderName) (value : Bytes) :
    (headers.insert name value).getAll name = [value] := by
  have hnone : (headers.filter fun h => h.1 != name).filter (fun h => h.1 == name) = [] := by
    simp [List.filter_filter]
  simp [HeaderMap.insert, HeaderMap.getAll, List.filter_append, hnone]

theorem HeaderMap.getAll_insert_ne (headers : HeaderMap) {name other : HeaderName} (value : Bytes)
    (h : other ≠ name) : (headers.insert name value).getAll other = headers.getAll other := by
  have hkeep : (headers.filter fun h => h.1 != name).filter (fun h => h.1 == other) =
      headers.filter fun h => h.1 == other := by
    rw [List.filter_filter]
    refine List.filter_congr fun entry _ => ?_
    by_cases he : entry.1 = other
    · simp [he, h]
    · simp [he]
  simp [HeaderMap.insert, HeaderMap.getAll, List.filter_append, hkeep, Ne.symm h]

theorem HeaderMap.get_insert_self (headers : HeaderMap) (name : HeaderName) (value : Bytes) :
    (headers.insert name value).get name = some value := by
  rw [HeaderMap.get, HeaderMap.getAll_insert_self, List.head?_cons]

/-! ### Values that are read back -/

theorem headerValue_some {t : Text} {value : Bytes} (h : headerValue t = some value) :
    value = encodeUtf8 t := by
  unfold headerValue at h
  split at h
  · exact (Option.some.inj h).symm
  · contradiction

theorem visible_lt {b : UInt8} (h : isVisibleAscii b = true) : b.toNat < 128 := by
  simp only [isVisibleAscii, Bool.or_eq_true, Bool.and_eq_true, decide_eq_true_eq, beq_iff_eq,
    UInt8.lt_iff_toNat_lt, ← UInt8.toNat_inj] at h
  have h127 : (127 : UInt8).toNat = 127 := rfl
  have h9 : (9 : UInt8).toNat = 9 := rfl
  omega

theorem encodeChar_ascii {c : Char} (h : ∀ b ∈ String.utf8EncodeChar c, b.toNat < 128) :
    String.utf8EncodeChar c = [UInt8.ofNat c.toNat] ∧ c.toNat ≤ 0x7F := by
  have hv := val_bounds c
  by_cases h1 : c.toNat ≤ 0x7F
  · exact ⟨encodeChar_one h1, h1⟩
  exfalso
  by_cases h2 : c.toNat ≤ 0x7FF
  · rw [encodeChar_two h1 h2] at h
    have := h _ List.mem_cons_self
    rw [toNat_ofNat_lt (by omega)] at this
    omega
  by_cases h3 : c.toNat ≤ 0xFFFF
  · rw [encodeChar_three h1 h2 h3] at h
    have := h _ List.mem_cons_self
    rw [toNat_ofNat_lt (by omega)] at this
    omega
  · rw [encodeChar_four h1 h2 h3] at h
    have := h _ List.mem_cons_self
    rw [toNat_ofNat_lt (by omega)] at this
    omega

/-- A text that a header value is read as is the text that the value was made from. -/
theorem toStr_encodeUtf8 {t s : Text} (h : toStr (encodeUtf8 t) = some s) : s = t := by
  unfold toStr at h
  split at h
  · rename_i hall
    obtain rfl := Option.some.inj h
    clear h
    induction t with
    | nil => rfl
    | cons c t ih =>
      rw [encodeUtf8_cons, List.all_append, Bool.and_eq_true] at hall
      obtain ⟨hbytes, hle⟩ := encodeChar_ascii fun b hb =>
        visible_lt (List.all_eq_true.mp hall.1 b hb)
      rw [encodeUtf8_cons, List.map_append, ih hall.2, hbytes]
      simp [toNat_ofNat_lt (show c.toNat < 256 by omega), Char.ofNat_toNat]
  · contradiction

/-- A visible ASCII character, a space, or a tab. -/
def VisibleChar (c : Char) : Prop := (0x20 ≤ c.toNat ∧ c.toNat < 0x7F) ∨ c.toNat = 9

theorem isVisibleAscii_ofNat {c : Char} (h : c.toNat ≤ 0x7F) :
    isVisibleAscii (UInt8.ofNat c.toNat) = true ↔ VisibleChar c := by
  have hbyte : (UInt8.ofNat c.toNat).toNat = c.toNat := toNat_ofNat_lt (by omega)
  have h32 : (32 : UInt8).toNat = 32 := rfl
  have h127 : (127 : UInt8).toNat = 127 := rfl
  have h9 : (9 : UInt8).toNat = 9 := rfl
  simp only [isVisibleAscii, VisibleChar, Bool.or_eq_true, Bool.and_eq_true, decide_eq_true_eq,
    beq_iff_eq, UInt8.lt_iff_toNat_lt, UInt8.le_iff_toNat_le, ← UInt8.toNat_inj, hbyte, h32, h127,
    h9]

/-- The encoding of a text is readable exactly when all its characters are visible ASCII. -/
theorem encodeUtf8_visible_iff {t : Text} :
    (encodeUtf8 t).all isVisibleAscii = true ↔ ∀ c ∈ t, VisibleChar c := by
  induction t with
  | nil => simp [encodeUtf8_nil]
  | cons c t ih =>
    rw [encodeUtf8_cons, List.all_append, Bool.and_eq_true, ih, List.forall_mem_cons]
    refine and_congr_left fun _ => ⟨fun h => ?_, fun h => ?_⟩
    · obtain ⟨hbytes, hle⟩ := encodeChar_ascii fun b hb => visible_lt (List.all_eq_true.mp h b hb)
      rw [hbytes, List.all_cons, List.all_nil, Bool.and_true] at h
      exact (isVisibleAscii_ofNat hle).mp h
    · have hle : c.toNat ≤ 0x7F := by
        unfold VisibleChar at h
        omega
      rw [encodeChar_one hle, List.all_cons, List.all_nil, Bool.and_true]
      exact (isVisibleAscii_ofNat hle).mpr h

theorem toStr_encodeUtf8_iff {t s : Text} :
    toStr (encodeUtf8 t) = some s ↔ s = t ∧ ∀ c ∈ t, VisibleChar c := by
  constructor
  · intro h
    refine ⟨toStr_encodeUtf8 h, ?_⟩
    unfold toStr at h
    split at h
    · rename_i hall
      exact encodeUtf8_visible_iff.mp hall
    · contradiction
  · rintro ⟨rfl, h⟩
    have hsome : ∃ r, toStr (encodeUtf8 s) = some r := by
      rw [toStr, if_pos (encodeUtf8_visible_iff.mpr h)]
      exact ⟨_, rfl⟩
    obtain ⟨r, hr⟩ := hsome
    rw [hr, toStr_encodeUtf8 hr]

theorem headerValue_visible {t : Text} (h : ∀ c ∈ t, VisibleChar c) :
    headerValue t = some (encodeUtf8 t) := by
  have hbyte : ∀ b, isVisibleAscii b = true → isHeaderValueByte b = true := by
    intro b hb
    simp only [isVisibleAscii, isHeaderValueByte, Bool.or_eq_true, Bool.and_eq_true,
      decide_eq_true_eq, bne_iff_ne] at hb ⊢
    exact hb.imp_left (And.imp_right fun hlt => UInt8.ne_of_lt hlt)
  rw [headerValue, if_pos]
  exact List.all_eq_true.mpr fun b hb =>
    hbyte b (List.all_eq_true.mp (encodeUtf8_visible_iff.mpr h) b hb)

end KubeRbacProxy
