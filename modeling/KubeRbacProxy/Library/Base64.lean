import KubeRbacProxy.Library.Text

/-! Base64 with the standard alphabet and canonical padding: three bytes are four symbols, and a
shorter end is padded, with zeros in the bits that stand for nothing.  `decode` accepts the texts
that `encode` makes and no others. -/

namespace Library.Base64

def alphabet : Text := "ABCDEFGHIJKLMNOPQRSTUVWXYZabcdefghijklmnopqrstuvwxyz0123456789+/".toList

def pad : Char := '='

def symbol (n : Nat) : Char := alphabet.getD n pad

def value (c : Char) : Option Nat := if c ∈ alphabet then some (alphabet.idxOf c) else none

def encode : Bytes → Text
  | [] => []
  | [x] => [symbol (x.toNat / 4), symbol (x.toNat % 4 * 16), pad, pad]
  | [x, y] => [symbol (x.toNat / 4), symbol (x.toNat % 4 * 16 + y.toNat / 16),
      symbol (y.toNat % 16 * 4), pad]
  | x :: y :: z :: rest => symbol (x.toNat / 4) :: symbol (x.toNat % 4 * 16 + y.toNat / 16) ::
      symbol (y.toNat % 16 * 4 + z.toNat / 64) :: symbol (z.toNat % 64) :: encode rest

/-! The bytes that four values stand for. -/

def first (p q : Nat) : UInt8 := UInt8.ofNat (p * 4 + q / 16)

def second (q r : Nat) : UInt8 := UInt8.ofNat (q % 16 * 16 + r / 4)

def third (r s : Nat) : UInt8 := UInt8.ofNat (r % 4 * 64 + s)

/-- The bytes of a group of four symbols with those of the symbols after it. -/
def group (p q : Nat) (c d : Char) (rest : Text) (later : Option Bytes) : Option Bytes :=
  match value c, value d with
  | some r, some s => later.map fun bytes => first p q :: second q r :: third r s :: bytes
  | some r, none =>
    if d = pad ∧ rest = [] ∧ r % 4 = 0 then some [first p q, second q r] else none
  | none, _ => if c = pad ∧ d = pad ∧ rest = [] ∧ q % 16 = 0 then some [first p q] else none

def decode : Text → Option Bytes
  | [] => some []
  | a :: b :: c :: d :: rest => do
    let p ← value a
    let q ← value b
    group p q c d rest (decode rest)
  | _ => none

/-! ### Symbols -/

theorem alphabet_length : alphabet.length = 64 := by decide +kernel

theorem alphabet_nodup : alphabet.Nodup := by decide +kernel

theorem pad_not_mem : pad ∉ alphabet := by decide +kernel

theorem symbol_eq {n : Nat} (h : n < 64) : ∃ hn : n < alphabet.length, symbol n = alphabet[n] := by
  have hn : n < alphabet.length := by rwa [alphabet_length]
  refine ⟨hn, ?_⟩
  rw [symbol, List.getD_eq_getElem?_getD, List.getElem?_eq_getElem hn, Option.getD_some]

theorem value_symbol {n : Nat} (h : n < 64) : value (symbol n) = some n := by
  obtain ⟨hn, hsymbol⟩ := symbol_eq h
  rw [hsymbol, value, if_pos (List.getElem_mem hn), alphabet_nodup.idxOf_getElem]

theorem value_pad : value pad = none := if_neg pad_not_mem

theorem value_eq_some {c : Char} {n : Nat} : value c = some n ↔ n < 64 ∧ c = symbol n := by
  constructor
  · intro h
    unfold value at h
    split at h
    · rename_i hmem
      obtain rfl := Option.some.inj h
      have hlt : alphabet.idxOf c < 64 := by
        rw [← alphabet_length]
        exact List.idxOf_lt_length_of_mem hmem
      obtain ⟨hn, hsymbol⟩ := symbol_eq hlt
      exact ⟨hlt, by rw [hsymbol, List.getElem_idxOf]⟩
    · contradiction
  · rintro ⟨h, rfl⟩
    exact value_symbol h

/-! ### Round trips -/

theorem byte_lt (x : UInt8) : x.toNat < 256 := x.toNat_lt

theorem ofNat_eq {x : UInt8} {n : Nat} (h : n = x.toNat) : UInt8.ofNat n = x := by
  rw [h, UInt8.ofNat_toNat]

theorem first_eq (x : UInt8) {n : Nat} (h : n < 16) :
    first (x.toNat / 4) (x.toNat % 4 * 16 + n) = x :=
  ofNat_eq (by omega)

theorem second_eq (x y : UInt8) {n : Nat} (h : n < 4) :
    second (x.toNat % 4 * 16 + y.toNat / 16) (y.toNat % 16 * 4 + n) = y :=
  ofNat_eq (by have := byte_lt y; omega)

theorem third_eq (y z : UInt8) : third (y.toNat % 16 * 4 + z.toNat / 64) (z.toNat % 64) = z :=
  ofNat_eq (by have := byte_lt z; omega)

theorem decode_encode (bytes : Bytes) : decode (encode bytes) = some bytes := by
  induction bytes using encode.induct with
  | case1 => rfl
  | case2 x =>
    have hx := byte_lt x
    have hfirst := first_eq x (n := 0) (by omega)
    rw [Nat.add_zero] at hfirst
    simp only [encode, decode, Option.bind_eq_bind, value_symbol (show x.toNat / 4 < 64 by omega),
      value_symbol (show x.toNat % 4 * 16 < 64 by omega), Option.bind_some, group, value_pad,
      true_and, hfirst]
    rw [if_pos (by omega)]
  | case3 x y =>
    have hx := byte_lt x
    have hy := byte_lt y
    have hfirst := first_eq x (show y.toNat / 16 < 16 by omega)
    have hsecond := second_eq x y (n := 0) (by omega)
    rw [Nat.add_zero] at hsecond
    simp only [encode, decode, Option.bind_eq_bind, value_symbol (show x.toNat / 4 < 64 by omega),
      value_symbol (show x.toNat % 4 * 16 + y.toNat / 16 < 64 by omega),
      value_symbol (show y.toNat % 16 * 4 < 64 by omega), Option.bind_some, group, value_pad,
      true_and, hfirst, hsecond]
    rw [if_pos (by omega)]
  | case4 x y z rest ih =>
    have hx := byte_lt x
    have hy := byte_lt y
    have hz := byte_lt z
    have hfirst := first_eq x (show y.toNat / 16 < 16 by omega)
    have hsecond := second_eq x y (show z.toNat / 64 < 4 by omega)
    simp only [encode, decode, Option.bind_eq_bind, value_symbol (show x.toNat / 4 < 64 by omega),
      value_symbol (show x.toNat % 4 * 16 + y.toNat / 16 < 64 by omega),
      value_symbol (show y.toNat % 16 * 4 + z.toNat / 64 < 64 by omega),
      value_symbol (show z.toNat % 64 < 64 by omega), Option.bind_some, group, ih, Option.map_some,
      hfirst, hsecond, third_eq]

theorem toNat_first {p q : Nat} (hp : p < 64) (hq : q < 64) :
    (first p q).toNat = p * 4 + q / 16 := UInt8.toNat_ofNat_of_lt' (by simp [UInt8.size]; omega)

theorem toNat_second {q r : Nat} (hr : r < 64) :
    (second q r).toNat = q % 16 * 16 + r / 4 :=
  UInt8.toNat_ofNat_of_lt' (by simp [UInt8.size]; omega)

theorem toNat_third {r s : Nat} (hs : s < 64) :
    (third r s).toNat = r % 4 * 64 + s := UInt8.toNat_ofNat_of_lt' (by simp [UInt8.size]; omega)

theorem encode_decode {t : Text} {bytes : Bytes} (h : decode t = some bytes) :
    encode bytes = t := by
  induction t using decode.induct generalizing bytes with
  | case1 =>
    obtain rfl := Option.some.inj h
    rfl
  | case2 a b c d rest ih =>
    simp only [decode, Option.bind_eq_bind, Option.bind_eq_some_iff, value_eq_some] at h
    obtain ⟨p, ⟨hp, rfl⟩, q, ⟨hq, rfl⟩, h⟩ := h
    have hfirst := toNat_first hp hq
    unfold group at h
    split at h
    · rename_i r s hc hd
      obtain ⟨hr, rfl⟩ := value_eq_some.mp hc
      obtain ⟨hs, rfl⟩ := value_eq_some.mp hd
      obtain ⟨later, hlater, rfl⟩ := Option.map_eq_some_iff.mp h
      rw [encode, hfirst, toNat_second hr, toNat_third hs, ih hlater,
        show (p * 4 + q / 16) / 4 = p by omega,
        show (p * 4 + q / 16) % 4 * 16 + (q % 16 * 16 + r / 4) / 16 = q by omega,
        show (q % 16 * 16 + r / 4) % 16 * 4 + (r % 4 * 64 + s) / 64 = r by omega,
        show (r % 4 * 64 + s) % 64 = s by omega]
    · rename_i r hc hd
      obtain ⟨hr, rfl⟩ := value_eq_some.mp hc
      split at h
      · rename_i hpad
        obtain ⟨rfl, rfl, hlow⟩ := hpad
        obtain rfl := Option.some.inj h
        rw [encode, hfirst, toNat_second hr, show (p * 4 + q / 16) / 4 = p by omega,
          show (p * 4 + q / 16) % 4 * 16 + (q % 16 * 16 + r / 4) / 16 = q by omega,
          show (q % 16 * 16 + r / 4) % 16 * 4 = r by omega]
      · contradiction
    · rename_i hc
      split at h
      · rename_i hpad
        obtain ⟨rfl, rfl, rfl, hlow⟩ := hpad
        obtain rfl := Option.some.inj h
        rw [encode, hfirst, show (p * 4 + q / 16) / 4 = p by omega,
          show (p * 4 + q / 16) % 4 * 16 = q by omega]
      · contradiction
  | case3 t hnil hcons => simp [decode] at h

theorem decode_eq_some {t : Text} {bytes : Bytes} : decode t = some bytes ↔ t = encode bytes := by
  constructor
  · intro h
    exact (encode_decode h).symm
  · rintro rfl
    exact decode_encode bytes

end Library.Base64
