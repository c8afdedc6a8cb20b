import SrtVpn.TextParts

namespace SrtVpn.TextFields

open BigEndian Utf8 Utf8Chars Text TextParts

def utf8 (s : String) : Bytes := s.toList.flatMap String.utf8EncodeChar

def splitLoop (sep : UInt8) : Bytes → Bytes → List Bytes
  | [], part => [part]
  | b :: rest, part =>
      if b = sep then part :: splitLoop sep rest [] else splitLoop sep rest (part ++ [b])

def split (sep : UInt8) (text : Bytes) : List Bytes := splitLoop sep text []

def digits (text : Bytes) : Option Nat :=
  if text ≠ [] ∧ text.all isDigit then some (number text) else none

def parseUnsigned (bits : Nat) (text : Bytes) : Option Nat :=
  (digits (match text with
    | 0x2B :: rest => rest
    | _ => text)).filter (· < 2 ^ bits)

def parseSigned (bits : Nat) (text : Bytes) : Option Int :=
  (match text with
    | 0x2D :: rest => (digits rest).map fun n : Nat => -(n : Int)
    | 0x2B :: rest => (digits rest).map fun n : Nat => (n : Int)
    | _ => (digits text).map fun n : Nat => (n : Int)).filter fun n =>
        -2 ^ (bits - 1) ≤ n ∧ n < 2 ^ (bits - 1)

def parseI64 (text : Bytes) : Option Int64 := (parseSigned 64 text).map Int64.ofInt

def formatI64 (n : Int64) : Bytes :=
  if n.toInt < 0 then 0x2D :: decimal n.toInt.natAbs else decimal n.toInt.natAbs

def hexDigit (n : Nat) : UInt8 := if n < 10 then UInt8.ofNat (0x30 + n) else UInt8.ofNat (0x57 + n)

def hexEncode (bytes : Bytes) : Bytes :=
  bytes.flatMap fun b => [hexDigit (b.toNat / 16), hexDigit (b.toNat % 16)]

def hexValue (b : UInt8) : Option Nat :=
  if isDigit b then some (b - 0x30).toNat
  else if 0x61 ≤ b ∧ b ≤ 0x66 then some (b - 0x57).toNat
  else if 0x41 ≤ b ∧ b ≤ 0x46 then some (b - 0x37).toNat
  else none

def hexDecode : Bytes → Option Bytes
  | [] => some []
  | [_] => none
  | a :: b :: rest => do
      let x ← hexValue a
      let y ← hexValue b
      let bytes ← hexDecode rest
      return UInt8.ofNat (16 * x + y) :: bytes

section Split

variable {sep : UInt8} {a : Bytes}

theorem splitLoop_field (h : sep ∉ a) (rest part : Bytes) :
    splitLoop sep (a ++ sep :: rest) part = (part ++ a) :: splitLoop sep rest [] := by
  induction a generalizing part with
  | nil => simp [splitLoop]
  | cons b a ih =>
      rw [List.mem_cons, not_or] at h
      rw [List.cons_append, splitLoop, if_neg (Ne.symm h.1), ih h.2]
      simp

theorem splitLoop_last (h : sep ∉ a) (part : Bytes) : splitLoop sep a part = [part ++ a] := by
  induction a generalizing part with
  | nil => simp [splitLoop]
  | cons b a ih =>
      rw [List.mem_cons, not_or] at h
      rw [splitLoop, if_neg (Ne.symm h.1), ih h.2]
      simp

theorem split_field (h : sep ∉ a) (rest : Bytes) :
    split sep (a ++ sep :: rest) = a :: split sep rest :=
  splitLoop_field h rest []

theorem split_last (h : sep ∉ a) : split sep a = [a] := splitLoop_last h []

theorem stripPrefix_append (pat rest : Bytes) : stripPrefix pat (pat ++ rest) = some rest := by
  rw [stripPrefix, if_pos (by simp), List.drop_left]

end Split

section Decimal

theorem digit_byte {d : Nat} (h : d < 10) :
    UInt8.ofNat d.digitChar.toNat = UInt8.ofNat (0x30 + d) := by
  match d with
  | 0 | 1 | 2 | 3 | 4 | 5 | 6 | 7 | 8 | 9 => rfl
  | n + 10 => omega

theorem isDigit_byte {d : Nat} (h : d < 10) : isDigit (UInt8.ofNat (0x30 + d)) = true := by
  match d with
  | 0 | 1 | 2 | 3 | 4 | 5 | 6 | 7 | 8 | 9 => rfl
  | n + 10 => omega

theorem digit_of_mem_decimal {n : Nat} {x : UInt8} (h : x ∈ decimal n) :
    ∃ d, d < 10 ∧ x = UInt8.ofNat (0x30 + d) := by
  obtain ⟨c, hc, rfl⟩ := List.mem_map.mp h
  obtain ⟨d, hd, rfl⟩ := digit_of_mem_toDigits (by decide) hc
  exact ⟨d, hd, digit_byte hd⟩

theorem number_append (ds : Bytes) (d : UInt8) :
    number (ds ++ [d]) = number ds * 10 + (d - 0x30).toNat := by
  rw [number, List.foldl_append]
  rfl

theorem value_digit {d : Nat} (h : d < 10) : (UInt8.ofNat (0x30 + d) - 0x30).toNat = d := by
  match d with
  | 0 | 1 | 2 | 3 | 4 | 5 | 6 | 7 | 8 | 9 => rfl
  | n + 10 => omega

theorem decimal_digit {d : Nat} (h : d < 10) : decimal d = [UInt8.ofNat (0x30 + d)] := by
  rw [decimal, Nat.toDigits_of_lt_base h, List.map_singleton, digit_byte h]

theorem decimal_append {n d : Nat} (hn : 0 < n) (hd : d < 10) :
    decimal (10 * n + d) = decimal n ++ [UInt8.ofNat (0x30 + d)] := by
  rw [← decimal_digit hd, decimal, ← Nat.toDigits_append_toDigits (by decide) hn hd,
    List.map_append]
  rfl

theorem number_decimal (n : Nat) : number (decimal n) = n := by
  induction n using Nat.base_induction 10 (by decide) with
  | single m hm =>
      have hv := number_append [] (UInt8.ofNat (0x30 + m))
      rw [value_digit hm] at hv
      rw [decimal_digit hm]
      simpa [number] using hv
  | digit m k hk hm ih =>
      rw [decimal_append hm hk, number_append, value_digit hk]
      omega

theorem decimal_ne_nil (n : Nat) : decimal n ≠ [] := by
  rw [decimal, Ne, List.map_eq_nil_iff]
  exact Nat.toDigits_ne_nil

theorem digits_decimal (n : Nat) : digits (decimal n) = some n := by
  rw [digits, if_pos, number_decimal]
  refine ⟨decimal_ne_nil n, List.all_eq_true.mpr fun x hx => ?_⟩
  obtain ⟨d, hd, rfl⟩ := digit_of_mem_decimal hx
  exact isDigit_byte hd

theorem decimal_cons (n : Nat) : ∃ d rest, d < 10 ∧ decimal n = UInt8.ofNat (0x30 + d) :: rest := by
  cases h : decimal n with
  | nil => exact absurd h (decimal_ne_nil n)
  | cons x rest =>
      obtain ⟨d, hd, rfl⟩ := digit_of_mem_decimal (n := n) (x := x) (by rw [h]; simp)
      exact ⟨d, rest, hd, rfl⟩

theorem parseI64_decimal (n : Nat) (h : n < 2 ^ 63) :
    parseI64 (decimal n) = some (Int64.ofInt n) := by
  have hdigits := digits_decimal n
  obtain ⟨d, rest, hd, heq⟩ := decimal_cons n
  have hsign : UInt8.ofNat (0x30 + d) ≠ 0x2D ∧ UInt8.ofNat (0x30 + d) ≠ 0x2B := by
    match d with
    | 0 | 1 | 2 | 3 | 4 | 5 | 6 | 7 | 8 | 9 => decide
    | n + 10 => omega
  rw [heq] at hdigits ⊢
  simp only [parseI64, parseSigned]
  split
  next r hr => exact absurd (List.cons.inj hr).1 hsign.1
  next r hr => exact absurd (List.cons.inj hr).1 hsign.2
  next =>
    rw [hdigits, Option.map_some, Option.filter_some, if_pos (by simp; omega), Option.map_some]

theorem parseI64_formatI64 (n : Int64) : parseI64 (formatI64 n) = some n := by
  have hlo := n.le_toInt
  have hhi := n.toInt_lt
  rw [formatI64]
  split
  next hneg =>
    simp only [parseI64, parseSigned, digits_decimal, Option.map_some, Option.filter_some]
    have hn : -((n.toInt.natAbs : Nat) : Int) = n.toInt := by omega
    rw [hn, if_pos (by simp; omega), Option.map_some, Int64.ofInt_toInt]
  next hpos =>
    have hn : ((n.toInt.natAbs : Nat) : Int) = n.toInt := by omega
    rw [parseI64_decimal _ (by omega), hn, Int64.ofInt_toInt]

theorem mem_formatI64 {n : Int64} {x : UInt8} (h : x ∈ formatI64 n) :
    x = 0x2D ∨ ∃ d, d < 10 ∧ x = UInt8.ofNat (0x30 + d) := by
  rw [formatI64] at h
  split at h
  · rcases List.mem_cons.mp h with rfl | h
    · exact Or.inl rfl
    · exact Or.inr (digit_of_mem_decimal h)
  · exact Or.inr (digit_of_mem_decimal h)

end Decimal

section Hex

theorem mem_hexEncode {bytes : Bytes} {x : UInt8} (h : x ∈ hexEncode bytes) :
    ∃ n, n < 16 ∧ x = hexDigit n := by
  obtain ⟨b, -, hx⟩ := List.mem_flatMap.mp h
  have hb := b.toNat_lt
  rcases List.mem_pair.mp hx with rfl | rfl
  · exact ⟨_, by omega, rfl⟩
  · exact ⟨_, by omega, rfl⟩

theorem hexDigit_ascii {n : Nat} (h : n < 16) : hexDigit n < 0x80 ∧ hexDigit n ≠ 0x2C := by
  match n with
  | 0 | 1 | 2 | 3 | 4 | 5 | 6 | 7 | 8 | 9 | 10 | 11 | 12 | 13 | 14 | 15 => decide
  | n + 16 => omega

theorem hexValue_hexDigit {n : Nat} (h : n < 16) : hexValue (hexDigit n) = some n := by
  have hall : ∀ n < 16, hexValue (hexDigit n) = some n := by decide
  exact hall n h

theorem hexDecode_hexEncode (bytes : Bytes) : hexDecode (hexEncode bytes) = some bytes := by
  induction bytes with
  | nil => rfl
  | cons b bytes ih =>
      have hb := b.toNat_lt
      have hpair : hexEncode (b :: bytes) = hexDigit (b.toNat / 16) :: hexDigit (b.toNat % 16) ::
          hexEncode bytes := rfl
      have hvalue : UInt8.ofNat (16 * (b.toNat / 16) + b.toNat % 16) = b := by
        rw [Nat.div_add_mod, UInt8.ofNat_toNat]
      rw [hpair, hexDecode, hexValue_hexDigit (by omega), hexValue_hexDigit (by omega), ih]
      simp only [Option.bind_eq_bind, Option.bind_some, Option.pure_def, hvalue]

theorem hexEncode_ascii (bytes : Bytes) :
    (∀ x ∈ hexEncode bytes, x < 0x80) ∧ (0x2C : UInt8) ∉ hexEncode bytes := by
  constructor
  · intro x hx
    obtain ⟨n, hn, rfl⟩ := mem_hexEncode hx
    exact (hexDigit_ascii hn).1
  · intro hx
    obtain ⟨n, hn, h⟩ := mem_hexEncode hx
    exact (hexDigit_ascii hn).2 h.symm

theorem length_hexEncode (bytes : Bytes) : (hexEncode bytes).length = 2 * bytes.length := by
  rw [hexEncode, List.length_flatMap]
  simp [Nat.mul_comm]

/-- What both ends rely on of the crate `hex`. -/
structure Hex where
  encode : Bytes → Bytes
  decode : Bytes → Option Bytes
  length_encode : ∀ bytes, (encode bytes).length = 2 * bytes.length
  encode_ascii : ∀ bytes, (∀ x ∈ encode bytes, x < 0x80) ∧ (0x2C : UInt8) ∉ encode bytes
  decode_encode : ∀ bytes, decode (encode bytes) = some bytes

def Hex.lower : Hex :=
  ⟨hexEncode, hexDecode, length_hexEncode, hexEncode_ascii, hexDecode_hexEncode⟩

end Hex

end SrtVpn.TextFields
