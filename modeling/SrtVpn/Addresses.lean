import SrtVpn.TextFields

namespace SrtVpn.Addresses

open BigEndian Text TextFields

variable {α : Type}

def digitValue (radix : Nat) (b : UInt8) : Option Nat := (hexValue b).filter (· < radix)

def readNumber (radix maxDigits bound : Nat) (allowZeroPrefix : Bool) (text : Bytes) :
    Option (Nat × Bytes) :=
  let digits := text.takeWhile fun b => (digitValue radix b).isSome
  if digits = [] ∨ maxDigits < digits.length then none
  else if allowZeroPrefix = false ∧ digits.head? = some 0x30 ∧ 1 < digits.length then none
  else
    let n := digits.foldl (fun n b => n * radix + (digitValue radix b).getD 0) 0
    if n < bound then some (n, text.drop digits.length) else none

/-- A part of an address; all but the first have a separator before them. -/
def readSeparator (sep : UInt8) (index : Nat) (inner : Bytes → Option (α × Bytes)) (text : Bytes) :
    Option (α × Bytes) :=
  if index = 0 then inner text
  else match text with
    | b :: rest => if b = sep then inner rest else none
    | [] => none

def readOctet (index : Nat) (text : Bytes) : Option (UInt8 × Bytes) :=
  (readSeparator 0x2E index (readNumber 10 3 256 false) text).map fun (n, rest) =>
    (UInt8.ofNat n, rest)

def readIpv4Addr (text : Bytes) : Option (Bytes × Bytes) := do
  let (a, text) ← readOctet 0 text
  let (b, text) ← readOctet 1 text
  let (c, text) ← readOctet 2 text
  let (d, text) ← readOctet 3 text
  return ([a, b, c, d], text)

/-- At most `room` groups, beginning with number `index`, whether an IPv4 address ends them, and the
rest. -/
def readGroups : Nat → Nat → Bytes → List Nat × Bool × Bytes
  | 0, _, text => ([], false, text)
  | room + 1, index, text =>
      match if 0 < room then readSeparator 0x3A index readIpv4Addr text else none with
      | some (ip, rest) => (segments ip, true, rest)
      | none =>
          match readSeparator 0x3A index (readNumber 16 4 65536 true) text with
          | some (group, rest) =>
              let (groups, ipv4, rest) := readGroups room (index + 1) rest
              (group :: groups, ipv4, rest)
          | none => ([], false, text)

def readIpv6Addr (text : Bytes) : Option (List Nat × Bytes) :=
  let (head, headIpv4, rest) := readGroups 8 0 text
  if head.length = 8 then some (head, rest)
  else if headIpv4 then none
  else match rest with
    | 0x3A :: 0x3A :: rest =>
        let (tail, _, rest) := readGroups (8 - (head.length + 1)) 0 rest
        some (head ++ List.replicate (8 - head.length - tail.length) 0 ++ tail, rest)
    | _ => none

def parseIpv4Addr (text : Bytes) : Option Bytes :=
  if 15 < text.length then none
  else match readIpv4Addr text with
    | some (ip, []) => some ip
    | _ => none

def parseIpv6Addr (text : Bytes) : Option Bytes :=
  match readIpv6Addr text with
  | some (groups, []) => some (groups.flatMap (toBytes 2))
  | _ => none

section Ipv4

theorem digitValue_digit {d : Nat} (h : d < 10) :
    digitValue 10 (UInt8.ofNat (0x30 + d)) = some d := by
  match d with
  | 0 | 1 | 2 | 3 | 4 | 5 | 6 | 7 | 8 | 9 => rfl
  | n + 10 => omega

theorem isDigit_of_mem_decimal {n : Nat} {b : UInt8} (h : b ∈ decimal n) :
    (digitValue 10 b).isSome = true := by
  obtain ⟨d, hd, rfl⟩ := digit_of_mem_decimal h
  rw [digitValue_digit hd]
  rfl

theorem value_decimal (n : Nat) :
    (decimal n).foldl (fun n b => n * 10 + (digitValue 10 b).getD 0) 0 = n := by
  induction n using Nat.base_induction 10 (by decide) with
  | single m hm =>
      rw [decimal_digit hm, List.foldl_cons, List.foldl_nil, digitValue_digit hm, Nat.zero_mul,
        Nat.zero_add]
      rfl
  | digit m k hk hm ih =>
      rw [decimal_append hm hk, List.foldl_append, ih, List.foldl_cons, List.foldl_nil,
        digitValue_digit hk, Nat.mul_comm]
      rfl

theorem eq_zero_of_leading_zero {n : Nat} (h : (decimal n).head? = some 0x30) : n = 0 := by
  induction n using Nat.base_induction 10 (by decide) with
  | single m hm =>
      have hv := value_digit hm
      rw [decimal_digit hm] at h
      rw [Option.some.inj h] at hv
      exact hv.symm
  | digit m k hk hm ih =>
      rw [decimal_append hm hk, List.head?_append_of_ne_nil _ (decimal_ne_nil m)] at h
      have hzero := ih h
      omega

theorem length_decimal_le {n : Nat} (h : n < 256) : (decimal n).length ≤ 3 := by
  rw [decimal, List.length_map, Nat.length_toDigits_le_iff (by decide) (by decide)]
  omega

variable {rest : Bytes}

/-- The text does not go on with a digit. -/
def Ends (rest : Bytes) : Prop := ∀ b, rest.head? = some b → digitValue 10 b = none

theorem readNumber_decimal {n : Nat} (h : n < 256) (hrest : Ends rest) :
    readNumber 10 3 256 false (decimal n ++ rest) = some (n, rest) := by
  have hstop : rest.takeWhile (fun b => (digitValue 10 b).isSome) = [] := by
    cases rest with
    | nil => rfl
    | cons b rest => rw [List.takeWhile_cons, hrest b rfl]; rfl
  have htake : (decimal n ++ rest).takeWhile (fun b => (digitValue 10 b).isSome) = decimal n := by
    rw [List.takeWhile_append_of_pos fun b hb => isDigit_of_mem_decimal hb, hstop, List.append_nil]
  have hfirst : ¬ (decimal n = [] ∨ 3 < (decimal n).length) := by
    rintro (hnil | hlong)
    · exact decimal_ne_nil n hnil
    · exact Nat.not_lt.mpr (length_decimal_le h) hlong
  have hzero : ¬ ((decimal n).head? = some 0x30 ∧ 1 < (decimal n).length) := by
    rintro ⟨hhead, hlen⟩
    rw [eq_zero_of_leading_zero hhead] at hlen
    exact absurd hlen (by decide)
  simp only [readNumber, htake, if_neg hfirst, value_decimal]
  rw [if_neg (fun hz => hzero hz.2), if_pos h, List.drop_left]

theorem readOctet_decimal (b : UInt8) (hrest : Ends rest) :
    readOctet 0 (decimal b.toNat ++ rest) = some (b, rest) ∧
      ∀ i, readOctet (i + 1) (0x2E :: (decimal b.toNat ++ rest)) = some (b, rest) := by
  have hread := readNumber_decimal b.toNat_lt hrest
  constructor
  · simp [readOctet, readSeparator, hread]
  · intro i
    simp [readOctet, readSeparator, hread]

theorem ends_dot (rest : Bytes) : Ends (0x2E :: rest) := by
  intro b hb
  obtain rfl := Option.some.inj hb
  decide

theorem parseIpv4Addr_ipv4ToString (a b c d : UInt8) :
    parseIpv4Addr (ipv4ToString [a, b, c, d]) = some [a, b, c, d] := by
  have hends : Ends [] := by
    intro x hx
    simp at hx
  have htext : ipv4ToString [a, b, c, d] =
      decimal a.toNat ++ 0x2E ::
        (decimal b.toNat ++ 0x2E :: (decimal c.toNat ++ 0x2E :: (decimal d.toNat ++ []))) := by
    simp [ipv4ToString, List.intercalate, List.intersperse]
  have hlen : ¬ 15 < (ipv4ToString [a, b, c, d]).length := by
    have ha := length_decimal_le a.toNat_lt
    have hb := length_decimal_le b.toNat_lt
    have hc := length_decimal_le c.toNat_lt
    have hd := length_decimal_le d.toNat_lt
    rw [htext]
    simp only [List.length_append, List.length_cons, List.length_nil]
    omega
  have hread : readIpv4Addr (ipv4ToString [a, b, c, d]) = some ([a, b, c, d], []) := by
    rw [htext, readIpv4Addr]
    simp only [Option.bind_eq_bind, (readOctet_decimal a (ends_dot _)).1, Option.bind_some,
      (readOctet_decimal b (ends_dot _)).2 0, (readOctet_decimal c (ends_dot _)).2 1,
        (readOctet_decimal d hends).2 2]
    rfl
  rw [parseIpv4Addr, if_neg hlen, hread]

end Ipv4

section Lengths

theorem length_hex_le {n : Nat} (h : n < 2 ^ 16) : (hex n).length ≤ 4 := by
  rw [hex, List.length_map, Nat.length_toDigits_le_iff (by decide) (by decide)]
  omega

theorem length_intercalate_le (sep : UInt8) (m : Nat) (parts : List Bytes)
    (h : ∀ p ∈ parts, p.length ≤ m) :
    ([sep].intercalate parts).length ≤ parts.length * (m + 1) := by
  induction parts with
  | nil => exact Nat.zero_le _
  | cons p parts ih =>
      obtain ⟨hp, hparts⟩ := List.forall_mem_cons.mp h
      have hrest := ih hparts
      rw [List.length_cons, Nat.add_mul, Nat.one_mul]
      cases parts with
      | nil =>
          rw [List.intercalate_singleton]
          omega
      | cons q parts =>
          rw [List.intercalate_cons_cons, List.length_append, List.length_append,
            List.length_singleton]
          omega

theorem length_ipv4ToString_le (ip : Bytes) : (ipv4ToString ip).length ≤ ip.length * 4 := by
  have hle := length_intercalate_le 0x2E 3 (ip.map fun b => decimal b.toNat) fun p hp => by
    obtain ⟨b, -, rfl⟩ := List.mem_map.mp hp
    exact length_decimal_le b.toNat_lt
  rwa [List.length_map] at hle

theorem segments_spec (ip : Bytes) :
    (segments ip).length * 2 ≤ ip.length ∧ ∀ g ∈ segments ip, g < 2 ^ 16 := by
  induction ip using segments.induct with
  | case1 a b rest ih =>
      have hlt : ofBytes [a, b] < 2 ^ 16 :=
        Nat.lt_of_lt_of_eq (ofBytes_lt [a, b]) (by decide : 256 ^ 2 = 2 ^ 16)
      refine ⟨?_, List.forall_mem_cons.mpr ⟨hlt, ih.2⟩⟩
      rw [segments, List.length_cons, List.length_cons, List.length_cons]
      omega
  | case2 ip h =>
      rw [segments.eq_2 ip h]
      exact ⟨Nat.zero_le _, by simp⟩

theorem length_groups_le (gs : List Nat) (h : ∀ g ∈ gs, g < 2 ^ 16) :
    (groups gs).length ≤ gs.length * 5 := by
  have hle := length_intercalate_le 0x3A 4 (gs.map hex) fun p hp => by
    obtain ⟨g, hg, rfl⟩ := List.mem_map.mp hp
    exact length_hex_le (h g hg)
  rwa [List.length_map] at hle

theorem length_ipv6ToString_le {ip : Bytes} (h : ip.length ≤ 16) :
    (ipv6ToString ip).length ≤ 82 := by
  obtain ⟨hcount, hlt⟩ := segments_spec ip
  unfold ipv6ToString
  split
  · have hle := length_ipv4ToString_le (ip.drop 12)
    have hmapped : (ascii "::ffff:").length = 7 := by decide
    rw [List.length_drop] at hle
    rw [List.length_append, hmapped]
    omega
  · have hall := length_groups_le (segments ip) hlt
    simp only
    split
    · have hcolons : (ascii "::").length = 2 := by decide
      have hhead : ∀ n, (groups ((segments ip).take n)).length ≤ 40 := by
        intro n
        have hle := length_groups_le ((segments ip).take n) fun g hg =>
          hlt g (List.mem_of_mem_take hg)
        rw [List.length_take] at hle
        omega
      have htail : ∀ n, (groups ((segments ip).drop n)).length ≤ 40 := by
        intro n
        have hle := length_groups_le ((segments ip).drop n) fun g hg =>
          hlt g (List.mem_of_mem_drop hg)
        rw [List.length_drop] at hle
        omega
      have hle := Nat.add_le_add (hhead (zeroRun (segments ip) 0 (0, 0) (0, 0)).1)
        (htail ((zeroRun (segments ip) 0 (0, 0) (0, 0)).1 +
          (zeroRun (segments ip) 0 (0, 0) (0, 0)).2))
      rw [List.length_append, List.length_append, hcolons]
      omega
    · omega

end Lengths

section Alphabet

def addressByte (b : UInt8) : Bool := (hexValue b).isSome || b == 0x3A || b == 0x2E

/-- A reader has taken address bytes off the front of the text. -/
def Took (text rest : Bytes) : Prop :=
  ∃ taken, text = taken ++ rest ∧ ∀ b ∈ taken, addressByte b = true

variable {text mid rest : Bytes}

theorem Took.refl (text : Bytes) : Took text text := ⟨[], rfl, by simp⟩

theorem Took.trans (h : Took text mid) (h' : Took mid rest) : Took text rest := by
  obtain ⟨a, rfl, ha⟩ := h
  obtain ⟨b, rfl, hb⟩ := h'
  refine ⟨a ++ b, (List.append_assoc a b rest).symm, ?_⟩
  intro x hx
  rcases List.mem_append.mp hx with hx | hx
  · exact ha x hx
  · exact hb x hx

theorem Took.cons {b : UInt8} (hb : addressByte b = true) (h : Took text rest) :
    Took (b :: text) rest := by
  obtain ⟨a, rfl, ha⟩ := h
  exact ⟨b :: a, rfl, List.forall_mem_cons.mpr ⟨hb, ha⟩⟩

theorem took_readNumber {radix maxDigits bound n : Nat} {allowZeroPrefix : Bool}
    (h : readNumber radix maxDigits bound allowZeroPrefix text = some (n, rest)) :
    Took text rest := by
  simp only [readNumber, Option.ite_none_left_eq_some, Option.ite_none_right_eq_some,
    Option.some.injEq, Prod.mk.injEq] at h
  obtain ⟨-, -, -, -, rfl⟩ := h
  refine ⟨text.takeWhile fun b => (digitValue radix b).isSome, ?_, ?_⟩
  · exact (List.prefix_iff_eq_append.mp (List.takeWhile_prefix _)).symm
  · intro b hb
    have hdigit := List.mem_takeWhile_imp hb
    obtain ⟨d, hd⟩ := Option.isSome_iff_exists.mp hdigit
    rw [addressByte, (Option.filter_eq_some_iff.mp hd).1]
    rfl

theorem took_readSeparator {sep : UInt8} {index : Nat} {inner : Bytes → Option (α × Bytes)} {x : α}
    (hsep : addressByte sep = true)
    (hinner : ∀ text x rest, inner text = some (x, rest) → Took text rest)
    (h : readSeparator sep index inner text = some (x, rest)) : Took text rest := by
  rw [readSeparator.eq_def] at h
  split at h
  · exact hinner text x rest h
  · cases text with
    | nil => cases h
    | cons b text =>
        simp only [Option.ite_none_right_eq_some] at h
        exact (hinner text x rest h.2).cons (h.1 ▸ hsep)

theorem took_readOctet {index : Nat} {b : UInt8} (h : readOctet index text = some (b, rest)) :
    Took text rest := by
  obtain ⟨⟨n, rest'⟩, hread, heq⟩ := Option.map_eq_some_iff.mp h
  obtain rfl : rest' = rest := (Prod.mk.inj heq).2
  exact took_readSeparator (by decide) (fun _ _ _ => took_readNumber) hread

theorem took_readIpv4Addr {ip : Bytes} (h : readIpv4Addr text = some (ip, rest)) :
    Took text rest := by
  simp only [readIpv4Addr, Option.bind_eq_bind, Option.bind_eq_some_iff] at h
  obtain ⟨⟨a, t₁⟩, h₁, ⟨b, t₂⟩, h₂, ⟨c, t₃⟩, h₃, ⟨d, t₄⟩, h₄, heq⟩ := h
  obtain rfl : t₄ = rest := (Prod.mk.inj (Option.some.inj heq)).2
  exact (((took_readOctet h₁).trans (took_readOctet h₂)).trans (took_readOctet h₃)).trans
    (took_readOctet h₄)

theorem took_readGroups (room index : Nat) (text : Bytes) :
    Took text (readGroups room index text).2.2 := by
  induction room generalizing index text with
  | zero => exact Took.refl text
  | succ room ih =>
      rw [readGroups]
      split
      next ip rest hread =>
        rw [Option.ite_none_right_eq_some] at hread
        exact took_readSeparator (by decide) (fun _ _ _ => took_readIpv4Addr) hread.2
      next =>
        split
        next group rest hread =>
          have hgroup : Took text rest :=
            took_readSeparator (by decide) (fun _ _ _ => took_readNumber) hread
          exact hgroup.trans (ih (index + 1) rest)
        next => exact Took.refl text

theorem took_readIpv6Addr {groups : List Nat} (h : readIpv6Addr text = some (groups, rest)) :
    Took text rest := by
  have hhead := took_readGroups 8 0 text
  simp only [readIpv6Addr] at h
  split at h
  · obtain rfl := (Prod.mk.inj (Option.some.inj h)).2
    exact hhead
  split at h
  · cases h
  split at h
  next tail heq =>
    rw [heq] at hhead
    obtain rfl := (Prod.mk.inj (Option.some.inj h)).2
    have htail := took_readGroups (8 - ((readGroups 8 0 text).1.length + 1)) 0 tail
    exact hhead.trans ((htail.cons (by decide)).cons (by decide))
  next => cases h

theorem addressByte_of_parseIpv6Addr {ip : Bytes} (h : parseIpv6Addr text = some ip) :
    ∀ b ∈ text, addressByte b = true := by
  rw [parseIpv6Addr] at h
  split at h
  next groups hread =>
    obtain ⟨taken, rfl, htaken⟩ := took_readIpv6Addr hread
    rw [List.append_nil]
    exact htaken
  next => cases h

end Alphabet

end SrtVpn.Addresses
