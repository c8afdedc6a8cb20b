import SrtVpn.Addresses

namespace SrtVpn.Ipv6Texts

open BigEndian Text TextParts TextFields Addresses

def joined (gs : List Nat) : Bytes := gs.flatMap fun g => 0x3A :: hex g

/-- The run `(start, len)` lies in the list and has zeros only. -/
def Zeros (gs : List Nat) (run : Nat × Nat) : Prop :=
  run.1 + run.2 ≤ gs.length ∧ ∀ k, run.1 ≤ k → k < run.1 + run.2 → gs[k]? = some 0

section Hex

theorem hex_byte {d : Nat} (h : d < 16) : UInt8.ofNat d.digitChar.toNat = hexDigit d := by
  have hall : ∀ d < 16, UInt8.ofNat d.digitChar.toNat = hexDigit d := by decide
  exact hall d h

theorem digitValue_hexDigit {d : Nat} (h : d < 16) : digitValue 16 (hexDigit d) = some d := by
  rw [digitValue, hexValue_hexDigit h, Option.filter_some, if_pos (by simpa using h)]

theorem hex_digit {d : Nat} (h : d < 16) : hex d = [hexDigit d] := by
  rw [hex, Nat.toDigits_of_lt_base h, List.map_singleton, hex_byte h]

theorem hex_append {n d : Nat} (hn : 0 < n) (hd : d < 16) :
    hex (16 * n + d) = hex n ++ [hexDigit d] := by
  rw [← hex_digit hd, hex, ← Nat.toDigits_append_toDigits (by decide) hn hd, List.map_append]
  rfl

theorem hex_ne_nil (n : Nat) : hex n ≠ [] := by
  rw [hex, Ne, List.map_eq_nil_iff]
  exact Nat.toDigits_ne_nil

theorem mem_hex {n : Nat} {b : UInt8} (h : b ∈ hex n) : ∃ d, d < 16 ∧ b = hexDigit d := by
  obtain ⟨c, hc, rfl⟩ := List.mem_map.mp h
  obtain ⟨d, hd, rfl⟩ := digit_of_mem_toDigits (by decide) hc
  exact ⟨d, hd, hex_byte hd⟩

theorem value_hex (n : Nat) :
    (hex n).foldl (fun n b => n * 16 + (digitValue 16 b).getD 0) 0 = n := by
  induction n using Nat.base_induction 16 (by decide) with
  | single m hm =>
      rw [hex_digit hm, List.foldl_cons, List.foldl_nil, digitValue_hexDigit hm, Nat.zero_mul,
        Nat.zero_add]
      rfl
  | digit m k hk hm ih =>
      rw [hex_append hm hk, List.foldl_append, ih, List.foldl_cons, List.foldl_nil,
        digitValue_hexDigit hk, Nat.mul_comm]
      rfl

variable {rest : Bytes}

def Stops (rest : Bytes) : Prop := ∀ b, rest.head? = some b → b = 0x3A

theorem readNumber_hex {n : Nat} (h : n < 65536) (hrest : Stops rest) :
    readNumber 16 4 65536 true (hex n ++ rest) = some (n, rest) := by
  have hstop : rest.takeWhile (fun b => (digitValue 16 b).isSome) = [] := by
    cases rest with
    | nil => rfl
    | cons b rest =>
        rw [List.takeWhile_cons, hrest b rfl]
        rfl
  have htake : (hex n ++ rest).takeWhile (fun b => (digitValue 16 b).isSome) = hex n := by
    rw [List.takeWhile_append_of_pos, hstop, List.append_nil]
    intro b hb
    obtain ⟨d, hd, rfl⟩ := mem_hex hb
    rw [digitValue_hexDigit hd]
    rfl
  have hfirst : ¬ (hex n = [] ∨ 4 < (hex n).length) := by
    rintro (hnil | hlong)
    · exact hex_ne_nil n hnil
    · exact Nat.not_lt.mpr (length_hex_le h) hlong
  simp only [readNumber, htake, if_neg hfirst, value_hex]
  rw [if_neg (by simp), if_pos h, List.drop_left]

theorem stops_joined (gs : List Nat) (hrest : Stops rest) : Stops (joined gs ++ rest) := by
  cases gs with
  | nil => exact hrest
  | cons g gs =>
      intro b hb
      exact (Option.some.inj hb).symm

end Hex

section NoDot

variable {text rest : Bytes}

theorem readIpv4Addr_none (h : 0x2E ∉ text) : readIpv4Addr text = none := by
  rw [Option.eq_none_iff_forall_ne_some]
  rintro ⟨ip, rest⟩ hread
  simp only [readIpv4Addr, Option.bind_eq_bind, Option.bind_eq_some_iff] at hread
  obtain ⟨⟨a, text₁⟩, hfirst, ⟨b, text₂⟩, hsecond, -⟩ := hread
  obtain ⟨taken, rfl, -⟩ := took_readOctet hfirst
  obtain ⟨⟨n, text₃⟩, hnumber, -⟩ := Option.map_eq_some_iff.mp hsecond
  cases text₁ with
  | nil => simp [readSeparator] at hnumber
  | cons c text₁ =>
      simp only [readSeparator, Nat.one_ne_zero, if_false, Option.ite_none_right_eq_some] at hnumber
      exact h (List.mem_append_right taken (hnumber.1 ▸ List.mem_cons_self))

theorem readSeparator_ipv4_none (index : Nat) (h : 0x2E ∉ text) :
    readSeparator 0x3A index readIpv4Addr text = none := by
  rw [readSeparator.eq_def]
  split
  · exact readIpv4Addr_none h
  · cases text with
    | nil => rfl
    | cons b text =>
        simp only
        split
        · exact readIpv4Addr_none fun hmem => h (List.mem_cons_of_mem b hmem)
        · rfl

theorem not_mem_hex (n : Nat) : (0x2E : UInt8) ∉ hex n := by
  intro h
  obtain ⟨d, hd, heq⟩ := mem_hex h
  have hall : ∀ d < 16, (0x2E : UInt8) ≠ hexDigit d := by decide
  exact hall d hd heq

theorem not_mem_joined (gs : List Nat) : (0x2E : UInt8) ∉ joined gs := by
  intro h
  obtain ⟨g, -, hg⟩ := List.mem_flatMap.mp h
  rcases List.mem_cons.mp hg with heq | hg
  · exact absurd heq (by decide)
  · exact not_mem_hex g hg

theorem groups_cons (g : Nat) (gs : List Nat) : groups (g :: gs) = hex g ++ joined gs := by
  induction gs generalizing g with
  | nil => simp [groups, joined]
  | cons g' gs ih =>
      have hsplit : groups (g :: g' :: gs) = hex g ++ 0x3A :: groups (g' :: gs) := by
        rw [groups, List.map_cons, List.map_cons, List.intercalate_cons_cons, List.append_assoc]
        rfl
      rw [hsplit, ih]
      simp [joined]

theorem not_mem_groups (gs : List Nat) : (0x2E : UInt8) ∉ groups gs := by
  cases gs with
  | nil => simp [groups]
  | cons g gs =>
      rw [groups_cons, List.mem_append, not_or]
      exact ⟨not_mem_hex g, not_mem_joined gs⟩

end NoDot

section Groups

variable {rest : Bytes}

/-- What can follow the groups of an address: nothing, or the two colons of the left out zeros. -/
def Follows (rest : Bytes) : Prop := rest = [] ∨ ∃ more, rest = 0x3A :: 0x3A :: more

theorem Follows.stops (h : Follows rest) : Stops rest := by
  intro b hb
  rcases h with rfl | ⟨more, rfl⟩
  · cases hb
  · exact (Option.some.inj hb).symm

theorem readGroup_follows (h : Follows rest) (index : Nat) :
    readSeparator 0x3A index (readNumber 16 4 65536 true) rest = none := by
  have hcolon : ∀ more, readNumber 16 4 65536 true (0x3A :: more) = none := fun more => rfl
  rcases h with rfl | ⟨more, rfl⟩
  · cases index <;> rfl
  · cases index with
    | zero => exact hcolon (0x3A :: more)
    | succ index => exact hcolon more

theorem readGroups_follows (room index : Nat) (h : Follows rest) (hdot : (0x2E : UInt8) ∉ rest) :
    readGroups room index rest = ([], false, rest) := by
  cases room with
  | zero => rfl
  | succ room =>
      rw [readGroups, readSeparator_ipv4_none index hdot, ite_self, readGroup_follows h index]

theorem readGroups_joined (gs : List Nat) (room index : Nat) (hroom : gs.length ≤ room)
    (hgs : ∀ g ∈ gs, g < 65536) (h : Follows rest) (hdot : (0x2E : UInt8) ∉ rest) :
    readGroups room (index + 1) (joined gs ++ rest) = (gs, false, rest) := by
  induction gs generalizing room index with
  | nil => exact readGroups_follows room (index + 1) h hdot
  | cons g gs ih =>
      obtain ⟨hg, hgs⟩ := List.forall_mem_cons.mp hgs
      rw [List.length_cons] at hroom
      obtain ⟨room, rfl⟩ :=
        Nat.exists_eq_succ_of_ne_zero (Nat.ne_of_gt (Nat.lt_of_lt_of_le (Nat.succ_pos _) hroom))
      have htext : joined (g :: gs) ++ rest = 0x3A :: (hex g ++ (joined gs ++ rest)) := by
        rw [joined, List.flatMap_cons, List.cons_append, List.cons_append, List.append_assoc]
        rfl
      have hno : (0x2E : UInt8) ∉ joined (g :: gs) ++ rest := by
        rw [List.mem_append, not_or]
        exact ⟨not_mem_joined _, hdot⟩
      have hread : readSeparator 0x3A (index + 1) (readNumber 16 4 65536 true)
          (joined (g :: gs) ++ rest) =
          some (g, joined gs ++ rest) := by
        rw [htext, readSeparator.eq_def, if_neg (Nat.succ_ne_zero index)]
        exact (if_pos rfl).trans (readNumber_hex hg (stops_joined gs h.stops))
      rw [readGroups, readSeparator_ipv4_none _ hno, ite_self, hread]
      simp only [ih room (index + 1) (Nat.le_of_succ_le_succ hroom) hgs]

theorem readGroups_groups (gs : List Nat) (room : Nat) (hroom : gs.length ≤ room)
    (hgs : ∀ g ∈ gs, g < 65536) (h : Follows rest) (hdot : (0x2E : UInt8) ∉ rest) :
    readGroups room 0 (groups gs ++ rest) = (gs, false, rest) := by
  cases gs with
  | nil => exact readGroups_follows room 0 h hdot
  | cons g gs =>
      obtain ⟨hg, htail⟩ := List.forall_mem_cons.mp hgs
      rw [List.length_cons] at hroom
      obtain ⟨room, rfl⟩ :=
        Nat.exists_eq_succ_of_ne_zero (Nat.ne_of_gt (Nat.lt_of_lt_of_le (Nat.succ_pos _) hroom))
      have hno : (0x2E : UInt8) ∉ groups (g :: gs) ++ rest := by
        rw [List.mem_append, not_or]
        exact ⟨not_mem_groups _, hdot⟩
      have hread : readSeparator 0x3A 0 (readNumber 16 4 65536 true) (groups (g :: gs) ++ rest) =
          some (g, joined gs ++ rest) := by
        rw [groups_cons, List.append_assoc, readSeparator.eq_def, if_pos rfl]
        exact readNumber_hex hg (stops_joined gs h.stops)
      rw [readGroups, readSeparator_ipv4_none _ hno, ite_self, hread]
      simp only [readGroups_joined gs room 0 (Nat.le_of_succ_le_succ hroom) htail h hdot]

end Groups

section ZeroRuns

variable {all : List Nat}

theorem zeros_zeroRun (gs : List Nat) (i : Nat) (current longest : Nat × Nat)
    (hgs : all.drop i = gs) (hi : i ≤ all.length) (hcurrent : Zeros all current)
    (hend : current.2 ≠ 0 → current.1 + current.2 = i) (hlongest : Zeros all longest) :
    Zeros all (zeroRun gs i current longest) := by
  induction gs generalizing i current longest with
  | nil => exact hlongest
  | cons g gs ih =>
      have hg : all[i]? = some g := by
        rw [← List.head?_drop, hgs]
        rfl
      have hlt : i < all.length := (List.getElem?_eq_some_iff.mp hg).1
      have hnext : all.drop (i + 1) = gs := by
        rw [← List.tail_drop, hgs]
        rfl
      rw [zeroRun]
      split
      next hzero =>
        have hgrown : Zeros all (if current.2 = 0 then i else current.1, current.2 + 1) := by
          split
          next hnew =>
            rw [hnew]
            refine ⟨hlt, fun k hlo hhi => ?_⟩
            obtain rfl : k = i := by
              simp only at hlo hhi
              omega
            rw [hg, hzero]
          next hold =>
            have hlast := hend hold
            refine ⟨by simp only; omega, fun k hlo hhi => ?_⟩
            simp only at hlo hhi
            by_cases hk : k = i
            · rw [hk, hg, hzero]
            · exact hcurrent.2 k hlo (by omega)
        have hlast : (if current.2 = 0 then i else current.1) + (current.2 + 1) = i + 1 := by
          split
          · omega
          next hold =>
            have hold' := hend hold
            omega
        refine ih (i + 1) _ _ hnext hlt hgrown (fun _ => hlast) ?_
        by_cases hlonger : longest.2 < current.2 + 1
        · rw [if_pos hlonger]
          exact hgrown
        · rw [if_neg hlonger]
          exact hlongest
      next =>
        have hempty : Zeros all (0, 0) :=
          ⟨Nat.zero_le _, fun k _ hk => absurd hk (Nat.not_lt_zero k)⟩
        exact ih (i + 1) _ _ hnext hlt hempty (fun h => absurd rfl h) hlongest

theorem Zeros.split {run : Nat × Nat} (h : Zeros all run) :
    all = all.take run.1 ++ List.replicate run.2 0 ++ all.drop (run.1 + run.2) := by
  have hzeros : (all.drop run.1).take run.2 = List.replicate run.2 0 := by
    obtain ⟨hle, hall⟩ := h
    apply List.ext_getElem?
    intro k
    rw [List.getElem?_take, List.getElem?_replicate, List.getElem?_drop]
    split
    next hk => exact hall (run.1 + k) (Nat.le_add_right _ _) (Nat.add_lt_add_left hk _)
    next => rfl
  rw [← hzeros, ← List.drop_drop, List.append_assoc, List.take_append_drop, List.take_append_drop]

end ZeroRuns

section Segments

theorem toBytes_ofBytes_pair (a b : UInt8) : toBytes 2 (ofBytes [a, b]) = [a, b] := by
  have hlen : [a, b].length = 2 := rfl
  rw [← hlen]
  exact toBytes_ofBytes [a, b]

theorem flatMap_segments {n : Nat} {ip : Bytes} (h : ip.length = 2 * n) :
    (segments ip).flatMap (toBytes 2) = ip ∧ (segments ip).length = n := by
  induction n generalizing ip with
  | zero =>
      obtain rfl := List.length_eq_zero_iff.mp h
      exact ⟨rfl, rfl⟩
  | succ n ih =>
      obtain ⟨a, b, rest, rfl⟩ : ∃ a b rest, ip = a :: b :: rest := by
        cases ip with
        | nil => simp at h
        | cons a ip =>
            cases ip with
            | nil => simp at h; omega
            | cons b rest => exact ⟨a, b, rest, rfl⟩
      have hrest : rest.length = 2 * n := by
        simp only [List.length_cons] at h
        omega
      obtain ⟨hbytes, hlen⟩ := ih hrest
      refine ⟨?_, by rw [segments, List.length_cons, hlen]⟩
      rw [segments, List.flatMap_cons, hbytes, toBytes_ofBytes_pair]
      rfl

end Segments

theorem readIpv4Addr_ipv4ToString (a b c d : UInt8) :
    readIpv4Addr (ipv4ToString [a, b, c, d]) = some ([a, b, c, d], []) := by
  have hparse := parseIpv4Addr_ipv4ToString a b c d
  rw [parseIpv4Addr] at hparse
  split at hparse
  · cases hparse
  split at hparse
  next ip hread =>
    obtain rfl := Option.some.inj hparse
    exact hread
  next => cases hparse

theorem readIpv6Addr_mapped (a b c d : UInt8) :
    readIpv6Addr (ascii "::ffff:" ++ ipv4ToString [a, b, c, d]) =
    some ([0, 0, 0, 0, 0, 65535, ofBytes [a, b], ofBytes [c, d]], []) := by
  have htext : ascii "::ffff:" ++ ipv4ToString [a, b, c, d] =
      0x3A :: 0x3A :: (hex 65535 ++ (0x3A :: ipv4ToString [a, b, c, d])) := by
    have hfirst : ascii "::ffff:" = 0x3A :: 0x3A :: (hex 65535 ++ [0x3A]) := by decide +kernel
    rw [hfirst]
    simp
  have hhead : readGroups 8 0 (0x3A :: 0x3A :: (hex 65535 ++ (0x3A :: ipv4ToString [a, b, c, d]))) =
      ([], false, 0x3A :: 0x3A :: (hex 65535 ++ (0x3A :: ipv4ToString [a, b, c, d]))) := rfl
  have hstops : Stops (0x3A :: ipv4ToString [a, b, c, d]) := fun x hx => (Option.some.inj hx).symm
  have hlast : readGroups 6 1 (0x3A :: ipv4ToString [a, b, c, d]) =
      ([ofBytes [a, b], ofBytes [c, d]], true, []) := by
    have hread : readSeparator 0x3A 1 readIpv4Addr (0x3A :: ipv4ToString [a, b, c, d]) =
        some ([a, b, c, d], []) :=
      readIpv4Addr_ipv4ToString a b c d
    rw [readGroups, if_pos (by decide), hread]
    rfl
  have htail : readGroups 7 0 (hex 65535 ++ (0x3A :: ipv4ToString [a, b, c, d])) =
      ([65535, ofBytes [a, b], ofBytes [c, d]], true, []) := by
    have hno : readSeparator 0x3A 0 readIpv4Addr
        (hex 65535 ++ (0x3A :: ipv4ToString [a, b, c, d])) = none := rfl
    have hgroup : readSeparator 0x3A 0 (readNumber 16 4 65536 true)
        (hex 65535 ++ (0x3A :: ipv4ToString [a, b, c, d])) =
        some (65535, 0x3A :: ipv4ToString [a, b, c, d]) := by
      rw [readSeparator.eq_def, if_pos rfl]
      exact readNumber_hex (by decide) hstops
    rw [readGroups, hno, ite_self, hgroup]
    simp only [hlast]
  rw [htext, readIpv6Addr]
  simp only [hhead, List.length_nil, Nat.zero_ne_add_one, if_false, Bool.false_eq_true]
  rw [htail]
  rfl

theorem readIpv6Addr_groups {gs : List Nat} (hlen : gs.length = 8) (hgs : ∀ g ∈ gs, g < 65536) :
    readIpv6Addr (groups gs) = some (gs, []) := by
  have hread := readGroups_groups gs 8 (Nat.le_of_eq hlen) hgs (Or.inl rfl) (List.not_mem_nil)
  rw [List.append_nil] at hread
  rw [readIpv6Addr]
  simp only [hread]
  rw [if_pos hlen]

theorem readIpv6Addr_compressed {gs : List Nat} {run : Nat × Nat} (hlen : gs.length = 8)
    (hgs : ∀ g ∈ gs, g < 65536) (hrun : Zeros gs run) (hlong : 1 < run.2) :
    readIpv6Addr (groups (gs.take run.1) ++ ascii "::" ++ groups (gs.drop (run.1 + run.2))) =
      some (gs, []) := by
  have hle := hrun.1
  have hhead : (gs.take run.1).length = run.1 := by
    rw [List.length_take]
    omega
  have hrest : (gs.drop (run.1 + run.2)).length = 8 - (run.1 + run.2) := by
    rw [List.length_drop, hlen]
  have hcolons : ascii "::" = [0x3A, 0x3A] := rfl
  have hfollows : Follows (0x3A :: 0x3A :: groups (gs.drop (run.1 + run.2))) := Or.inr ⟨_, rfl⟩
  have hread := readGroups_groups (gs.take run.1) 8 (by omega)
    (fun g hg => hgs g (List.mem_of_mem_take hg)) hfollows (by simp [not_mem_groups])
  have htail := readGroups_groups (gs.drop (run.1 + run.2)) (8 - (run.1 + 1)) (by omega)
    (fun g hg => hgs g (List.mem_of_mem_drop hg)) (Or.inl rfl) List.not_mem_nil
  rw [List.append_nil] at htail
  rw [hcolons, List.append_assoc, List.cons_append, List.cons_append, List.nil_append, readIpv6Addr]
  simp only [hread, hhead]
  rw [if_neg (by omega), if_neg (by decide)]
  simp only [htail, hrest]
  have hzeros : 8 - run.1 - (8 - (run.1 + run.2)) = run.2 := by omega
  rw [hzeros, ← hrun.split]

theorem readIpv6Addr_ipv6ToString {ip : Bytes} (h : ip.length = 16) :
    ∃ gs, readIpv6Addr (ipv6ToString ip) = some (gs, []) ∧ gs.flatMap (toBytes 2) = ip := by
  obtain ⟨hbytes, hlen⟩ := flatMap_segments (n := 8) h
  have hlt := (segments_spec ip).2
  have hempty : Zeros (segments ip) (0, 0) :=
    ⟨Nat.zero_le _, fun k _ hk => absurd hk (Nat.not_lt_zero k)⟩
  have hrun : Zeros (segments ip) (zeroRun (segments ip) 0 (0, 0) (0, 0)) :=
    zeros_zeroRun (segments ip) 0 (0, 0) (0, 0) rfl (Nat.zero_le _) hempty
      (fun h => absurd rfl h) hempty
  unfold ipv6ToString
  split
  next hmapped =>
    obtain ⟨a, b, c, d, hlast⟩ : ∃ a b c d, ip.drop 12 = [a, b, c, d] := by
      apply List.length_eq_four.mp
      rw [List.length_drop, h]
    refine ⟨_, by rw [hlast, readIpv6Addr_mapped], ?_⟩
    have hip : ip = [0, 0, 0, 0, 0, 0, 0, 0, 0, 0, 0xFF, 0xFF] ++ [a, b, c, d] := by
      rw [← hmapped, ← hlast, List.take_append_drop]
    rw [hip]
    simp only [List.flatMap_cons, List.flatMap_nil, toBytes_ofBytes_pair]
    rfl
  next =>
    refine ⟨segments ip, ?_, hbytes⟩
    simp only
    split
    next hlong => exact readIpv6Addr_compressed hlen hlt hrun hlong
    next => exact readIpv6Addr_groups hlen hlt

theorem parseIpv6Addr_ipv6ToString {ip : Bytes} (h : ip.length = 16) :
    parseIpv6Addr (ipv6ToString ip) = some ip := by
  obtain ⟨gs, hread, hbytes⟩ := readIpv6Addr_ipv6ToString h
  rw [parseIpv6Addr, hread]
  exact congrArg some hbytes

section NotIpv4

variable {text rest : Bytes}

theorem digits_of_readOctet {b : UInt8} (h : readOctet 0 text = some (b, rest)) :
    ∃ taken, text = taken ++ rest ∧ ∀ x ∈ taken, (digitValue 10 x).isSome = true := by
  obtain ⟨⟨n, rest'⟩, hread, heq⟩ := Option.map_eq_some_iff.mp h
  obtain rfl : rest' = rest := (Prod.mk.inj heq).2
  simp only [readSeparator.eq_def, if_pos, readNumber, Option.ite_none_left_eq_some,
    Option.ite_none_right_eq_some, Option.some.injEq, Prod.mk.injEq] at hread
  obtain ⟨-, -, -, -, rfl⟩ := hread
  refine ⟨text.takeWhile fun b => (digitValue 10 b).isSome, ?_, ?_⟩
  · exact (List.prefix_iff_eq_append.mp (List.takeWhile_prefix _)).symm
  · intro x hx
    have hdigit := List.mem_takeWhile_imp hx
    exact hdigit

theorem readIpv4Addr_none_of_colon {before after : Bytes} (h : (0x2E : UInt8) ∉ before) :
    readIpv4Addr (before ++ 0x3A :: after) = none := by
  rw [Option.eq_none_iff_forall_ne_some]
  rintro ⟨ip, rest⟩ hread
  simp only [readIpv4Addr, Option.bind_eq_bind, Option.bind_eq_some_iff] at hread
  obtain ⟨⟨a, text₁⟩, hfirst, ⟨b, text₂⟩, hsecond, -⟩ := hread
  obtain ⟨taken, htext, hdigits⟩ := digits_of_readOctet hfirst
  obtain ⟨more, rfl⟩ : ∃ more, text₁ = 0x2E :: more := by
    obtain ⟨⟨n, text₃⟩, hnumber, -⟩ := Option.map_eq_some_iff.mp hsecond
    cases text₁ with
    | nil => simp [readSeparator] at hnumber
    | cons c text₁ =>
        simp only [readSeparator, Nat.one_ne_zero, if_false,
          Option.ite_none_right_eq_some] at hnumber
        exact ⟨text₁, by rw [hnumber.1]⟩
  rcases List.append_eq_append_iff.mp htext with ⟨as, rfl, heq⟩ | ⟨as, rfl, heq⟩
  · cases as with
    | nil => exact absurd (List.cons.inj heq).1 (by decide)
    | cons x as =>
        obtain rfl := (List.cons.inj heq).1
        have hcolon := hdigits 0x3A (List.mem_append_right before List.mem_cons_self)
        exact absurd hcolon (by decide)
  · cases as with
    | nil => exact absurd (List.cons.inj heq).1 (by decide)
    | cons x as =>
        obtain rfl := (List.cons.inj heq).1
        exact h (List.mem_append_right taken List.mem_cons_self)

theorem ipv6ToString_colon {ip : Bytes} (h : ip.length = 16) :
    ∃ before after, ipv6ToString ip = before ++ 0x3A :: after ∧ (0x2E : UInt8) ∉ before := by
  obtain ⟨-, hlen⟩ := flatMap_segments (n := 8) h
  unfold ipv6ToString
  split
  · exact ⟨[], _, rfl, List.not_mem_nil⟩
  · simp only
    split
    · rw [List.append_assoc]
      exact ⟨groups ((segments ip).take (zeroRun (segments ip) 0 (0, 0) (0, 0)).1), _, rfl,
        not_mem_groups _⟩
    · obtain ⟨g, g', gs, heq⟩ : ∃ g g' gs, segments ip = g :: g' :: gs := by
        cases hs : segments ip with
        | nil => simp [hs] at hlen
        | cons g gs =>
            cases gs with
            | nil => simp [hs] at hlen
            | cons g' gs => exact ⟨g, g', gs, rfl⟩
      rw [heq, groups_cons]
      exact ⟨hex g, _, rfl, not_mem_hex g⟩

theorem parseIpv4Addr_ipv6ToString {ip : Bytes} (h : ip.length = 16) :
    parseIpv4Addr (ipv6ToString ip) = none := by
  obtain ⟨before, after, heq, hdot⟩ := ipv6ToString_colon h
  rw [heq, parseIpv4Addr, readIpv4Addr_none_of_colon hdot]
  exact ite_self none

end NotIpv4

end SrtVpn.Ipv6Texts
