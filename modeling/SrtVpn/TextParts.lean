import Mathlib.Data.List.TakeWhile
import SrtVpn.Text
import SrtVpn.Utf8Chars

namespace SrtVpn.TextParts

open BigEndian Utf8 Utf8Chars Text

section Numerals

theorem toNat_digitChar (d : Nat) : d.digitChar.toNat < 128 := by
  match d with
  | 0 | 1 | 2 | 3 | 4 | 5 | 6 | 7 | 8 | 9 | 10 | 11 | 12 | 13 | 14 | 15 => decide
  | n + 16 =>
      rw [Nat.digitChar_eq_star.mpr (Nat.le_add_left 16 n)]
      decide

theorem digit_of_mem_toDigits {b n : Nat} {c : Char} (hb : 1 < b) (h : c ∈ Nat.toDigits b n) :
    ∃ d, d < b ∧ c = d.digitChar := by
  induction n using Nat.base_induction b hb with
  | single m hm =>
      rw [Nat.toDigits_of_lt_base hm, List.mem_singleton] at h
      exact ⟨m, hm, h⟩
  | digit m k hk hm ih =>
      rw [← Nat.toDigits_append_toDigits hb hm hk, List.mem_append, Nat.toDigits_of_lt_base hk,
        List.mem_singleton] at h
      rcases h with h | h
      · exact ih h
      · exact ⟨k, hk, h⟩

theorem ascii_digits {b n : Nat} (hb : 1 < b) {x : UInt8}
    (h : x ∈ (Nat.toDigits b n).map fun c => UInt8.ofNat c.toNat) : x < 0x80 := by
  obtain ⟨c, hc, rfl⟩ := List.mem_map.mp h
  obtain ⟨d, -, rfl⟩ := digit_of_mem_toDigits hb hc
  have hd := toNat_digitChar d
  rw [UInt8.lt_iff_toNat_lt, UInt8.toNat_ofNat', Nat.mod_eq_of_lt (by omega)]
  exact hd

theorem ascii_intercalate {sep : UInt8} (hsep : sep < 0x80) {parts : List Bytes}
    (h : ∀ p ∈ parts, ∀ x ∈ p, x < 0x80) : ∀ x ∈ [sep].intercalate parts, x < 0x80 := by
  induction parts with
  | nil => simp [List.intercalate]
  | cons p ps ih =>
      obtain ⟨hp, hps⟩ := List.forall_mem_cons.mp h
      intro x hx
      cases ps with
      | nil => exact hp x (by simpa [List.intercalate] using hx)
      | cons q ps =>
          have hsplit : [sep].intercalate (p :: q :: ps) =
              p ++ sep :: [sep].intercalate (q :: ps) := by
            simp [List.intercalate]
          rw [hsplit, List.mem_append, List.mem_cons] at hx
          rcases hx with hx | rfl | hx
          · exact hp x hx
          · exact hsep
          · exact ih hps x hx

end Numerals

section Addresses

theorem ascii_decimal (n : Nat) : ∀ x ∈ decimal n, x < 0x80 := fun _ h => ascii_digits (by decide) h

theorem ascii_hex (n : Nat) : ∀ x ∈ hex n, x < 0x80 := fun _ h => ascii_digits (by decide) h

theorem ascii_ipv4ToString (ip : Bytes) : ∀ x ∈ ipv4ToString ip, x < 0x80 := by
  apply ascii_intercalate (by decide)
  intro p hp
  obtain ⟨b, -, rfl⟩ := List.mem_map.mp hp
  exact ascii_decimal b.toNat

theorem ascii_groups (gs : List Nat) : ∀ x ∈ groups gs, x < 0x80 := by
  apply ascii_intercalate (by decide)
  intro p hp
  obtain ⟨g, -, rfl⟩ := List.mem_map.mp hp
  exact ascii_hex g

theorem ascii_append {a b : Bytes} (ha : ∀ x ∈ a, x < 0x80) (hb : ∀ x ∈ b, x < 0x80) :
    ∀ x ∈ a ++ b, x < 0x80 := by
  intro x hx
  rcases List.mem_append.mp hx with hx | hx
  · exact ha x hx
  · exact hb x hx

theorem ascii_ipv6ToString (ip : Bytes) : ∀ x ∈ ipv6ToString ip, x < 0x80 := by
  unfold ipv6ToString
  split
  · exact ascii_append (by decide +kernel) (ascii_ipv4ToString _)
  simp only
  split
  · exact ascii_append (ascii_append (ascii_groups _) (by decide +kernel)) (ascii_groups _)
  · exact ascii_groups _

theorem valid_ipv4ToString (ip : Bytes) : Valid (ipv4ToString ip) :=
  valid_of_ascii (ascii_ipv4ToString ip)

theorem valid_ipv6ToString (ip : Bytes) : Valid (ipv6ToString ip) :=
  valid_of_ascii (ascii_ipv6ToString ip)

end Addresses

section Parts

theorem valid_before {a b : Bytes} (h : Valid (a ++ b)) (hb : ∀ x rest, b = x :: rest → x < 0x80) :
    Valid a := by
  cases b with
  | nil => simpa using h
  | cons x rest => exact (valid_split (hb x rest rfl) h).1

theorem valid_behind {a b : Bytes} (h : Valid (a ++ b)) (ha : ∀ x ∈ a, x < 0x80) : Valid b := by
  induction a with
  | nil => exact h
  | cons x a ih =>
      obtain ⟨hx, ha⟩ := List.forall_mem_cons.mp ha
      have hsplit : Valid ([] ++ x :: (a ++ b)) := h
      exact ih (valid_split hx hsplit).2 ha

theorem valid_takeWhile {p : UInt8 → Bool} {text : Bytes} (h : Valid text)
    (hp : ∀ x, p x = false → x < 0x80) : Valid (text.takeWhile p) := by
  rw [← List.takeWhile_append_dropWhile (p := p) (l := text)] at h
  refine valid_before h fun x rest hx => hp x ?_
  have hhead := List.head?_dropWhile_not p text
  rw [hx] at hhead
  simpa using hhead

theorem splitOnce_eq {sep : UInt8} {text a b : Bytes} (h : splitOnce sep text = some (a, b)) :
    text = a ++ sep :: b := by
  rw [splitOnce, Option.ite_none_right_eq_some] at h
  obtain ⟨hmem, heq⟩ := h
  obtain ⟨rfl, rfl⟩ := Prod.mk.inj (Option.some.inj heq)
  have hhead := List.head?_dropWhile_not (· ≠ sep) text
  have hcat := List.takeWhile_append_dropWhile (p := (· ≠ sep)) (l := text)
  cases hdrop : text.dropWhile (· ≠ sep) with
  | nil =>
      rw [hdrop, List.append_nil] at hcat
      have hall := List.mem_takeWhile_imp (hcat ▸ hmem)
      simp at hall
  | cons x rest =>
      rw [hdrop] at hhead hcat
      obtain rfl : x = sep := by simpa using hhead
      exact hcat.symm

theorem splitOnce_field {sep : UInt8} {a : Bytes} (h : sep ∉ a) (b : Bytes) :
    splitOnce sep (a ++ sep :: b) = some (a, b) := by
  have hall : ∀ x ∈ a, (decide (x ≠ sep)) = true := by
    intro x hx
    rw [decide_eq_true_eq]
    rintro rfl
    exact h hx
  rw [splitOnce, if_pos (by simp), List.takeWhile_append_of_pos hall,
    List.dropWhile_append_of_pos hall]
  simp

theorem rsplitOnce_eq {sep : UInt8} {text a b : Bytes} (h : rsplitOnce sep text = some (a, b)) :
    text = a ++ sep :: b := by
  obtain ⟨⟨after, before⟩, hsplit, heq⟩ := Option.map_eq_some_iff.mp h
  obtain ⟨rfl, rfl⟩ := Prod.mk.inj heq
  have hrev := congrArg List.reverse (splitOnce_eq hsplit)
  simpa using hrev

theorem rsplitOnce_field {sep : UInt8} {b : Bytes} (a : Bytes) (h : sep ∉ b) :
    rsplitOnce sep (a ++ sep :: b) = some (a, b) := by
  have hreverse : (a ++ sep :: b).reverse = b.reverse ++ sep :: a.reverse := by simp
  have hsplit := splitOnce_field (fun hmem => h (List.mem_reverse.mp hmem)) a.reverse
  rw [rsplitOnce, hreverse, hsplit]
  simp

theorem rsplitOnce_none {sep : UInt8} {text : Bytes} (h : sep ∉ text) :
    rsplitOnce sep text = none := by
  rw [rsplitOnce, splitOnce, if_neg (fun hmem => h (List.mem_reverse.mp hmem))]
  rfl

theorem trimStartMatches_of_not_mem {b : UInt8} {text : Bytes} (h : b ∉ text) :
    trimStartMatches b text = text := by
  cases text with
  | nil => rfl
  | cons x text =>
      have hx : x ≠ b := fun heq => h (heq ▸ List.mem_cons_self)
      rw [trimStartMatches, List.dropWhile_cons_of_neg (by simpa using hx)]

theorem trimEndMatches_of_not_mem {b : UInt8} {text : Bytes} (h : b ∉ text) :
    trimEndMatches b text = text := by
  have htrim := trimStartMatches_of_not_mem (fun hmem => h (List.mem_reverse.mp hmem))
  rw [trimStartMatches] at htrim
  rw [trimEndMatches, htrim, List.reverse_reverse]

theorem valid_trimStartMatches {b : UInt8} (hb : b < 0x80) {text : Bytes} (h : Valid text) :
    Valid (trimStartMatches b text) := by
  rw [← List.takeWhile_append_dropWhile (p := (· = b)) (l := text)] at h
  refine valid_behind h fun x hx => ?_
  have heq := List.mem_takeWhile_imp hx
  rw [of_decide_eq_true heq]
  exact hb

theorem valid_trimEndMatches {b : UInt8} (hb : b < 0x80) {text : Bytes} (h : Valid text) :
    Valid (trimEndMatches b text) := by
  have hcat :=
    congrArg List.reverse (List.takeWhile_append_dropWhile (p := (· = b)) (l := text.reverse))
  rw [List.reverse_append, List.reverse_reverse] at hcat
  rw [← hcat] at h
  refine valid_before h fun x rest hx => ?_
  have hmem : x ∈ text.reverse.takeWhile (· = b) := by
    rw [← List.mem_reverse, hx]
    exact List.mem_cons_self
  have heq := List.mem_takeWhile_imp hmem
  rw [of_decide_eq_true heq]
  exact hb

theorem valid_stripPrefix {pat text rest : Bytes} (h : Valid text) (hpat : ∀ x ∈ pat, x < 0x80)
    (hstrip : stripPrefix pat text = some rest) : Valid rest := by
  rw [stripPrefix, Option.ite_none_right_eq_some, List.isPrefixOf_iff_prefix] at hstrip
  obtain ⟨⟨more, rfl⟩, heq⟩ := hstrip
  rw [List.drop_left] at heq
  obtain rfl := Option.some.inj heq
  exact valid_behind h hpat

theorem position_eq {pat text : Bytes} {p : Nat} (h : position pat text = some p) :
    pat <+: text.drop p := by
  induction text generalizing p with
  | nil =>
      rw [position, Option.ite_none_right_eq_some] at h
      rw [h.1]
      exact List.nil_prefix
  | cons b rest ih =>
      rw [position] at h
      split at h
      next hpre =>
        obtain rfl := Option.some.inj h
        exact List.isPrefixOf_iff_prefix.mp hpre
      next =>
        obtain ⟨q, hq, rfl⟩ := Option.map_eq_some_iff.mp h
        exact ih hq

theorem position_le {pat text : Bytes} {p : Nat} (h : position pat text = some p) :
    p + pat.length ≤ text.length := by
  induction text generalizing p with
  | nil =>
      rw [position, Option.ite_none_right_eq_some] at h
      obtain ⟨rfl, hp⟩ := h
      obtain rfl := Option.some.inj hp
      exact Nat.le_refl 0
  | cons b rest ih =>
      rw [position] at h
      split at h
      next hpre =>
        obtain rfl := Option.some.inj h
        rw [Nat.zero_add]
        exact (List.isPrefixOf_iff_prefix.mp hpre).length_le
      next =>
        obtain ⟨q, hq, rfl⟩ := Option.map_eq_some_iff.mp h
        have hle := ih hq
        rw [List.length_cons]
        omega

theorem position_isSome {pat text : Bytes} (h : pat <:+: text) :
    (position pat text).isSome = true := by
  induction text with
  | nil =>
      rw [List.infix_nil] at h
      rw [position, if_pos h]
      rfl
  | cons x text ih =>
      rw [position]
      by_cases hpre : pat.isPrefixOf (x :: text) = true
      · rw [if_pos hpre]
        rfl
      · rw [if_neg hpre, Option.isSome_map]
        rcases List.infix_cons_iff.mp h with hpre' | hrest
        · exact absurd (List.isPrefixOf_iff_prefix.mpr hpre') hpre
        · exact ih hrest

theorem position_append {pat text : Bytes} {p : Nat} (h : position pat text = some p)
    (more : Bytes) : position pat (text ++ more) = some p := by
  induction text generalizing p with
  | nil =>
      rw [position, Option.ite_none_right_eq_some] at h
      obtain ⟨rfl, hp⟩ := h
      cases more with
      | nil => exact hp
      | cons x more => exact hp
  | cons b text ih =>
      rw [position] at h
      rw [List.cons_append, position]
      split at h
      next hpre =>
        have hmore : pat <+: b :: (text ++ more) :=
          (List.isPrefixOf_iff_prefix.mp hpre).trans (List.prefix_append (b :: text) more)
        rw [if_pos (List.isPrefixOf_iff_prefix.mpr hmore)]
        exact h
      next hpre =>
        obtain ⟨q, hq, rfl⟩ := Option.map_eq_some_iff.mp h
        -- what stands in the text does not begin earlier and end behind it
        have hnone : ¬ pat.isPrefixOf (b :: (text ++ more)) = true := by
          intro hmore
          have hle := position_le hq
          have hshort : pat.length ≤ (b :: text).length := by
            rw [List.length_cons]
            omega
          exact hpre (List.isPrefixOf_iff_prefix.mpr
            (List.prefix_of_prefix_length_le (List.isPrefixOf_iff_prefix.mp hmore)
            (List.prefix_append (b :: text) more) hshort))
        rw [if_neg hnone, ih hq]
        rfl

theorem valid_upTo {pat text : Bytes} (h : Valid text) (hpat : ∀ x ∈ pat, x < 0x80)
    (hne : pat ≠ []) : Valid (text.take ((position pat text).getD text.length)) := by
  cases hp : position pat text with
  | none => simpa using h
  | some p =>
      obtain ⟨more, hmore⟩ := position_eq hp
      rw [← List.take_append_drop p text, ← hmore] at h
      refine valid_before h fun x rest hx => ?_
      cases pat with
      | nil => exact absurd rfl hne
      | cons y pat =>
          obtain ⟨rfl, -⟩ := List.cons.inj hx
          exact hpat y List.mem_cons_self

theorem valid_linesLoop {rest line l : Bytes} (h : Valid (line ++ rest))
    (hl : l ∈ linesLoop rest line) : Valid l := by
  induction rest generalizing line with
  | nil =>
      rw [linesLoop] at hl
      split at hl
      · simp at hl
      · rw [List.mem_singleton.mp hl]
        simpa using h
  | cons b rest ih =>
      rw [linesLoop] at hl
      split at hl
      next hb =>
        obtain ⟨hline, hrest⟩ := valid_split (hb ▸ (by decide : (0x0A : UInt8) < 0x80)) h
        rcases List.mem_cons.mp hl with rfl | hl
        · split
          next hcr =>
            have hlast : line = line.dropLast ++ 0x0D :: [] := by
              obtain ⟨init, rfl⟩ := List.getLast?_eq_some_iff.mp hcr
              simp
            rw [hlast] at hline
            exact (valid_split (by decide) hline).1
          next => exact hline
        · exact ih (show Valid ([] ++ rest) from hrest) hl
      next => exact ih (by simpa using h) hl

end Parts

section Characters

theorem charsLoop_flatten {cs : List Bytes} (h : ∀ c ∈ cs, IsChar c) (fuel : Nat)
    (hfuel : cs.flatten.length ≤ fuel) : charsLoop fuel cs.flatten = cs := by
  induction cs generalizing fuel with
  | nil => cases fuel <;> rfl
  | cons c cs ih =>
      obtain ⟨hc, hcs⟩ := List.forall_mem_cons.mp h
      have hpos := hc.length_pos
      rw [List.flatten_cons, List.length_append] at hfuel
      obtain ⟨fuel, rfl⟩ : ∃ f, fuel = f + 1 := ⟨fuel - 1, by omega⟩
      obtain ⟨lead, tail, rfl, hlen⟩ : ∃ lead tail,
          c = lead :: tail ∧ width lead - 1 = tail.length := by
        rcases hc.cases with ⟨b, rfl, hb⟩ | ⟨lead, b, rest, rfl, -, hw, -, -⟩
        · exact ⟨b, [], rfl, by rw [width_of_ascii hb]; rfl⟩
        · exact ⟨lead, b :: rest, rfl, by rw [hw]; rfl⟩
      rw [List.flatten_cons, List.cons_append, charsLoop, hlen]
      simp only [List.take_left, List.drop_left]
      rw [ih hcs fuel (by omega)]

theorem chars_flatten {cs : List Bytes} (h : ∀ c ∈ cs, IsChar c) : chars cs.flatten = cs :=
  charsLoop_flatten h _ (Nat.le_refl _)

theorem isChar_of_mem_chars {text c : Bytes} (h : Valid text) (hc : c ∈ chars text) : IsChar c := by
  obtain ⟨cs, hcs, rfl⟩ := (valid_iff text).mp h
  rw [chars_flatten hcs] at hc
  exact hcs c hc

theorem valid_trim {text : Bytes} (h : Valid text) : Valid (trim text) := by
  refine (valid_iff _).mpr ⟨_, fun c hc => isChar_of_mem_chars h ?_, rfl⟩
  have hmid := (List.dropWhile_sublist isWhitespace).subset (List.mem_reverse.mp hc)
  exact (List.dropWhile_sublist isWhitespace).subset (List.mem_reverse.mp hmid)

theorem valid_wordsLoop {cs : List Bytes} (h : ∀ c ∈ cs, IsChar c) {word w : Bytes}
    (hword : Valid word) (hw : w ∈ wordsLoop cs word) : Valid w := by
  induction cs generalizing word with
  | nil =>
      rw [wordsLoop] at hw
      split at hw
      · simp at hw
      · rw [List.mem_singleton.mp hw]
        exact hword
  | cons c cs ih =>
      obtain ⟨hc, hcs⟩ := List.forall_mem_cons.mp h
      rw [wordsLoop] at hw
      split at hw
      · split at hw
        · exact ih hcs valid_nil hw
        · rcases List.mem_cons.mp hw with rfl | hw
          · exact hword
          · exact ih hcs valid_nil hw
      · exact ih hcs (valid_append hword (valid_of_isChar hc)) hw

theorem valid_splitWhitespace {text w : Bytes} (h : Valid text) (hw : w ∈ splitWhitespace text) :
    Valid w :=
  valid_wordsLoop (fun _ hc => isChar_of_mem_chars h hc) valid_nil hw

end Characters

end SrtVpn.TextParts
