import SrtVpn.Utf8

namespace SrtVpn.Utf8Chars

open Utf8

def IsChar (c : List UInt8) : Prop := c ≠ [] ∧ sequence c = (c.length, true)

theorem width_le (b : UInt8) : width b ≤ 4 := by
  unfold width
  repeat' split
  all_goals decide

theorem tailLen_zero (lead : UInt8) (bs : List UInt8) : tailLen lead 0 bs = 0 := by
  cases bs with
  | nil => rfl
  | cons b rest => simp [tailLen]

theorem tailLen_cons {lead b : UInt8} {need : Nat} {rest : List UInt8}
    (h : tailLen lead (need + 1) (b :: rest) = need + 1) :
    second lead b = true ∧ need ≤ rest.length ∧ ∀ x ∈ rest.take need, continues x = true := by
  rw [tailLen] at h
  split at h
  next hstop => simp at h
  next hgo =>
    have hb : second lead b = true := by simpa using (not_or.mp hgo).2
    rw [Nat.add_sub_cancel, Nat.add_comm] at h
    have hidx := Nat.succ.inj h
    have hle := @List.findIdx_le_length _ (!continues ·) (rest.take need)
    have hlen := List.length_take_le need rest
    rw [hidx] at hle
    refine ⟨hb, Nat.le_trans hle (List.length_take_le' _ _), fun x hx => ?_⟩
    have hnone :=
      List.findIdx_eq_length.mp
        (show (rest.take need).findIdx (!continues ·) = (rest.take need).length by omega)
    simpa using hnone x hx

theorem tailLen_of_continues {lead b : UInt8} {need : Nat} {rest : List UInt8}
    (hb : second lead b = true) (hlen : rest.length ≤ need) (hall : ∀ x ∈ rest, continues x = true)
    (more : List UInt8)
    (hmore : rest.length = need ∨ more = []) :
    tailLen lead (need + 1) (b :: (rest ++ more)) = rest.length + 1 := by
  have htake : (rest ++ more).take need = rest := by
    rcases hmore with h | h
    · rw [← h, List.take_left]
    · rw [h, List.append_nil, List.take_of_length_le hlen]
  rw [tailLen, if_neg (by simp [hb]), Nat.add_sub_cancel, htake, Nat.add_comm]
  congr 1
  exact List.findIdx_eq_length.mpr fun x hx => by simp [hall x hx]

theorem high_of_continues {b : UInt8} (h : continues b = true) : 0x80 ≤ b := by
  simp only [continues, Bool.and_eq_true, decide_eq_true_eq] at h
  exact h.1

theorem high_of_second {lead b : UInt8} (h : second lead b = true) : 0x80 ≤ b :=
  high_of_continues (continues_of_second h)

theorem width_of_ascii {b : UInt8} (h : b < 0x80) : width b = 1 := if_pos h

theorem high_of_width {b : UInt8} (h : width b ≠ 1) : 0x80 ≤ b :=
  UInt8.not_lt.mp fun hlt => h (width_of_ascii hlt)

theorem ascii_of_width {b : UInt8} (h : width b = 1) : b < 0x80 := by
  rw [width] at h
  split at h
  · assumption
  repeat' split at h
  all_goals simp at h

theorem isChar_ascii {b : UInt8} (h : b < 0x80) : IsChar [b] := by
  refine ⟨by simp, ?_⟩
  rw [Utf8.sequence, width_of_ascii h]
  rfl

theorem sequence_of_tail {lead : UInt8} {rest : List UInt8} (hw : width lead ≠ 0) :
    sequence (lead :: rest) =
      (1 + tailLen lead (width lead - 1) rest,
        decide (tailLen lead (width lead - 1) rest = width lead - 1)) := if_neg hw

theorem IsChar.cases {c : List UInt8} (h : IsChar c) : (∃ b, c = [b] ∧ b < 0x80) ∨
    ∃ lead b rest, c = lead :: b :: rest ∧ 0x80 ≤ lead ∧ width lead = rest.length + 2 ∧
      second lead b = true ∧ ∀ x ∈ rest, continues x = true := by
  obtain ⟨hne, hseq⟩ := h
  cases c with
  | nil => exact absurd rfl hne
  | cons lead rest =>
      by_cases hw : width lead = 0
      · simp [Utf8.sequence, hw] at hseq
      · rw [sequence_of_tail hw, Prod.mk.injEq, decide_eq_true_eq, List.length_cons] at hseq
        obtain ⟨hlen, htail⟩ := hseq
        cases rest with
        | nil =>
            have hone : width lead = 1 := by
              rw [List.length_nil] at hlen
              omega
            exact Or.inl ⟨lead, rfl, ascii_of_width hone⟩
        | cons b rest =>
            rw [List.length_cons] at hlen
            obtain ⟨n, hn⟩ : ∃ n, width lead - 1 = n + 1 := ⟨rest.length, by omega⟩
            rw [hn] at htail hlen
            obtain ⟨hb, -, hall⟩ := tailLen_cons htail
            have hn' : n = rest.length := by omega
            rw [hn', List.take_length] at hall
            exact Or.inr ⟨lead, b, rest, rfl, high_of_width (by omega), by omega, hb, hall⟩

theorem sequence_multi {lead b : UInt8} {rest : List UInt8} (hw : width lead = rest.length + 2)
    (hb : second lead b = true) (hall : ∀ x ∈ rest, continues x = true) (more : List UInt8) :
    sequence (lead :: b :: (rest ++ more)) = (rest.length + 2, true) := by
  have htail := tailLen_of_continues hb (Nat.le_refl _) hall more (Or.inl rfl)
  rw [sequence_of_tail (by omega), hw, show rest.length + 2 - 1 = rest.length + 1 from rfl, htail]
  simp
  omega

theorem sequence_append {c : List UInt8} (h : IsChar c) (more : List UInt8) :
    sequence (c ++ more) = (c.length, true) := by
  rcases h.cases with ⟨b, rfl, hb⟩ | ⟨lead, b, rest, rfl, -, hw, hb, hall⟩
  · rw [List.singleton_append, sequence_of_tail (by rw [width_of_ascii hb]; decide),
      width_of_ascii hb, tailLen_zero]
    rfl
  · exact sequence_multi hw hb hall more

theorem sequence_cut {c : List UInt8} (h : IsChar c) {m : Nat} (hm : 0 < m ∧ m < c.length) :
    sequence (c.take m) = (m, false) := by
  rcases h.cases with ⟨b, rfl, hb⟩ | ⟨lead, b, rest, rfl, -, hw, hb, hall⟩
  · simp at hm
    omega
  · obtain ⟨k, rfl⟩ : ∃ k, m = k + 1 := ⟨m - 1, by omega⟩
    simp only [List.length_cons] at hm
    cases k with
    | zero =>
        simp [sequence_of_tail (show width lead ≠ 0 by omega), tailLen, hw]
    | succ k =>
        have htail : tailLen lead (rest.length + 1) (b :: (rest.take k ++ [])) = _ :=
          tailLen_of_continues hb (List.length_take_le' k rest)
            (fun x hx => hall x (List.mem_of_mem_take hx)) [] (Or.inr rfl)
        rw [List.append_nil] at htail
        rw [List.take_succ_cons, List.take_succ_cons, sequence_of_tail (by omega), hw,
          show rest.length + 2 - 1 = rest.length + 1 from rfl, htail]
        simp
        omega

theorem IsChar.length_pos {c : List UInt8} (h : IsChar c) : 0 < c.length :=
  List.length_pos_iff.mpr h.1

theorem IsChar.high {c : List UInt8} (h : IsChar c) {x : UInt8} (hx : x ∈ c) (hlow : x < 0x80) :
    c = [x] := by
  rcases h.cases with ⟨b, rfl, -⟩ | ⟨lead, b, rest, rfl, hlead, -, hb, hall⟩
  · rw [List.mem_singleton.mp hx]
  · have hhigh : 0x80 ≤ x := by
      simp only [List.mem_cons] at hx
      rcases hx with rfl | rfl | hx
      · exact hlead
      · exact high_of_second hb
      · exact high_of_continues (hall x hx)
    exact absurd hlow (UInt8.not_lt.mpr hhigh)

section Texts

theorem sequence_pos {bs : List UInt8} (h : bs ≠ []) : 0 < (sequence bs).1 := by
  cases bs with
  | nil => exact absurd rfl h
  | cons b rest =>
      rw [Utf8.sequence]
      split
      · exact Nat.one_pos
      · simp only
        omega

theorem isChar_of_sequence {bs : List UInt8} (hne : bs ≠ []) (h : (sequence bs).2 = true) :
    IsChar (bs.take (sequence bs).1) := by
  cases bs with
  | nil => exact absurd rfl hne
  | cons lead rest =>
      by_cases hw : width lead = 0
      · simp [Utf8.sequence, hw] at h
      · rw [sequence_of_tail hw] at h ⊢
        have htail : tailLen lead (width lead - 1) rest = width lead - 1 := by simpa using h
        simp only [htail]
        cases hn : width lead - 1 with
        | zero => exact isChar_ascii (ascii_of_width (by omega))
        | succ n =>
            rw [hn] at htail
            cases rest with
            | nil => simp [tailLen] at htail
            | cons b rest =>
                obtain ⟨hb, hlen, hall⟩ := tailLen_cons htail
                have hlength : (rest.take n).length = n := List.length_take_of_le hlen
                have hseq := sequence_multi (by rw [hlength]; omega) hb hall []
                rw [List.append_nil] at hseq
                rw [Nat.add_comm, List.take_succ_cons, List.take_succ_cons]
                exact ⟨by simp, by simpa using hseq⟩

theorem validLoop_chars {cs : List (List UInt8)} (h : ∀ c ∈ cs, IsChar c) (fuel : Nat)
    (hfuel : cs.flatten.length ≤ fuel) : validLoop fuel cs.flatten = true := by
  induction cs generalizing fuel with
  | nil => cases fuel <;> rfl
  | cons c cs ih =>
      obtain ⟨hc, hcs⟩ := List.forall_mem_cons.mp h
      have hpos := hc.length_pos
      rw [List.flatten_cons, List.length_append] at hfuel
      obtain ⟨fuel, rfl⟩ : ∃ f, fuel = f + 1 := ⟨fuel - 1, by omega⟩
      have hstep : ∀ bs : List UInt8, bs ≠ [] →
          validLoop (fuel + 1) bs =
            ((sequence bs).2 && validLoop fuel (bs.drop (sequence bs).1)) := by
        intro bs hbs
        cases bs with
        | nil => exact absurd rfl hbs
        | cons b rest => rfl
      rw [List.flatten_cons, hstep _ (by simp [hc.1]), sequence_append hc, List.drop_left,
        Bool.true_and]
      exact ih hcs fuel (by omega)

theorem chars_of_validLoop (fuel : Nat) (bs : List UInt8) (h : validLoop fuel bs = true) :
    ∃ cs : List (List UInt8), (∀ c ∈ cs, IsChar c) ∧ bs = cs.flatten := by
  induction fuel generalizing bs with
  | zero =>
      rw [validLoop, List.isEmpty_iff] at h
      exact ⟨[], by simp, h⟩
  | succ fuel ih =>
      cases bs with
      | nil => exact ⟨[], by simp, rfl⟩
      | cons b rest =>
          rw [validLoop, Bool.and_eq_true] at h
          obtain ⟨cs, hcs, hrest⟩ := ih _ h.2
          refine ⟨_ :: cs, List.forall_mem_cons.mpr ⟨isChar_of_sequence (by simp) h.1, hcs⟩, ?_⟩
          rw [List.flatten_cons, ← hrest, List.take_append_drop]

theorem valid_iff (bs : List UInt8) :
    Valid bs ↔ ∃ cs : List (List UInt8), (∀ c ∈ cs, IsChar c) ∧ bs = cs.flatten := by
  constructor
  · exact chars_of_validLoop bs.length bs
  · rintro ⟨cs, hcs, rfl⟩
    exact validLoop_chars hcs _ (Nat.le_refl _)

theorem valid_append {a b : List UInt8} (ha : Valid a) (hb : Valid b) : Valid (a ++ b) := by
  obtain ⟨cs, hcs, rfl⟩ := (valid_iff a).mp ha
  obtain ⟨ds, hds, rfl⟩ := (valid_iff b).mp hb
  refine (valid_iff _).mpr ⟨cs ++ ds, fun c hc => ?_, List.flatten_append.symm⟩
  rcases List.mem_append.mp hc with hc | hc
  · exact hcs c hc
  · exact hds c hc

theorem valid_nil : Valid [] := rfl

theorem valid_of_isChar {c : List UInt8} (h : IsChar c) : Valid c :=
  (valid_iff c).mpr ⟨[c], by simpa using h, by simp⟩

theorem valid_of_ascii {bs : List UInt8} (h : ∀ b ∈ bs, b < 0x80) : Valid bs := by
  refine (valid_iff bs).mpr ⟨bs.map fun b => [b], fun c hc => ?_, ?_⟩
  · obtain ⟨b, hb, rfl⟩ := List.mem_map.mp hc
    exact isChar_ascii (h b hb)
  · clear h
    induction bs with
    | nil => rfl
    | cons b bs ih => rw [List.map_cons, List.flatten_cons, ← ih, List.singleton_append]

theorem valid_split {a b : List UInt8} {x : UInt8} (hx : x < 0x80) (h : Valid (a ++ x :: b)) :
    Valid a ∧ Valid b := by
  obtain ⟨cs, hcs, heq⟩ := (valid_iff _).mp h
  clear h
  induction cs generalizing a with
  | nil => simp at heq
  | cons c cs ih =>
      obtain ⟨hc, hcs⟩ := List.forall_mem_cons.mp hcs
      rw [List.flatten_cons] at heq
      rcases List.append_eq_append_iff.mp heq with ⟨cut, hcut, hrest⟩ | ⟨more, hmore, hrest⟩
      · cases cut with
        | nil =>
            rw [List.append_nil] at hcut
            have hb := ih hcs (a := []) hrest
            exact ⟨hcut ▸ valid_of_isChar hc, hb.2⟩
        | cons y cut =>
            obtain ⟨rfl, hb⟩ := List.cons.inj hrest
            have hone := hc.high (by simp [hcut]) hx
            rw [hone] at hcut
            obtain rfl : a = [] := by
              cases a with
              | nil => rfl
              | cons z a => simp at hcut
            obtain rfl : cut = [] := by simpa using hcut.symm
            exact ⟨rfl, (valid_iff b).mpr ⟨cs, hcs, hb⟩⟩
      · obtain ⟨ha, hb⟩ := ih hcs hrest.symm
        exact ⟨hmore ▸ valid_append (valid_of_isChar hc) ha, hb⟩

end Texts

section Lossy

theorem length_drop_sequence {bs : List UInt8} (h : bs ≠ []) :
    (bs.drop (sequence bs).1).length < bs.length := by
  have hpos := sequence_pos h
  have hlen := List.length_pos_iff.mpr h
  rw [List.length_drop]
  omega

/-- Induction along the steps of the decoder, from one sequence to what stands behind it. -/
theorem sequence_induction {P : List UInt8 → Prop} (nil : P [])
    (step : ∀ bs, bs ≠ [] → P (bs.drop (sequence bs).1) → P bs) (bs : List UInt8) : P bs := by
  induction hn : bs.length using Nat.strongRecOn generalizing bs with
  | ind n ih =>
      by_cases hbs : bs = []
      · rw [hbs]
        exact nil
      · exact step bs hbs (ih _ (hn ▸ length_drop_sequence hbs) _ rfl)

theorem lossyLoop_step (fuel : Nat) {bs : List UInt8} (h : bs ≠ []) : lossyLoop (fuel + 1) bs =
    (if (sequence bs).2 then bs.take (sequence bs).1 else replacement) ++
      lossyLoop fuel (bs.drop (sequence bs).1) := by
  cases bs with
  | nil => exact absurd rfl h
  | cons b rest => rfl

theorem lossyLoop_eq (bs : List UInt8) :
    ∀ fuel, bs.length ≤ fuel → lossyLoop fuel bs = fromUtf8Lossy bs := by
  induction bs using sequence_induction with
  | nil =>
      intro fuel _
      cases fuel <;> rfl
  | step bs hbs ih =>
      intro fuel hfuel
      have hpos := List.length_pos_iff.mpr hbs
      have hdrop := length_drop_sequence hbs
      obtain ⟨n, hn⟩ : ∃ n, bs.length = n + 1 := ⟨bs.length - 1, by omega⟩
      obtain ⟨m, rfl⟩ : ∃ m, fuel = m + 1 := ⟨fuel - 1, by omega⟩
      rw [fromUtf8Lossy, hn, lossyLoop_step m hbs, lossyLoop_step n hbs, ih m (by omega),
        ih n (by omega)]

theorem fromUtf8Lossy_step {bs : List UInt8} (h : bs ≠ []) : fromUtf8Lossy bs =
    (if (sequence bs).2 then bs.take (sequence bs).1 else replacement) ++
      fromUtf8Lossy (bs.drop (sequence bs).1) := by
  have hdrop := length_drop_sequence h
  obtain ⟨n, hn⟩ : ∃ n, bs.length = n + 1 := ⟨bs.length - 1, by omega⟩
  rw [fromUtf8Lossy, hn, lossyLoop_step n h, lossyLoop_eq _ n (by omega)]

theorem fromUtf8Lossy_char {c : List UInt8} (h : IsChar c) (more : List UInt8) :
    fromUtf8Lossy (c ++ more) = c ++ fromUtf8Lossy more := by
  rw [fromUtf8Lossy_step (by simp [h.1]), sequence_append h, List.take_left, List.drop_left]
  rfl

theorem isChar_replacement : IsChar replacement := ⟨by decide, by decide⟩

theorem valid_fromUtf8Lossy (bs : List UInt8) : Valid (fromUtf8Lossy bs) := by
  induction bs using sequence_induction with
  | nil => rfl
  | step bs hbs ih =>
      rw [fromUtf8Lossy_step hbs]
      apply valid_append _ ih
      split
      next hok => exact valid_of_isChar (isChar_of_sequence hbs hok)
      next => exact valid_of_isChar isChar_replacement

theorem tailLen_le (lead : UInt8) (need : Nat) (bs : List UInt8) : tailLen lead need bs ≤ need := by
  cases bs with
  | nil => exact Nat.zero_le _
  | cons b rest =>
      rw [tailLen]
      split
      · exact Nat.zero_le _
      next hgo =>
        have hidx := @List.findIdx_le_length _ (!continues ·) (rest.take (need - 1))
        have htake := List.length_take_le (need - 1) rest
        have hneed := (not_or.mp hgo).1
        omega

theorem sequence_le_of_malformed {bs : List UInt8} (hne : bs ≠ []) (h : (sequence bs).2 = false) :
    (sequence bs).1 ≤ 3 := by
  cases bs with
  | nil => exact absurd rfl hne
  | cons lead rest =>
      by_cases hw : width lead = 0
      · simp [Utf8.sequence, hw]
      · rw [sequence_of_tail hw] at h ⊢
        have hne' : tailLen lead (width lead - 1) rest ≠ width lead - 1 := by simpa using h
        have hle := tailLen_le lead (width lead - 1) rest
        have hwidth := width_le lead
        simp only
        omega

theorem length_le_fromUtf8Lossy (bs : List UInt8) : bs.length ≤ (fromUtf8Lossy bs).length := by
  induction bs using sequence_induction with
  | nil => exact Nat.zero_le _
  | step bs hbs ih =>
      have hcut := congrArg List.length (List.take_append_drop (sequence bs).1 bs)
      rw [List.length_append] at hcut
      rw [fromUtf8Lossy_step hbs, List.length_append]
      split
      · omega
      next hbad =>
        have hle := sequence_le_of_malformed hbs (by simpa using hbad)
        have hthree : replacement.length = 3 := rfl
        rw [List.length_drop] at ih
        omega

theorem length_fromUtf8Lossy_le (bs : List UInt8) : (fromUtf8Lossy bs).length ≤ 3 * bs.length := by
  induction bs using sequence_induction with
  | nil => exact Nat.zero_le _
  | step bs hbs ih =>
      have hdrop := length_drop_sequence hbs
      have hcut := congrArg List.length (List.take_append_drop (sequence bs).1 bs)
      rw [List.length_append] at hcut
      rw [fromUtf8Lossy_step hbs, List.length_append]
      split
      · omega
      · have hthree : replacement.length = 3 := rfl
        omega

theorem fromUtf8Lossy_cut {c : List UInt8} (h : IsChar c) {m : Nat} (hm : m < c.length) :
    (fromUtf8Lossy (c.take m)).length ≤ m + 2 := by
  cases m with
  | zero => simp [fromUtf8Lossy, lossyLoop]
  | succ m =>
      have hlen : (c.take (m + 1)).length = m + 1 := List.length_take_of_le (by omega)
      have hne : c.take (m + 1) ≠ [] := by
        rw [← List.length_pos_iff, hlen]
        omega
      rw [fromUtf8Lossy_step hne, sequence_cut h ⟨by omega, hm⟩, List.drop_of_length_le (by omega)]
      simp [fromUtf8Lossy, lossyLoop, replacement]

/-- Cutting a text off can spoil its last character only. -/
theorem length_fromUtf8Lossy_take {bs : List UInt8} (h : Valid bs) (m : Nat) :
    (fromUtf8Lossy (bs.take m)).length ≤ m + 2 := by
  obtain ⟨cs, hcs, rfl⟩ := (valid_iff bs).mp h
  clear h
  induction cs generalizing m with
  | nil => simp [fromUtf8Lossy, lossyLoop]
  | cons c cs ih =>
      obtain ⟨hc, hcs⟩ := List.forall_mem_cons.mp hcs
      rw [List.flatten_cons]
      by_cases hm : m < c.length
      · rw [List.take_append_of_le_length (Nat.le_of_lt hm)]
        exact fromUtf8Lossy_cut hc hm
      · have hrest := ih (m - c.length) hcs
        rw [List.take_append, List.take_of_length_le (Nat.not_lt.mp hm), fromUtf8Lossy_char hc,
          List.length_append]
        omega

end Lossy

section Replaced

variable {bs a b : List UInt8}

theorem fromUtf8Lossy_of_plain (h : ¬ replacement <:+: fromUtf8Lossy bs) :
    fromUtf8Lossy bs = bs := by
  induction bs using sequence_induction with
  | nil => rfl
  | step bs hbs ih =>
      rw [fromUtf8Lossy_step hbs] at h ⊢
      split at h
      next hok =>
        have hrest := ih fun hsub => h (hsub.trans (List.suffix_append _ _).isInfix)
        rw [if_pos hok, hrest, List.take_append_drop]
      next => exact absurd (List.prefix_append _ _).isInfix h

theorem fromUtf8Lossy_valid_append (ha : Valid a) (b : List UInt8) :
    fromUtf8Lossy (a ++ b) = a ++ fromUtf8Lossy b := by
  obtain ⟨cs, hcs, rfl⟩ := (valid_iff a).mp ha
  clear ha
  induction cs with
  | nil => rfl
  | cons c cs ih =>
      obtain ⟨hc, hcs⟩ := List.forall_mem_cons.mp hcs
      rw [List.flatten_cons, List.append_assoc, fromUtf8Lossy_char hc, ih hcs, List.append_assoc]

theorem IsChar.ef {c rest : List UInt8} (h : IsChar c) {x : List UInt8}
    (hc : c = x ++ 0xEF :: rest) : x = [] ∧ rest.length = 2 := by
  rcases h.cases with ⟨b, rfl, hb⟩ | ⟨lead, b, more, rfl, -, hw, hb, hall⟩
  · have hmem : (0xEF : UInt8) ∈ [b] := by
      rw [hc]
      simp
    rw [← List.mem_singleton.mp hmem] at hb
    exact absurd hb (by decide)
  · cases x with
    | nil =>
        obtain ⟨rfl, hrest⟩ := List.cons.inj hc
        have hthree : width 0xEF = 3 := by decide
        rw [hthree] at hw
        rw [← hrest, List.length_cons]
        exact ⟨rfl, by omega⟩
    | cons y x =>
        obtain ⟨-, htail⟩ := List.cons.inj hc
        cases x with
        | nil =>
            obtain ⟨rfl, -⟩ := List.cons.inj htail
            exact absurd (continues_of_second hb) (by decide)
        | cons z x =>
            obtain ⟨-, htail⟩ := List.cons.inj htail
            have hcont := hall 0xEF (by rw [htail]; simp)
            exact absurd hcont (by decide)

theorem valid_split_replacement (h : Valid (a ++ replacement ++ b)) : Valid a ∧ Valid b := by
  obtain ⟨cs, hcs, heq⟩ := (valid_iff _).mp h
  clear h
  induction cs generalizing a with
  | nil => simp [replacement] at heq
  | cons c cs ih =>
      obtain ⟨hc, hcs⟩ := List.forall_mem_cons.mp hcs
      rw [List.flatten_cons, List.append_assoc] at heq
      rcases List.append_eq_append_iff.mp heq with ⟨cut, hcut, hrest⟩ | ⟨more, hmore, hrest⟩
      · cases cut with
        | nil =>
            rw [List.append_nil] at hcut
            have hb := ih hcs (a := []) hrest
            exact ⟨hcut ▸ valid_of_isChar hc, hb.2⟩
        | cons y cut =>
            obtain ⟨rfl, hb⟩ := List.cons.inj hrest
            obtain ⟨rfl, hlen⟩ := hc.ef hcut
            have hparts : [(0xBF : UInt8), 0xBD] = _ ∧ b = cs.flatten :=
              List.append_inj hb (by simpa using hlen.symm)
            exact ⟨rfl, (valid_iff b).mpr ⟨cs, hcs, hparts.2⟩⟩
      · obtain ⟨ha, hb⟩ := ih hcs (by rw [List.append_assoc]; exact hrest.symm)
        exact ⟨hmore ▸ valid_append (valid_of_isChar hc) ha, hb⟩

def cutShort : List UInt8 := [0xF0, 0x9F, 0x92]

theorem width_of_continues {x : UInt8} (h : continues x = true) : width x = 0 := by
  simp only [continues, Bool.and_eq_true, decide_eq_true_eq, UInt8.le_iff_toNat_le] at h
  have hlow : (0x80 : UInt8).toNat ≤ x.toNat := h.1
  have hhigh : x.toNat ≤ (0xBF : UInt8).toNat := h.2
  simp only [width, UInt8.le_iff_toNat_le, UInt8.lt_iff_toNat_lt]
  simp only [UInt8.reduceToNat] at hlow hhigh ⊢
  rw [if_neg (by omega), if_neg (by omega), if_neg (by omega), if_neg (by omega)]

theorem not_continues_head {x : UInt8} (h : Valid (x :: b)) : continues x = false := by
  rw [Valid, List.length_cons, validLoop, Bool.and_eq_true] at h
  cases hx : continues x with
  | false => rfl
  | true =>
      rw [Utf8.sequence, if_pos (width_of_continues hx)] at h
      cases h.1

theorem sequence_cutShort (hb : Valid b) : sequence (cutShort ++ b) = (3, false) := by
  have htail : tailLen 0xF0 3 (0x9F :: 0x92 :: b) = 2 := by
    cases b with
    | nil => decide
    | cons x b =>
        simp [tailLen, second, List.findIdx_cons, not_continues_head hb,
          show continues 0x92 = true by decide]
  have hwidth : width 0xF0 = 4 := by decide
  change sequence (0xF0 :: 0x9F :: 0x92 :: b) = (3, false)
  rw [sequence_of_tail (by rw [hwidth]; decide), hwidth, htail]
  rfl

theorem fromUtf8Lossy_cutShort (hb : Valid b) :
    fromUtf8Lossy (cutShort ++ b) = replacement ++ b := by
  have hne : cutShort ++ b ≠ [] := by
    simp [cutShort]
  rw [fromUtf8Lossy_step hne, sequence_cutShort hb]
  exact congrArg (replacement ++ ·) (fromUtf8Lossy_of_valid hb)

theorem exists_twin (hplain : replacement <:+: fromUtf8Lossy bs)
    (hlen : (fromUtf8Lossy bs).length = bs.length) :
    ∃ other, other ≠ bs ∧ other.length = bs.length ∧ fromUtf8Lossy other = fromUtf8Lossy bs := by
  by_cases hsame : fromUtf8Lossy bs = bs
  · have hvalid := valid_fromUtf8Lossy bs
    obtain ⟨a, b, hsplit⟩ := hplain
    rw [← hsplit] at hvalid
    obtain ⟨ha, hb⟩ := valid_split_replacement hvalid
    rw [hsame] at hsplit
    refine ⟨a ++ cutShort ++ b, ?_, ?_, ?_⟩
    · rw [← hsplit]
      simp [cutShort, replacement]
    · rw [← hsplit]
      simp [cutShort, replacement]
    · rw [hsame, List.append_assoc, fromUtf8Lossy_valid_append ha, fromUtf8Lossy_cutShort hb,
        ← List.append_assoc, hsplit]
  · exact ⟨fromUtf8Lossy bs, hsame, hlen, fromUtf8Lossy_of_valid (valid_fromUtf8Lossy bs)⟩

end Replaced

end SrtVpn.Utf8Chars
