import SrtVpn.TextParts

namespace SrtVpn.TextPrefixes

open BigEndian Utf8 Utf8Chars Text TextParts

section Sequences

variable {lead : UInt8} {need : Nat} {rest a b : List UInt8}

theorem tailLen_append (h : tailLen lead need rest < rest.length) :
    tailLen lead need (rest ++ b) = tailLen lead need rest := by
  cases rest with
  | nil => simp at h
  | cons x rest =>
      rw [List.cons_append]
      rw [tailLen, List.length_cons] at h
      rw [tailLen, tailLen]
      by_cases hstop : need = 0 ∨ second lead x = false
      · rw [if_pos hstop, if_pos hstop]
      · rw [if_neg hstop] at h ⊢
        rw [if_neg hstop]
        have hlen := List.length_take (i := need - 1) (l := rest)
        by_cases hroom : need - 1 ≤ rest.length
        · rw [List.take_append_of_le_length hroom]
        · have hfound : (rest.take (need - 1)).findIdx (!continues ·) <
              (rest.take (need - 1)).length := by omega
          rw [List.take_append, List.findIdx_append, if_pos hfound]

theorem sequence_le (a : List UInt8) : (sequence a).1 ≤ a.length := by
  cases a with
  | nil => exact Nat.le_refl 0
  | cons x rest =>
      rw [Utf8.sequence, List.length_cons]
      split
      · exact Nat.succ_le_succ (Nat.zero_le _)
      · have hle : tailLen x (width x - 1) rest ≤ rest.length := by
          cases rest with
          | nil => exact Nat.le_refl 0
          | cons y rest =>
              rw [tailLen, List.length_cons]
              split
              · exact Nat.zero_le _
              · have hfound : (rest.take (width x - 1 - 1)).findIdx (!continues ·) ≤
                    (rest.take (width x - 1 - 1)).length :=
                  List.findIdx_le_length
                rw [List.length_take] at hfound
                omega
        simp only
        omega

theorem sequence_append_of_complete (hne : a ≠ [])
    (h : (sequence a).1 < a.length ∨ (sequence a).2 = true) : sequence (a ++ b) = sequence a := by
  by_cases hok : (sequence a).2 = true
  · have hchar := isChar_of_sequence hne hok
    have hwhole := sequence_append hchar (a.drop (sequence a).1 ++ b)
    have hself := sequence_append hchar (a.drop (sequence a).1)
    rw [← List.append_assoc, List.take_append_drop] at hwhole
    rw [List.take_append_drop] at hself
    exact hwhole.trans hself.symm
  · have hshort := h.resolve_right hok
    cases a with
    | nil => exact absurd rfl hne
    | cons x rest =>
        rw [List.cons_append]
        rw [Utf8.sequence] at hshort ⊢
        rw [Utf8.sequence]
        by_cases hw : width x = 0
        · rw [if_pos hw, if_pos hw]
        · rw [if_neg hw] at hshort ⊢
          simp only [List.length_cons] at hshort
          rw [if_neg hw, tailLen_append (by omega)]

end Sequences

section Lines

variable {lead : UInt8} {need : Nat} {rest a : List UInt8}

theorem high_of_tailLen (h : rest.length ≤ tailLen lead need rest) : ∀ x ∈ rest, 0x80 ≤ x := by
  cases rest with
  | nil => simp
  | cons b rest =>
      rw [tailLen, List.length_cons] at h
      split at h
      · omega
      next hstop =>
        have hlen := List.length_take (i := need - 1) (l := rest)
        have hfound : (rest.take (need - 1)).findIdx (!continues ·) ≤
            (rest.take (need - 1)).length := List.findIdx_le_length
        have hall : rest.take (need - 1) = rest := List.take_of_length_le (by omega)
        have hsecond : second lead b = true := (Bool.not_eq_false _).mp fun hb => hstop (Or.inr hb)
        rw [hall] at hfound h
        have hnone :=
          List.findIdx_eq_length.mp (show rest.findIdx (!continues ·) = rest.length by omega)
        refine List.forall_mem_cons.mpr ⟨high_of_second hsecond, fun x hx => high_of_continues ?_⟩
        simpa using hnone x hx

theorem high_of_cut (hall : a.length ≤ (sequence a).1) (hbad : (sequence a).2 = false) :
    ∀ x ∈ a, 0x80 ≤ x := by
  cases a with
  | nil => simp
  | cons lead rest =>
      have hlead : 0x80 ≤ lead := by
        by_contra hlow
        rw [← List.singleton_append,
          sequence_append (isChar_ascii (UInt8.not_le.mp hlow)) rest] at hbad
        cases hbad
      refine List.forall_mem_cons.mpr ⟨hlead, ?_⟩
      rw [Utf8.sequence, List.length_cons] at hall
      split at hall
      · obtain rfl : rest = [] := List.length_eq_zero_iff.mp (by simpa using hall)
        simp
      · have htail : rest.length ≤ tailLen lead (width lead - 1) rest := by
          simp only at hall
          omega
        exact high_of_tailLen htail

theorem fromUtf8Lossy_append (a : List UInt8) (hlow : ∀ x, a.getLast? = some x → x < 0x80)
    (b : List UInt8) : fromUtf8Lossy (a ++ b) = fromUtf8Lossy a ++ fromUtf8Lossy b := by
  induction a using sequence_induction with
  | nil => rfl
  | step a hne ih =>
      by_cases hcomplete : (sequence a).1 < a.length ∨ (sequence a).2 = true
      · have hne' : a ++ b ≠ [] := List.append_ne_nil_of_left_ne_nil hne b
        rw [fromUtf8Lossy_step hne', fromUtf8Lossy_step hne,
          sequence_append_of_complete hne hcomplete, List.drop_append_of_le_length (sequence_le a),
            List.take_append_of_le_length (sequence_le a), List.append_assoc, ih]
        intro x hx
        apply hlow x
        by_cases hend : a.length ≤ (sequence a).1
        · rw [List.drop_of_length_le hend] at hx
          cases hx
        · rw [List.getLast?_drop, if_neg hend] at hx
          exact hx
      · obtain ⟨hall, hbad⟩ := not_or.mp hcomplete
        have hlast := List.getLast?_eq_some_getLast hne
        have hhigh :=
          high_of_cut (Nat.not_lt.mp hall) ((Bool.not_eq_true _).mp hbad) _ (List.getLast_mem hne)
        exact absurd (hlow _ hlast) (UInt8.not_lt.mpr hhigh)

theorem linesLoop_append (text more line : Bytes) :
    linesLoop (text ++ 0x0A :: more) line =
      linesLoop (text ++ [0x0A]) line ++ linesLoop more [] := by
  induction text generalizing line with
  | nil =>
      rw [List.nil_append, List.nil_append, linesLoop, linesLoop, if_pos rfl, if_pos rfl, linesLoop,
        if_pos rfl]
      rfl
  | cons x text ih =>
      rw [List.cons_append, List.cons_append, linesLoop, linesLoop]
      split
      · rw [ih [], List.cons_append]
      · exact ih (line ++ [x])

end Lines

/-- Decoding more bytes goes on from the characters decoded so far; the last of them may only stand
for one that was cut off. -/
theorem decode_append (a b : Bytes) : ∃ kept last more : List Bytes,
    (∀ c ∈ kept, IsChar c) ∧ (∀ c ∈ more, IsChar c) ∧ (last = [] ∨ last = [replacement]) ∧
      fromUtf8Lossy a = (kept ++ last).flatten ∧
      fromUtf8Lossy (a ++ b) = (kept ++ more).flatten := by
  have hchars : ∀ bs : Bytes, ∃ more : List Bytes, (∀ c ∈ more, IsChar c) ∧
      fromUtf8Lossy bs = more.flatten :=
    fun bs => (valid_iff _).mp (valid_fromUtf8Lossy bs)
  induction a using sequence_induction with
  | nil =>
      obtain ⟨more, hmore, htext⟩ := hchars b
      exact ⟨[], [], more, by simp, hmore, Or.inl rfl, rfl, htext⟩
  | step a hne ih =>
      by_cases hcomplete : (sequence a).1 < a.length ∨ (sequence a).2 = true
      · have hne' : a ++ b ≠ [] := List.append_ne_nil_of_left_ne_nil hne b
        have hseq := sequence_append_of_complete (b := b) hne hcomplete
        obtain ⟨kept, last, more, hkept, hmore, hlast, htext, htext'⟩ := ih
        have hfirst : IsChar (if (sequence a).2 then a.take (sequence a).1 else replacement) := by
          split
          next hok => exact isChar_of_sequence hne hok
          next => exact isChar_replacement
        refine ⟨_ :: kept, last, more, List.forall_mem_cons.mpr ⟨hfirst, hkept⟩, hmore, hlast,
          ?_, ?_⟩
        · rw [fromUtf8Lossy_step hne, htext, List.cons_append, List.flatten_cons]
        · rw [fromUtf8Lossy_step hne', hseq, List.drop_append_of_le_length (sequence_le a), htext',
            List.cons_append, List.flatten_cons, List.take_append_of_le_length (sequence_le a)]
      · -- all that there is belongs to a character that is cut off
        obtain ⟨hall, hbad⟩ := not_or.mp hcomplete
        obtain ⟨more, hmore, htext⟩ := hchars (a ++ b)
        refine ⟨[], [replacement], more, by simp, hmore, Or.inr rfl, ?_, htext⟩
        rw [fromUtf8Lossy_step hne, if_neg hbad, List.drop_of_length_le (Nat.not_lt.mp hall)]
        simp [fromUtf8Lossy, lossyLoop]

section Words

variable {cs more : List Bytes} {c word : Bytes} {n : Nat}

theorem wordsLoop_append (h : isWhitespace c = true) (cs more : List Bytes) (word : Bytes) :
    wordsLoop (cs ++ c :: more) word = wordsLoop cs word ++ wordsLoop more [] := by
  induction cs generalizing word with
  | nil =>
      rw [List.nil_append, wordsLoop, wordsLoop, if_pos h]
      split <;> rfl
  | cons x cs ih =>
      rw [List.cons_append, wordsLoop, wordsLoop]
      split
      · split
        · exact ih []
        · rw [ih [], List.cons_append]
      · exact ih (word ++ x)

theorem words_split {last : List Bytes} (hlast : last.length ≤ 1) (hn : 1 ≤ n)
    (h : n + 1 ≤ (wordsLoop (cs ++ last) word).length) :
    ∃ before c after, cs = before ++ c :: after ∧ isWhitespace c = true ∧
    (wordsLoop before word).length = n := by
  induction cs generalizing word n with
  | nil =>
      have hshort : (wordsLoop last word).length ≤ 1 := by
        cases last with
        | nil =>
            rw [wordsLoop]
            split <;> simp
        | cons x last =>
            obtain rfl : last = [] := by simpa using hlast
            rw [wordsLoop, wordsLoop, wordsLoop]
            split
            · split <;> simp
            · split <;> simp
      rw [List.nil_append] at h
      omega
  | cons x cs ih =>
      rw [List.cons_append, wordsLoop] at h
      split at h
      next hx =>
        split at h
        next hword =>
          obtain ⟨before, c, after, rfl, hc, hlen⟩ := ih hn h
          exact ⟨x :: before, c, after, rfl, hc, by rw [wordsLoop, if_pos hx, if_pos hword, hlen]⟩
        next hword =>
          rw [List.length_cons] at h
          by_cases hone : n = 1
          · exact ⟨[], x, cs, rfl, hx, by rw [wordsLoop, if_neg hword, hone]; rfl⟩
          · have hrest : n - 1 + 1 ≤ (wordsLoop (cs ++ last) []).length := by omega
            obtain ⟨before, c, after, rfl, hc, hlen⟩ := ih (by omega) hrest
            refine ⟨x :: before, c, after, rfl, hc, ?_⟩
            rw [wordsLoop, if_pos hx, if_neg hword, List.length_cons, hlen]
            omega
      next hx =>
        obtain ⟨before, c, after, rfl, hc, hlen⟩ := ih hn h
        exact ⟨x :: before, c, after, rfl, hc, by rw [wordsLoop, if_neg hx, hlen]⟩

end Words

section Separators

variable {x y : UInt8} {cs : List Bytes} {p : Nat}

theorem chars_upTo (hx : x < 0x80) (hy : y < 0x80) (hcs : ∀ c ∈ cs, IsChar c)
    (h : position [x, y] cs.flatten = some p) :
    ∃ before after, cs = before ++ [x] :: [y] :: after ∧ cs.flatten.take p = before.flatten := by
  obtain ⟨rest, hrest⟩ := position_eq h
  have hwhole : cs.flatten.take p ++ x :: ([] ++ y :: rest) = cs.flatten := by
    have hjoin := List.take_append_drop p cs.flatten
    rw [← hrest] at hjoin
    exact hjoin
  have hvalid : Valid (cs.flatten.take p ++ x :: ([] ++ y :: rest)) := by
    rw [hwhole]
    exact (valid_iff _).mpr ⟨cs, hcs, rfl⟩
  obtain ⟨hbefore, hbehind⟩ := valid_split hx hvalid
  obtain ⟨before, hchars, htake⟩ := (valid_iff _).mp hbefore
  obtain ⟨after, hchars', hafter⟩ := (valid_iff _).mp (valid_split hy hbehind).2
  have hall : ∀ c ∈ before ++ [x] :: [y] :: after, IsChar c := by
    intro c hc
    simp only [List.mem_append, List.mem_cons] at hc
    rcases hc with hc | rfl | rfl | hc
    · exact hchars c hc
    · exact isChar_ascii hx
    · exact isChar_ascii hy
    · exact hchars' c hc
  refine ⟨before, after, ?_, htake⟩
  have hflat : (before ++ [x] :: [y] :: after).flatten = cs.flatten := by
    rw [← hwhole, htake, hafter]
    simp
  rw [← chars_flatten hcs, ← hflat, chars_flatten hall]

theorem pair_behind {kept more before after : List Bytes}
    (hnone : position [x, y] kept.flatten = none)
    (h : kept ++ more = before ++ [x] :: [y] :: after) :
    (∃ between, before = kept ++ between ∧ more = between ++ [x] :: [y] :: after) ∨
      (kept = before ++ [[x]] ∧ more = [y] :: after) := by
  rcases List.append_eq_append_iff.mp h with ⟨between, hbefore, hmore⟩ | ⟨excess, hkept, hexcess⟩
  · exact Or.inl ⟨between, hbefore, hmore⟩
  · cases excess with
    | nil => exact Or.inl ⟨[], by simpa using hkept.symm, by simpa using hexcess.symm⟩
    | cons c excess =>
        obtain ⟨rfl, hrest⟩ := List.cons.inj hexcess
        cases excess with
        | nil => exact Or.inr ⟨hkept, hrest.symm⟩
        | cons d excess =>
            obtain ⟨rfl, -⟩ := List.cons.inj hrest
            have hinfix : [x, y] <:+: kept.flatten :=
              ⟨before.flatten, excess.flatten, by simp [hkept]⟩
            have hsome := position_isSome hinfix
            rw [hnone] at hsome
            cases hsome

end Separators

end SrtVpn.TextPrefixes
