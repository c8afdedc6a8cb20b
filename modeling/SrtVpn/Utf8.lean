import Mathlib.Data.List.Basic

namespace SrtVpn.Utf8

def width (b : UInt8) : Nat :=
  if b < 0x80 then 1
  else if 0xC2 ≤ b ∧ b ≤ 0xDF then 2
  else if 0xE0 ≤ b ∧ b ≤ 0xEF then 3
  else if 0xF0 ≤ b ∧ b ≤ 0xF4 then 4
  else 0

def continues (b : UInt8) : Bool := 0x80 ≤ b && b ≤ 0xBF

/-- The second bytes allowed after a lead byte: no overlong forms, no surrogates, nothing above
U+10FFFF. -/
def second (lead b : UInt8) : Bool :=
  if lead = 0xE0 then 0xA0 ≤ b && b ≤ 0xBF
  else if lead = 0xED then 0x80 ≤ b && b ≤ 0x9F
  else if lead = 0xF0 then 0x90 ≤ b && b ≤ 0xBF
  else if lead = 0xF4 then 0x80 ≤ b && b ≤ 0x8F
  else continues b

def tailLen (lead : UInt8) (need : Nat) : List UInt8 → Nat
  | [] => 0
  | b :: rest =>
      if need = 0 ∨ second lead b = false then 0
      else 1 + (rest.take (need - 1)).findIdx (!continues ·)

/-- Bytes of the first sequence and whether it is a character; what is not is as long as the part of
a character that it is. -/
def sequence : List UInt8 → Nat × Bool
  | [] => (0, true)
  | b :: rest =>
      if width b = 0 then (1, false)
      else (1 + tailLen b (width b - 1) rest, tailLen b (width b - 1) rest = width b - 1)

def replacement : List UInt8 := [0xEF, 0xBF, 0xBD]

def lossyLoop : Nat → List UInt8 → List UInt8
  | 0, _ => []
  | _ + 1, [] => []
  | fuel + 1, b :: rest =>
      let (n, ok) := sequence (b :: rest)
      (if ok then (b :: rest).take n else replacement) ++ lossyLoop fuel ((b :: rest).drop n)

/-- Decoding that replaces every ill-formed sequence by U+FFFD. A text is its bytes here. -/
def fromUtf8Lossy (bs : List UInt8) : List UInt8 := lossyLoop bs.length bs

def validLoop : Nat → List UInt8 → Bool
  | 0, bs => bs.isEmpty
  | _ + 1, [] => true
  | fuel + 1, b :: rest =>
      (sequence (b :: rest)).2 && validLoop fuel ((b :: rest).drop (sequence (b :: rest)).1)

def Valid (bs : List UInt8) : Prop := validLoop bs.length bs = true

instance : DecidablePred Valid :=
  fun bs => inferInstanceAs (Decidable (validLoop bs.length bs = true))

theorem lossyLoop_of_valid (fuel : Nat) (bs : List UInt8) (h : validLoop fuel bs = true) :
    lossyLoop fuel bs = bs := by
  induction fuel generalizing bs with
  | zero =>
      rw [validLoop, List.isEmpty_iff] at h
      rw [h]
      rfl
  | succ fuel ih =>
      cases bs with
      | nil => rfl
      | cons b rest =>
          rw [validLoop, Bool.and_eq_true] at h
          rw [lossyLoop]
          simp only [h.1, if_true, ih _ h.2, List.take_append_drop]

theorem fromUtf8Lossy_of_valid {bs : List UInt8} (h : Valid bs) : fromUtf8Lossy bs = bs :=
  lossyLoop_of_valid bs.length bs h

theorem continues_of_second {lead b : UInt8} (h : second lead b = true) : continues b = true := by
  have within {low high : UInt8} (hlow : 0x80 ≤ low) (hhigh : high ≤ 0xBF)
      (hb : (low ≤ b && b ≤ high) = true) : continues b = true := by
    simp only [continues, Bool.and_eq_true, decide_eq_true_eq] at hb ⊢
    exact ⟨UInt8.le_trans hlow hb.1, UInt8.le_trans hb.2 hhigh⟩
  rw [second] at h
  split at h
  · exact within (by decide) (by decide) h
  split at h
  · exact within (by decide) (by decide) h
  split at h
  · exact within (by decide) (by decide) h
  split at h
  · exact within (by decide) (by decide) h
  · exact h

theorem ff_notMem_tail {lead : UInt8} {need : Nat} {bs : List UInt8}
    (h : tailLen lead need bs = need) : 0xFF ∉ bs.take need := by
  cases bs with
  | nil => simp
  | cons b rest =>
      rw [tailLen] at h
      split at h
      next hstop => simp [← h]
      next hgo =>
        obtain ⟨hneed, hb⟩ := not_or.mp hgo
        obtain ⟨n, rfl⟩ := Nat.exists_eq_succ_of_ne_zero hneed
        rw [Nat.succ_eq_add_one, Nat.add_sub_cancel] at h
        rw [List.take_succ_cons, List.mem_cons, not_or]
        have hcont : continues b = true := continues_of_second (by simpa using hb)
        refine ⟨fun hff => ?_, fun hmem => ?_⟩
        · rw [← hff] at hcont
          cases hcont
        · have hlt := (List.findIdx_lt_length (p := (!continues ·))).mpr ⟨_, hmem, rfl⟩
          have hle := List.length_take_le n rest
          omega

theorem ff_notMem_of_validLoop (fuel : Nat) (bs : List UInt8) (h : validLoop fuel bs = true) :
    0xFF ∉ bs := by
  induction fuel generalizing bs with
  | zero =>
      rw [validLoop, List.isEmpty_iff] at h
      simp [h]
  | succ fuel ih =>
      cases bs with
      | nil => simp
      | cons b rest =>
          rw [validLoop, Bool.and_eq_true] at h
          obtain ⟨hok, hrest⟩ := h
          have htail := ih _ hrest
          rw [← List.take_append_drop (sequence (b :: rest)).1 (b :: rest), List.mem_append, not_or]
          refine ⟨?_, htail⟩
          rw [sequence] at hok ⊢
          split at hok
          next => simp at hok
          next hw =>
            have hlen : tailLen b (width b - 1) rest = width b - 1 := by simpa using hok
            rw [if_neg hw]
            simp only [hlen]
            rw [Nat.add_comm, List.take_succ_cons, List.mem_cons, not_or]
            exact ⟨fun hff => hw (hff ▸ rfl), ff_notMem_tail hlen⟩

theorem ff_notMem_of_valid {bs : List UInt8} (h : Valid bs) : 0xFF ∉ bs :=
  ff_notMem_of_validLoop _ bs h

example : fromUtf8Lossy [0x61, 0xFF, 0xE2, 0x82, 0x62] =
    [0x61] ++ replacement ++ replacement ++ [0x62] := by
  decide

end SrtVpn.Utf8
