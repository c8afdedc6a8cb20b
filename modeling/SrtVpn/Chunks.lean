import Mathlib.Data.List.Basic

namespace SrtVpn.Chunks

variable {β : Type}

def divCeil (a b : Nat) : Nat := (a + b - 1) / b

/-- Consecutive pieces of `n` elements; the last one may be shorter. -/
def chunks (n : Nat) (l : List β) : List (List β) :=
  (List.range (divCeil l.length n)).map fun i => (l.drop (i * n)).take n

theorem le_divCeil_mul (a : Nat) {b : Nat} (hb : 0 < b) : a ≤ divCeil a b * b := by
  have hmod := Nat.mod_lt (a + b - 1) hb
  have hdiv := Nat.div_add_mod (a + b - 1) b
  rw [Nat.mul_comm] at hdiv
  rw [divCeil]
  omega

theorem one_lt_divCeil {a b : Nat} (hb : 0 < b) (h : b < a) : 1 < divCeil a b := by
  rw [divCeil, Nat.lt_iff_add_one_le, Nat.le_div_iff_mul_le hb]
  omega

theorem mul_lt_of_lt_divCeil {a b i : Nat} (h : i < divCeil a b) : i * b < a := by
  rcases Nat.eq_zero_or_pos b with rfl | hb
  · rw [divCeil, Nat.div_zero] at h
    cases h
  · rw [divCeil, Nat.lt_iff_add_one_le, Nat.le_div_iff_mul_le hb, Nat.succ_mul] at h
    omega

theorem flatten_windows (n count : Nat) (l : List β) :
    ((List.range count).map fun i => (l.drop (i * n)).take n).flatten = l.take (count * n) := by
  induction count with
  | zero => simp
  | succ count ih =>
      rw [List.range_succ, List.map_append, List.flatten_append, ih, Nat.succ_mul, List.take_add]
      simp

theorem flatten_chunks {n : Nat} (hn : 0 < n) (l : List β) : (chunks n l).flatten = l := by
  rw [chunks, flatten_windows]
  exact List.take_of_length_le (le_divCeil_mul l.length hn)

theorem chunks_of_length_le {n : Nat} {l : List β} (hne : l ≠ []) (h : l.length ≤ n) :
    chunks n l = [l] := by
  have hpos := List.length_pos_iff.mpr hne
  have hone : divCeil l.length n = 1 := by
    rw [divCeil]
    apply Nat.div_eq_of_lt_le
    · omega
    · omega
  rw [chunks, hone, List.range_one, List.map_singleton, Nat.zero_mul, List.drop_zero,
    List.take_of_length_le h]

end SrtVpn.Chunks
