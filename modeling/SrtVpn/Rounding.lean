import Mathlib.Algebra.Order.Floor.Ring
import Mathlib.Algebra.Ring.Int.Parity
import Mathlib.Data.Int.Log
import Mathlib.Data.Rat.Floor
import Mathlib.Tactic.Linarith
import Mathlib.Tactic.NormNum

namespace SrtVpn.Rounding

/-- A binary format: the bits of its significand, and the exponent of its smallest number. -/
structure Format where
  precision : Int
  minExponent : Int

def binary64 : Format := ⟨53, -1074⟩

/-- To the nearest integer, and to the even one of two. -/
def roundEven (x : Rat) : Int :=
  if x - ⌊x⌋ < 1 / 2 then ⌊x⌋
  else if 1 / 2 < x - ⌊x⌋ then ⌊x⌋ + 1
  else if Even ⌊x⌋ then ⌊x⌋
  else ⌊x⌋ + 1

/-- The exponent of the last bit that the format has for a number. -/
def exponent (f : Format) (x : Rat) : Int := max (Int.log 2 x + 1 - f.precision) f.minExponent

/-- Positive numbers, as long as they do not overflow. -/
def nearest (f : Format) (x : Rat) : Rat := roundEven (x / 2 ^ exponent f x) * 2 ^ exponent f x

section Integers

variable {x y : Rat}

theorem floor_le_roundEven (x : Rat) : ⌊x⌋ ≤ roundEven x := by
  rw [roundEven]
  split
  · exact le_refl _
  split
  · exact Int.le_of_lt (Int.lt_succ _)
  split
  · exact le_refl _
  · exact Int.le_of_lt (Int.lt_succ _)

theorem roundEven_le (x : Rat) : roundEven x ≤ ⌊x⌋ + 1 := by
  rw [roundEven]
  split
  · exact Int.le_of_lt (Int.lt_succ _)
  split
  · exact le_refl _
  split
  · exact Int.le_of_lt (Int.lt_succ _)
  · exact le_refl _

theorem roundEven_intCast (n : Int) : roundEven n = n := by
  rw [roundEven, Int.floor_intCast, sub_self, if_pos (by norm_num)]

theorem roundEven_up_iff :
    roundEven x = ⌊x⌋ + 1 ↔ 1 / 2 < x - ⌊x⌋ ∨ (x - ⌊x⌋ = 1 / 2 ∧ ¬ Even ⌊x⌋) := by
  rw [roundEven]
  split
  next hlow =>
    constructor
    · intro h
      omega
    · rintro (h | ⟨h, -⟩) <;> linarith
  next hlow =>
    split
    next hhigh => exact ⟨fun _ => Or.inl hhigh, fun _ => rfl⟩
    next hhigh =>
      have hhalf : x - ⌊x⌋ = 1 / 2 := le_antisymm (not_lt.mp hhigh) (not_lt.mp hlow)
      split
      next heven =>
        constructor
        · intro h
          omega
        · rintro (h | ⟨-, hodd⟩)
          · exact absurd h hhigh
          · exact absurd heven hodd
      next hodd => exact ⟨fun _ => Or.inr ⟨hhalf, hodd⟩, fun _ => rfl⟩

theorem roundEven_mono (h : x ≤ y) : roundEven x ≤ roundEven y := by
  have hfloor := Int.floor_mono h
  have hx := roundEven_le x
  have hy := floor_le_roundEven y
  by_cases heq : ⌊x⌋ = ⌊y⌋
  · -- between the same integers the part behind the point decides
    by_cases hup : roundEven x = ⌊x⌋ + 1
    · have hpart : x - ⌊x⌋ ≤ y - ⌊x⌋ := sub_le_sub_right h _
      have hup' : roundEven y = ⌊y⌋ + 1 := by
        rw [roundEven_up_iff] at hup ⊢
        rw [← heq]
        rcases hup with hx | ⟨hx, hodd⟩
        · exact Or.inl (lt_of_lt_of_le hx hpart)
        · rw [hx] at hpart
          rcases lt_or_eq_of_le hpart with hy | hy
          · exact Or.inl hy
          · exact Or.inr ⟨hy.symm, hodd⟩
      omega
    · omega
  · omega

end Integers

section Grid

variable {f : Format} {x y : Rat} {k : Int}

theorem two_zpow_pos (k : Int) : (0 : Rat) < 2 ^ k := zpow_pos (by norm_num) k

theorem zpow_on_grid {e : Int} (h : e ≤ k) : ∃ n : Int, (2 : Rat) ^ k = n * 2 ^ e := by
  refine ⟨2 ^ (k - e).toNat, ?_⟩
  rw [Int.cast_pow, Int.cast_ofNat, ← zpow_natCast, Int.toNat_of_nonneg (by omega),
    ← zpow_add₀ (by norm_num)]
  congr 1
  omega

theorem nearest_of_grid {n : Int} (hx : x = n * 2 ^ k) (h : exponent f x ≤ k) :
    nearest f x = x := by
  obtain ⟨m, hm⟩ := zpow_on_grid h
  have hgrid : x / 2 ^ exponent f x = ((n * m : Int) : Rat) := by
    rw [div_eq_iff (ne_of_gt (two_zpow_pos _)), Int.cast_mul, mul_assoc, ← hm]
    exact hx
  rw [nearest, hgrid, roundEven_intCast, ← hgrid]
  exact div_mul_cancel₀ x (ne_of_gt (two_zpow_pos _))

theorem nearest_nonneg (f : Format) (hx : 0 ≤ x) : 0 ≤ nearest f x := by
  apply mul_nonneg _ (le_of_lt (two_zpow_pos _))
  rw [Int.cast_nonneg_iff]
  exact le_trans (Int.floor_nonneg.mpr (div_nonneg hx (le_of_lt (two_zpow_pos _))))
    (floor_le_roundEven _)

theorem nearest_le_zpow (hk : exponent f x ≤ k) (h : x ≤ 2 ^ k) : nearest f x ≤ 2 ^ k := by
  obtain ⟨n, hn⟩ := zpow_on_grid hk
  have hle : roundEven (x / 2 ^ exponent f x) ≤ n := by
    rw [← roundEven_intCast n]
    apply roundEven_mono
    rw [div_le_iff₀ (two_zpow_pos _), ← hn]
    exact h
  rw [nearest, hn]
  exact mul_le_mul_of_nonneg_right (Int.cast_le.mpr hle) (le_of_lt (two_zpow_pos _))

theorem zpow_le_nearest (hk : exponent f x ≤ k) (h : 2 ^ k ≤ x) : 2 ^ k ≤ nearest f x := by
  obtain ⟨n, hn⟩ := zpow_on_grid hk
  have hle : n ≤ roundEven (x / 2 ^ exponent f x) := by
    rw [← roundEven_intCast n]
    apply roundEven_mono
    rw [le_div_iff₀ (two_zpow_pos _), ← hn]
    exact h
  rw [nearest, hn]
  exact mul_le_mul_of_nonneg_right (Int.cast_le.mpr hle) (le_of_lt (two_zpow_pos _))

theorem nearest_mono (hp : 1 ≤ f.precision) (hx : 0 < x) (h : x ≤ y) :
    nearest f x ≤ nearest f y := by
  have hlog := Int.log_mono_right (b := 2) hx h
  by_cases heq : exponent f x = exponent f y
  · rw [nearest, nearest, heq]
    apply mul_le_mul_of_nonneg_right _ (le_of_lt (two_zpow_pos _))
    rw [Int.cast_le]
    exact roundEven_mono (div_le_div_of_nonneg_right h (le_of_lt (two_zpow_pos _)))
  · -- another grid begins at a power of two between the two numbers
    have hy := lt_of_lt_of_le hx h
    have hbetween : exponent f x ≤ Int.log 2 y ∧ exponent f y ≤ Int.log 2 y ∧
        Int.log 2 x + 1 ≤ Int.log 2 y := by
      rw [exponent, exponent] at heq ⊢
      omega
    calc nearest f x ≤ 2 ^ Int.log 2 y := by
          apply nearest_le_zpow hbetween.1
          apply le_of_lt
          exact (Int.lt_zpow_iff_log_lt (b := 2) (by norm_num) hx).mpr (by omega)
      _ ≤ nearest f y := by
          apply zpow_le_nearest hbetween.2.1
          exact Int.zpow_log_le_self (b := 2) (by norm_num) hy

end Grid

theorem nearest_eighth {n : Int} (hn : 0 < n) (hlt : n < 2 ^ 53) :
    nearest binary64 (n / 8) = n / 8 := by
  have hpos : (0 : Rat) < n / 8 := div_pos (Int.cast_pos.mpr hn) (by norm_num)
  apply nearest_of_grid (show (n / 8 : Rat) = n * 2 ^ (-3 : Int) by rw [div_eq_mul_inv]; norm_num)
  have hlog : Int.log 2 (n / 8 : Rat) < 50 := by
    apply (Int.lt_zpow_iff_log_lt (b := 2) (by norm_num) hpos).mp
    rw [div_lt_iff₀ (by norm_num)]
    calc (n : Rat) < ((2 ^ 53 : Int) : Rat) := Int.cast_lt.mpr hlt
      _ = _ := by norm_num
  rw [exponent, binary64]
  simp only
  omega

end SrtVpn.Rounding
