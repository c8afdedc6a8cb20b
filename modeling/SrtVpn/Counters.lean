import Mathlib.Algebra.BigOperators.Group.List.Basic
import Mathlib.Algebra.Group.Int.Defs
import Mathlib.Algebra.GroupWithZero.Nat
import Mathlib.Data.List.Count
import Mathlib.Data.UInt

namespace SrtVpn.Counters

/-- The value of a 64-bit counter after `fetch_add`, which wraps. -/
def fetchAdd (c n : UInt64) : UInt64 := c + n

def fetchSub (c n : UInt64) : UInt64 := c - n

section Value

variable {c n : UInt64} {m : Nat}

theorem toNat_fetchAdd_one (h : c.toNat = m) (hm : m + 1 < 2 ^ 64) :
    (fetchAdd c 1).toNat = m + 1 := by
  rw [fetchAdd, UInt64.toNat_add, h]
  exact Nat.mod_eq_of_lt hm

theorem toNat_fetchSub (h : c.toNat = m + n.toNat) : (fetchSub c n).toNat = m := by
  have hle : n ≤ c := by
    rw [UInt64.le_iff_toNat_le, h]
    exact Nat.le_add_left _ m
  rw [fetchSub, UInt64.toNat_sub_of_le c n hle, h]
  exact Nat.add_sub_cancel m _

end Value

section Tally

variable {α : Type} {f g : α → Nat} {xs : List α} {a : α} {i : Nat}

def tally (f : α → Nat) (xs : List α) : Nat := (xs.map f).sum

theorem tally_concat (f : α → Nat) (xs : List α) (a : α) :
    tally f (xs ++ [a]) = tally f xs + f a := by
  rw [tally, List.map_append, List.sum_append]
  exact congrArg _ (Nat.add_zero (f a))

theorem tally_set (h : xs[i]? = some a) (b : α) :
    tally f (xs.set i b) + f a = tally f xs + f b := by
  induction xs generalizing i with
  | nil => simp at h
  | cons x xs ih =>
      cases i with
      | zero =>
          obtain rfl := Option.some.inj h
          simp only [tally, List.set_cons_zero, List.map_cons, List.sum_cons]
          omega
      | succ i =>
          have hrest := ih h
          simp only [tally, List.set_cons_succ, List.map_cons, List.sum_cons] at hrest ⊢
          omega

theorem le_tally (h : a ∈ xs) : f a ≤ tally f xs := by
  induction h with
  | head xs => exact Nat.le_add_right _ _
  | tail x _ ih => exact Nat.le_trans ih (Nat.le_add_left _ _)

theorem tally_congr (h : ∀ x ∈ xs, f x = g x) : tally f xs = tally g xs := by
  rw [tally, List.map_congr_left h, tally]

theorem countP_eq_tally (p : α → Bool) (xs : List α) :
    xs.countP p = tally (fun x => (p x).toNat) xs := by
  induction xs with
  | nil => rfl
  | cons x xs ih =>
      rw [List.countP_cons, ih, Nat.add_comm]
      cases hx : p x <;> simp [tally, hx]

theorem tally_mono (h : ∀ x ∈ xs, f x ≤ g x) : tally f xs ≤ tally g xs := by
  induction xs with
  | nil => exact Nat.le_refl 0
  | cons x xs ih =>
      obtain ⟨hx, hxs⟩ := List.forall_mem_cons.mp h
      have hrest := ih hxs
      simp only [tally, List.map_cons, List.sum_cons] at hrest ⊢
      omega

end Tally

end SrtVpn.Counters
