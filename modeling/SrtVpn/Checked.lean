import Mathlib.Algebra.Group.Int.Defs
import Mathlib.Algebra.GroupWithZero.Nat
import Mathlib.Data.List.Basic

namespace SrtVpn.Checked

variable {α : Type} {width a b i j n : Nat} {xs : List α}

/-- Machine arithmetic on unsigned numbers that has no value where the number leaves its width. -/
def add (width a b : Nat) : Option Nat := if a + b < 2 ^ width then some (a + b) else none

def sub (a b : Nat) : Option Nat := if b ≤ a then some (a - b) else none

def mul (width a b : Nat) : Option Nat := if a * b < 2 ^ width then some (a * b) else none

/-- A conversion to fewer bits that has no value where bits would be lost. -/
def narrow (width n : Nat) : Option Nat := if n < 2 ^ width then some n else none

/-- The elements from `i` up to `j`, which has no value where one of the bounds lies outside. -/
def slice (xs : List α) (i j : Nat) : Option (List α) :=
  if i ≤ j ∧ j ≤ xs.length then some ((xs.drop i).take (j - i)) else none

def sum (width : Nat) (ns : List Nat) : Option Nat := ns.foldlM (add width) 0

theorem add_eq (h : a + b < 2 ^ width) : add width a b = some (a + b) := if_pos h

theorem sub_eq (h : b ≤ a) : sub a b = some (a - b) := if_pos h

theorem mul_eq (h : a * b < 2 ^ width) : mul width a b = some (a * b) := if_pos h

theorem narrow_eq (h : n < 2 ^ width) : narrow width n = some n := if_pos h

theorem slice_eq (hij : i ≤ j) (hj : j ≤ xs.length) :
    slice xs i j = some ((xs.drop i).take (j - i)) := if_pos ⟨hij, hj⟩

theorem foldlM_add_eq (ns : List Nat) (h : a + ns.sum < 2 ^ width) :
    ns.foldlM (add width) a = some (a + ns.sum) := by
  induction ns generalizing a with
  | nil => rfl
  | cons n ns ih =>
      rw [List.sum_cons] at h ⊢
      have hfirst : add width a n = some (a + n) := add_eq (by omega)
      have hrest := ih (a := a + n) (by omega)
      rw [List.foldlM_cons, hfirst, ← Nat.add_assoc]
      exact hrest

theorem sum_eq {ns : List Nat} (h : ns.sum < 2 ^ width) : sum width ns = some ns.sum := by
  rw [sum, foldlM_add_eq ns (by rwa [Nat.zero_add]), Nat.zero_add]

theorem mapM_eq {β : Type} {f : α → Option β} {g : α → β} (h : ∀ x ∈ xs, f x = some (g x)) :
    xs.mapM f = some (xs.map g) := by
  induction xs with
  | nil => rfl
  | cons x xs ih =>
      rw [List.forall_mem_cons] at h
      rw [List.mapM_cons, h.1, ih h.2]
      rfl

end SrtVpn.Checked
