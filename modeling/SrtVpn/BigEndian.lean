import Mathlib.Algebra.Group.Int.Defs
import Mathlib.Algebra.GroupWithZero.Nat
import Mathlib.Data.List.Basic

namespace SrtVpn.BigEndian

abbrev Bytes := List UInt8

def toBytes : Nat → Nat → Bytes
  | 0, _ => []
  | width + 1, n => UInt8.ofNat (n / 256 ^ width) :: toBytes width n

def ofBytes : Bytes → Nat
  | [] => 0
  | b :: bs => b.toNat * 256 ^ bs.length + ofBytes bs

def toLeBytes (n : Int64) : Bytes := (toBytes 8 n.toUInt64.toNat).reverse

def fromLeBytes (bs : Bytes) : Int64 := (UInt64.ofNat (ofBytes bs.reverse)).toInt64

@[simp] theorem length_toBytes (width n : Nat) : (toBytes width n).length = width := by
  induction width with
  | zero => rfl
  | succ width ih => simp [toBytes, ih]

theorem ofBytes_toBytes_mod (width n : Nat) : ofBytes (toBytes width n) = n % 256 ^ width := by
  induction width with
  | zero => simp [toBytes, ofBytes, Nat.mod_one]
  | succ width ih =>
      have hb : (UInt8.ofNat (n / 256 ^ width)).toNat = n / 256 ^ width % 256 := by simp
      rw [toBytes, ofBytes, length_toBytes, ih, hb, Nat.pow_succ, Nat.mod_mul,
        Nat.mul_comm (256 ^ width), Nat.add_comm]

theorem ofBytes_toBytes (width : Nat) {n : Nat} (h : n < 256 ^ width) :
    ofBytes (toBytes width n) = n := by
  rw [ofBytes_toBytes_mod, Nat.mod_eq_of_lt h]

@[simp] theorem length_toLeBytes (n : Int64) : (toLeBytes n).length = 8 := by
  rw [toLeBytes, List.length_reverse, length_toBytes]

theorem fromLeBytes_toLeBytes (n : Int64) : fromLeBytes (toLeBytes n) = n := by
  have hn := n.toUInt64.toNat_lt
  rw [fromLeBytes, toLeBytes, List.reverse_reverse, ofBytes_toBytes 8 (by omega),
    UInt64.ofNat_toNat]
  rfl

theorem ofBytes_lt (bs : Bytes) : ofBytes bs < 256 ^ bs.length := by
  induction bs with
  | nil => exact Nat.one_pos
  | cons b bs ih =>
      have hb : b.toNat + 1 ≤ 256 := b.toNat_lt
      have hmul := Nat.mul_le_mul_right (256 ^ bs.length) hb
      rw [ofBytes, List.length_cons, Nat.pow_succ, Nat.mul_comm (256 ^ bs.length)]
      rw [Nat.succ_mul] at hmul
      omega

theorem toBytes_add_mul (width a n : Nat) :
    toBytes width (a * 256 ^ width + n) = toBytes width n := by
  induction width generalizing a with
  | zero => rfl
  | succ width ih =>
      have hsplit : a * 256 ^ (width + 1) = a * 256 * 256 ^ width := by
        rw [Nat.pow_succ, Nat.mul_comm (256 ^ width), Nat.mul_assoc]
      have hhigh : (a * 256 * 256 ^ width + n) / 256 ^ width = a * 256 + n / 256 ^ width := by
        rw [Nat.add_comm, Nat.add_mul_div_right _ _ (Nat.pow_pos (by decide)), Nat.add_comm]
      have hbyte : UInt8.ofNat (a * 256 + n / 256 ^ width) = UInt8.ofNat (n / 256 ^ width) := by
        apply UInt8.toNat_inj.mp
        simp
      rw [toBytes, toBytes, hsplit, hhigh, hbyte, ih]

theorem toBytes_ofBytes (bs : Bytes) : toBytes bs.length (ofBytes bs) = bs := by
  induction bs with
  | nil => rfl
  | cons b bs ih =>
      have hdiv : (b.toNat * 256 ^ bs.length + ofBytes bs) / 256 ^ bs.length = b.toNat := by
        rw [Nat.add_comm, Nat.add_mul_div_right _ _ (Nat.pow_pos (by decide)),
          Nat.div_eq_of_lt (ofBytes_lt bs), Nat.zero_add]
      rw [List.length_cons, toBytes, ofBytes, hdiv, toBytes_add_mul, ih]
      simp

end SrtVpn.BigEndian
