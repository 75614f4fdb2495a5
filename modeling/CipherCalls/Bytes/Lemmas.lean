/-
# Byte strings as numbers

Writing a number with `k` bytes and reading it back reduces it modulo `256 ^ k`, and a string of
`k` bytes denotes a number below `256 ^ k`, in either byte order.  Reading a string and writing its
number with as many bytes gives the string back.
-/
import Mathlib
import CipherCalls.Bytes

namespace CipherCalls.Bytes

/-- Writing `k` bytes and reading them back reduces a number modulo `256 ^ k`. -/
theorem toNatLE_ofNatLE (k n : Nat) : toNatLE (ofNatLE k n) = n % 256 ^ k := by
  induction k generalizing n with
  | zero => simp [ofNatLE, toNatLE, Nat.mod_one]
  | succ k ih =>
    rw [ofNatLE, toNatLE, ih, Nat.pow_succ, Nat.mul_comm (256 ^ k) 256, Nat.mod_mul]
    simp

theorem toNatBE_ofNatBE (k n : Nat) : toNatBE (ofNatBE k n) = n % 256 ^ k := by
  simp [toNatBE, ofNatBE, toNatLE_ofNatLE]

/-- A string of `k` bytes denotes a number below `256 ^ k`. -/
theorem toNatLE_lt (bs : Bytes) : toNatLE bs < 256 ^ bs.length := by
  induction bs with
  | nil => simp [toNatLE]
  | cons b bs ih =>
    have hb := b.toNat_lt
    simp only [toNatLE, List.length_cons, Nat.pow_succ]
    omega

theorem toNatBE_lt (bs : Bytes) : toNatBE bs < 256 ^ bs.length := by
  simpa [toNatBE] using toNatLE_lt bs.reverse

/-- A string is what its number looks like when it is written with as many bytes. -/
theorem ofNatLE_toNatLE (bs : Bytes) : ofNatLE bs.length (toNatLE bs) = bs := by
  induction bs with
  | nil => rfl
  | cons b bs ih =>
    have hdiv : (b.toNat + 256 * toNatLE bs) / 256 = toNatLE bs := by
      have hb := b.toNat_lt
      omega
    have hmod : UInt8.ofNat (b.toNat + 256 * toNatLE bs) = b := by
      apply UInt8.toNat_inj.mp
      rw [UInt8.toNat_ofNat', Nat.add_mul_mod_self_left, Nat.mod_eq_of_lt b.toNat_lt]
    rw [List.length_cons, toNatLE, ofNatLE, hdiv, hmod, ih]

theorem ofNatBE_toNatBE (bs : Bytes) : ofNatBE bs.length (toNatBE bs) = bs := by
  have h := ofNatLE_toNatLE bs.reverse
  rw [List.length_reverse] at h
  rw [ofNatBE, toNatBE, h, List.reverse_reverse]

end CipherCalls.Bytes
