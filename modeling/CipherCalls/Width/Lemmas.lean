/-
# Wrapping

The largest plaintext of a width is `2 ^ bits - 1`, and wrapping keeps exactly the residue modulo
`2 ^ bits`.
-/
import Mathlib
import CipherCalls.Width

namespace CipherCalls.Width

/-- The largest plaintext is the last number below `2 ^ bits`. -/
theorem toNat_maxValue (w : Width) : w.maxValue.toNat = 2 ^ w.bits - 1 := by
  cases w <;> rfl

/-- Wrapping keeps exactly the residue modulo `2 ^ bits`. -/
theorem toNat_wrap (w : Width) (v : UInt64) : (w.wrap v).toNat = v.toNat % 2 ^ w.bits := by
  rw [wrap, UInt64.toNat_and, toNat_maxValue, Nat.and_two_pow_sub_one_eq_mod]

/-- Wrapping twice is wrapping once. -/
theorem wrap_wrap (w : Width) (v : UInt64) : w.wrap (w.wrap v) = w.wrap v := by
  apply UInt64.toNat_inj.mp
  rw [toNat_wrap, toNat_wrap, Nat.mod_mod]

end CipherCalls.Width
