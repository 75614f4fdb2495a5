/-
# Padding

A program that branches on a secret betrays the branch by what it costs.  Padding is a call that
computes nothing and costs what is missing to a target, so that a branch that has consumed less than
the target has consumed exactly the target afterwards, whichever branch it was.

What has been consumed is counted from the gas limit.  The target is the number of a word modulo
`2 ^ 64`.  Both differences stop at zero: nothing has been consumed if more is left than the limit,
and nothing is charged if the target is exceeded already.
-/
import Mathlib
import CipherCalls.Proofs.CallEncoding

namespace CipherCalls

/-- What was consumed of the limit when some gas is left. -/
def Context.consumed (c : Context) (left : UInt64) : Nat := c.gasLimit.toNat - left.toNat

/-- The target that a word asks for. -/
def Word.target (w : Word) : Nat := w.toNat % 2 ^ 64

/-- The call that pads to the target of a word. -/
def padCall (w : Word) : Bytes := encodeCall Method.padGas.signature [w.bytes]

namespace Context

variable (c : Context)

/-- The price of padding when some gas is left. -/
def paddingPrice (w : Word) (left : UInt64) : UInt64 := (c.requiredGas left (padCall w)).price

/-- A branch leaves no more gas than there was, and has not exceeded the target. -/
structure BelowTarget (w : Word) (left : UInt64) : Prop where
  left_le : left ≤ c.gasLimit
  consumed_le : c.consumed left ≤ w.target

/-! ## The price of padding -/

/-- Padding costs what is missing to the number in its payload. -/
lemma toNat_pricePadding (left : UInt64) (payload : Bytes) :
    (c.pricePadding left payload).toNat = Bytes.toNatBE payload % 2 ^ 64 - c.consumed left := by
  have hlt : (Bytes.low64 payload).toNat - c.consumed left < 2 ^ 64 :=
    (Nat.sub_le _ _).trans_lt (Bytes.low64 payload).toNat_lt
  rw [← Bytes.toNat_low64]
  exact UInt64.toNat_ofNat'.trans (Nat.mod_eq_of_lt hlt)

variable {c} {w : Word} {left : UInt64}

lemma toNat_paddingPrice : (c.paddingPrice w left).toNat = w.target - c.consumed left := by
  have hpayload : [w.bytes].flatten.take Method.padGas.payloadLength = w.bytes := by
    rw [List.flatten_singleton]
    exact List.take_of_length_le w.length_bytes.le
  rw [paddingPrice, padCall, requiredGas_encodeCall, hpayload]
  exact c.toNat_pricePadding left w.bytes

/-- Whoever has a limit above the target can pay for padding to it. -/
lemma paddingPrice_le (hlimit : w.target ≤ c.gasLimit.toNat) : c.paddingPrice w left ≤ left := by
  rw [UInt64.le_iff_toNat_le, toNat_paddingPrice, consumed]
  omega

namespace BelowTarget

/-- What is left afterwards does not depend on what was left before. -/
lemma toNat_remaining (h : c.BelowTarget w left) (hlimit : w.target ≤ c.gasLimit.toNat) :
    (left - c.paddingPrice w left).toNat = c.gasLimit.toNat - w.target := by
  have hleft : left.toNat ≤ c.gasLimit.toNat := UInt64.le_iff_toNat_le.mp h.left_le
  have hconsumed : c.gasLimit.toNat - left.toNat ≤ w.target := h.consumed_le
  rw [UInt64.toNat_sub_of_le _ _ (paddingPrice_le hlimit), toNat_paddingPrice, consumed]
  omega

/-- Padding to the same target once more is free of charge. -/
lemma price_remaining (h : c.BelowTarget w left) (hlimit : w.target ≤ c.gasLimit.toNat) :
    c.paddingPrice w (left - c.paddingPrice w left) = 0 := by
  apply UInt64.toNat_inj.mp
  rw [toNat_paddingPrice, consumed, h.toNat_remaining hlimit, Nat.sub_sub_self hlimit, Nat.sub_self]
  rfl

end BelowTarget

end Context

/-! ## The main statement -/

/-- **Padding hides the branch.**  What was consumed and the price of padding together are the
greater one of what was consumed and the target, which is a 64-bit number, and the price is at most
the target.  Hence two branches of which neither has exceeded the target can pay the price, and have
the same gas left afterwards, namely the limit without the target, if there is that much; padding to
the same target is then free of charge. -/
theorem padding_hides_branch (c : Context) (w : Word) :
    (∀ left, c.consumed left + (c.paddingPrice w left).toNat = max (c.consumed left) w.target ∧
      c.consumed left + (c.paddingPrice w left).toNat < 2 ^ 64 ∧
      (c.paddingPrice w left).toNat ≤ w.target) ∧
    ∀ left left', c.BelowTarget w left → c.BelowTarget w left' → w.target ≤ c.gasLimit.toNat →
      c.paddingPrice w left ≤ left ∧ c.paddingPrice w left' ≤ left' ∧
      left - c.paddingPrice w left = left' - c.paddingPrice w left' ∧
      (left - c.paddingPrice w left).toNat = c.gasLimit.toNat - w.target ∧
      c.paddingPrice w (left - c.paddingPrice w left) = 0 := by
  refine ⟨fun left => ?price, fun left left' h h' hlimit => ?branches⟩
  case price =>
    have hsum : c.consumed left + (c.paddingPrice w left).toNat =
        max (c.consumed left) w.target := by
      rw [Context.toNat_paddingPrice]
      omega
    have htarget : w.target < 2 ^ 64 := Nat.mod_lt _ (Nat.two_pow_pos 64)
    have hconsumed : c.consumed left < 2 ^ 64 := (Nat.sub_le _ _).trans_lt c.gasLimit.toNat_lt
    refine ⟨hsum, hsum ▸ max_lt hconsumed htarget, ?_⟩
    rw [Context.toNat_paddingPrice]
    exact Nat.sub_le _ _
  case branches =>
    refine ⟨Context.paddingPrice_le hlimit, Context.paddingPrice_le hlimit, UInt64.toNat_inj.mp ?_,
      h.toNat_remaining hlimit, h.price_remaining hlimit⟩
    rw [h.toNat_remaining hlimit, h'.toNat_remaining hlimit]

/-- A host that grants 100. -/
def hundredLimit : Context := { mode := .committing, gasLimit := 100 }

/-- A word with a bit above the lowest 64 asks for the target 90. -/
def wideNinety : Word := .ofNat (2 ^ 64 + 90)

lemma target_wideNinety : wideNinety.target = 90 := by decide

/-- Of 100, one branch leaves 50 and the other leaves 10.  The one pays 40 and the other nothing,
and both have 10 left. -/
theorem branches_padded :
    hundredLimit.paddingPrice wideNinety 50 ≤ 50 ∧
    50 - hundredLimit.paddingPrice wideNinety 50 = 10 - hundredLimit.paddingPrice wideNinety 10 ∧
    (50 - hundredLimit.paddingPrice wideNinety 50).toNat = 10 := by
  have hbelow (left : UInt64) (hle : left ≤ 100) (hconsumed : 100 - left.toNat ≤ 90) :
      hundredLimit.BelowTarget wideNinety left := ⟨hle, target_wideNinety ▸ hconsumed⟩
  obtain ⟨hpaid, -, heq, hleft, -⟩ := (padding_hides_branch hundredLimit wideNinety).2 50 10
    (hbelow 50 (by decide) (by decide)) (hbelow 10 (by decide) (by decide)) (by decide)
  exact ⟨hpaid, heq, hleft.trans (by decide)⟩

end CipherCalls
