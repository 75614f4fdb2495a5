/-
# The arithmetic of the clear engine

The engine computes with 64-bit numbers and wraps the result to a width.  As every width has at
most 64 bits, this is the same as computing with integers and taking the residue modulo `2 ^ bits`
in the end.

A ciphertext *hides* a number if the number is its plaintext.  For each request it is said here
which number the answer hides when it is known what the operands hide.
-/
import Mathlib
import CipherCalls.Bytes.Lemmas
import CipherCalls.Engine.Clear
import CipherCalls.Operands
import CipherCalls.Width.Lemmas

namespace CipherCalls

/-! ## Residues -/

lemma Width.two_pow_bits_dvd (w : Width) : 2 ^ w.bits ∣ 2 ^ 64 :=
  Nat.pow_dvd_pow 2 (by cases w <;> decide)

lemma Width.mod_two_pow_bits_mod (w : Width) (n : Nat) : n % 2 ^ 64 % 2 ^ w.bits = n % 2 ^ w.bits :=
  Nat.mod_mod_of_dvd n w.two_pow_bits_dvd

/-- The result of an operation on integers modulo `2 ^ bits`. -/
def BinaryOp.residue (op : BinaryOp) (bits a b : Nat) : Nat :=
  match op with
  | add => (a + b) % 2 ^ bits
  | sub => (((a : Int) - b) % 2 ^ bits).toNat
  | bitAnd => (a &&& b) % 2 ^ bits

/-- The operation as the engine carries it out, on 64-bit numbers. -/
def BinaryOp.compute : BinaryOp → UInt64 → UInt64 → UInt64
  | add => (· + ·)
  | sub => (· - ·)
  | bitAnd => (· &&& ·)

lemma BinaryOp.residue_lt (op : BinaryOp) (bits a b : Nat) : op.residue bits a b < 2 ^ bits := by
  have hpos : 0 < 2 ^ bits := Nat.two_pow_pos bits
  cases op with
  | add => exact Nat.mod_lt _ hpos
  | bitAnd => exact Nat.mod_lt _ hpos
  | sub =>
      have hpos' : (0 : Int) < 2 ^ bits := by positivity
      have hlt := Int.emod_lt_of_pos ((a : Int) - b) hpos'
      rw [BinaryOp.residue, Int.toNat_lt (Int.emod_nonneg _ hpos'.ne')]
      exact_mod_cast hlt

/-- Wrapping the right operand first makes no difference. -/
lemma BinaryOp.residue_mod_right (op : BinaryOp) (bits a b : Nat) :
    op.residue bits a (b % 2 ^ bits) = op.residue bits a b := by
  cases op with
  | add => simp [BinaryOp.residue]
  | sub => simp [BinaryOp.residue]
  | bitAnd => simp [BinaryOp.residue, Nat.and_mod_two_pow]

/-- Wrapping what was computed with 64 bits gives the residue. -/
lemma BinaryOp.toNat_compute_mod (op : BinaryOp) (w : Width) (a b : UInt64) :
    (op.compute a b).toNat % 2 ^ w.bits = op.residue w.bits a.toNat b.toNat := by
  cases op with
  | add =>
      show (a + b).toNat % 2 ^ w.bits = _
      rw [UInt64.toNat_add, w.mod_two_pow_bits_mod]
      rfl
  | bitAnd =>
      show (a &&& b).toNat % 2 ^ w.bits = _
      rw [UInt64.toNat_and]
      rfl
  | sub =>
      show (a - b).toNat % 2 ^ w.bits = (((a.toNat : Int) - b.toNat) % 2 ^ w.bits).toNat
      have hb : b.toNat ≤ 2 ^ 64 := b.toNat_lt.le
      obtain ⟨k, hk⟩ := w.two_pow_bits_dvd
      rw [UInt64.toNat_sub, w.mod_two_pow_bits_mod]
      -- What is computed exceeds the difference by `2 ^ 64`, which is a multiple of `2 ^ bits`.
      have hcast : ((2 ^ 64 - b.toNat + a.toNat : Nat) : Int) =
          ((a.toNat : Int) - b.toNat) + 2 ^ w.bits * (k : Int) := by
        have hk' : (2 : Int) ^ 64 = 2 ^ w.bits * k := by exact_mod_cast hk
        rw [Nat.cast_add, Nat.cast_sub hb, Nat.cast_pow, Nat.cast_ofNat, hk']
        ring
      have hmod : (((2 ^ 64 - b.toNat + a.toNat) % 2 ^ w.bits : Nat) : Int) =
          ((a.toNat : Int) - b.toNat) % 2 ^ w.bits := by
        rw [Int.natCast_emod, hcast]
        push_cast
        exact Int.add_mul_emod_self_left _ _ _
      rw [← hmod, Int.toNat_natCast]

namespace Clear

/-! ## Encoded numbers -/

/-- Only the residue of a number is encoded. -/
lemma encode_congr {u v : UInt64} {w : Width} (h : u.toNat % 2 ^ w.bits = v.toNat % 2 ^ w.bits) :
    encode u w = encode v w := by
  rw [encode, encode, Width.toNat_wrap, Width.toNat_wrap, h]

/-- The ciphertext of a number. -/
def encodeNat (n : Nat) (w : Width) : Ciphertext := encode (UInt64.ofNat n) w

lemma encode_eq_encodeNat {u : UInt64} {n : Nat} {w : Width} (h : u.toNat % 2 ^ w.bits = n) :
    encode u w = encodeNat n w := by
  refine encode_congr ?_
  rw [UInt64.toNat_ofNat', w.mod_two_pow_bits_mod, ← h, Nat.mod_mod]

/-- A ciphertext hides a number if the number is its plaintext. -/
def Hides (c : Ciphertext) (n : Nat) : Prop := ∃ u, value c = .ok u ∧ u.toNat = n

/-- The plaintext in the first eight bytes of a payload. -/
def plaintext (c : Ciphertext) : Nat := Bytes.toNatLE (c.payload.take 8) % 2 ^ c.width.bits

lemma hides_plaintext {c : Ciphertext} (h : 8 ≤ c.payload.length) : Hides c (plaintext c) := by
  refine ⟨_, if_neg (Nat.not_lt.mpr h), ?_⟩
  rw [Width.toNat_wrap, UInt64.toNat_ofNat', Width.mod_two_pow_bits_mod]
  rfl

/-- The payload of an encoded number is the number, wrapped. -/
lemma toNatLE_payload_encode (v : UInt64) (w : Width) :
    Bytes.toNatLE (encode v w).payload = (w.wrap v).toNat := by
  have hlt : (w.wrap v).toNat < 256 ^ 8 := (w.wrap v).toNat_lt
  rw [encode, Bytes.toNatLE_ofNatLE, Nat.mod_eq_of_lt hlt]

/-- The plaintext of an encoded number is the number, wrapped. -/
lemma value_encode (v : UInt64) (w : Width) : value (encode v w) = .ok (w.wrap v) := by
  have hlen : ¬(encode v w).payload.length < 8 := by simp
  rw [value, if_neg hlen, List.take_of_length_le (length_payload_encode v w).le,
    toNatLE_payload_encode, UInt64.ofNat_toNat]
  exact congrArg Except.ok (w.wrap_wrap v)

lemma hides_encodeNat {n : Nat} {w : Width} (h : n < 2 ^ w.bits) : Hides (encodeNat n w) n := by
  refine ⟨_, value_encode _ w, ?_⟩
  rw [Width.toNat_wrap, UInt64.toNat_ofNat', w.mod_two_pow_bits_mod, Nat.mod_eq_of_lt h]

/-! ## Answers -/

variable {x y : Ciphertext} {a b : Nat}

lemma combine_eq (op : BinaryOp) (hw : x.width = y.width) (hx : Hides x a) (hy : Hides y b) :
    combine op.compute x y = .ok (encodeNat (op.residue x.width.bits a b) x.width) := by
  obtain ⟨u, hu, rfl⟩ := hx
  obtain ⟨v, hv, rfl⟩ := hy
  rw [← encode_eq_encodeNat (op.toNat_compute_mod x.width u v)]
  rw [combine]
  simp only [hw, ne_eq, not_true_eq_false, if_false, hu, hv]
  rfl

lemma combineScalar_eq (op : BinaryOp) (hx : Hides x a) (v : UInt64) :
    combineScalar op.compute x v =
      .ok (encodeNat (op.residue x.width.bits a v.toNat) x.width) := by
  obtain ⟨u, hu, rfl⟩ := hx
  have hcompute := op.toNat_compute_mod x.width u (x.width.wrap v)
  rw [Width.toNat_wrap, op.residue_mod_right] at hcompute
  rw [combineScalar]
  rw [hu, ← encode_eq_encodeNat hcompute]
  rfl

/-- A plain number may as well be encrypted first, to the width of the left operand. -/
lemma combine_encode (f : UInt64 → UInt64 → UInt64) (x : Ciphertext) (v : UInt64) :
    combine f x (encode v x.width) = combineScalar f x v := by
  have hw : (encode v x.width).width = x.width := rfl
  rw [combine, combineScalar, hw, value_encode, if_neg (not_not_intro rfl)]
  rfl

/-- The answer to an operation on two ciphertexts of one width. -/
lemma produce_encrypted (op : BinaryOp) {request : Engine.Request}
    (hrequest : op.request (.encrypted x y) = .ok request) (hw : x.width = y.width)
    (hx : Hides x a) (hy : Hides y b) :
    produce request = .ok (encodeNat (op.residue x.width.bits a b) x.width) := by
  have hcombine := combine_eq op hw hx hy
  cases op <;> cases hrequest <;> exact hcombine

/-- The answer to an operation with a plain number. -/
lemma produce_scalar (op : BinaryOp) {v : UInt64} {request : Engine.Request}
    (hrequest : op.request (.scalar x v) = .ok request) (hx : Hides x a) :
    produce request = .ok (encodeNat (op.residue x.width.bits a v.toNat) x.width) := by
  have hcombine := combineScalar_eq op hx v
  cases op <;> cases hrequest <;> exact hcombine

lemma produce_cast (w : Width) (hx : Hides x a) :
    produce (.cast x w) = .ok (encodeNat (a % 2 ^ w.bits) w) := by
  obtain ⟨u, hu, rfl⟩ := hx
  rw [produce, hu, ← encode_eq_encodeNat rfl]
  rfl

lemma produce_encrypt (v : UInt64) (w : Width) :
    produce (.encrypt v w) = .ok (encodeNat (v.toNat % 2 ^ w.bits) w) := by
  rw [produce, ← encode_eq_encodeNat rfl]

end Clear

end CipherCalls
