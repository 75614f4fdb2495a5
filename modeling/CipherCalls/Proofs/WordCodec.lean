/-
# Words as numbers

Both readers of byte strings take a residue of the number that the string denotes: modulo `2 ^ 64`
for the number at its end, and modulo `2 ^ 256` for the word at its end.  This holds for strings of
any length, so that zeros in front of a string do not matter, nor does anything else in front of a
string that is long enough.  What was written into a word is read back from it.
-/
import Mathlib
import CipherCalls.Ciphertext
import CipherCalls.Proofs.Slots

namespace CipherCalls

namespace Bytes

/-- The number of a byte string in digits: base 256, the last digit being the lowest. -/
lemma toNatBE_eq_ofDigits (bs : Bytes) :
    toNatBE bs = Nat.ofDigits 256 (bs.reverse.map UInt8.toNat) := by
  have hLE : ∀ cs : Bytes, toNatLE cs = Nat.ofDigits 256 (cs.map UInt8.toNat) := by
    intro cs
    induction cs with
    | nil => rfl
    | cons c cs ih => rw [toNatLE, List.map_cons, Nat.ofDigits_cons, ih]
  exact hLE bs.reverse

/-- Two strings of one length that denote the same number are the same. -/
lemma eq_of_toNatBE_eq {as bs : Bytes} (hlen : as.length = bs.length)
    (h : toNatBE as = toNatBE bs) : as = bs := by
  rw [← ofNatBE_toNatBE as, ← ofNatBE_toNatBE bs, hlen, h]

/-- Zeros in front of a string do not change its number. -/
lemma toNatBE_replicate_zero_append (k : Nat) (bs : Bytes) :
    toNatBE (List.replicate k 0 ++ bs) = toNatBE bs := by
  have hzeros : toNatBE (List.replicate k 0) = 0 := by
    rw [toNatBE, List.reverse_replicate, ← ofNatLE_zero, toNatLE_ofNatLE, Nat.zero_mod]
  rw [toNatBE_append, hzeros, Nat.zero_mul, Nat.zero_add]

/-- What stands in front of `k` bytes contributes nothing modulo `256 ^ k`. -/
lemma toNatBE_append_mod {bs : Bytes} {k : Nat} (as : Bytes) (h : k ≤ bs.length) :
    toNatBE (as ++ bs) % 256 ^ k = toNatBE bs % 256 ^ k := by
  obtain ⟨d, hd⟩ := Nat.exists_eq_add_of_le h
  rw [toNatBE_append, hd, pow_add, Nat.mul_left_comm, Nat.mul_add_mod]

lemma low64_eq_iff {as bs : Bytes} :
    low64 as = low64 bs ↔ toNatBE as % 2 ^ 64 = toNatBE bs % 2 ^ 64 := by
  rw [← UInt64.toNat_inj, toNat_low64, toNat_low64]

end Bytes

namespace Word

/-- The word at the end of a string is the residue of its number. -/
lemma toNat_ofTail (bs : Bytes) : (ofTail bs).toNat = Bytes.toNatBE bs % 2 ^ 256 := by
  rw [toNat, ofTail, Bytes.toNatBE_replicate_zero_append, Bytes.toNatBE_drop]
  norm_num

lemma toNat_ofUInt64 (v : UInt64) : (ofUInt64 v).toNat = v.toNat := by
  rw [toNat, ofUInt64, Bytes.toNatBE_replicate_zero_append, Bytes.toNatBE_ofNatBE]
  exact Nat.mod_eq_of_lt (by norm_num; exact v.toNat_lt)

/-- A word is determined by its number. -/
lemma toNat_inj {v w : Word} : v.toNat = w.toNat ↔ v = w := by
  refine ⟨fun h => Word.ext (Bytes.eq_of_toNatBE_eq ?_ h), congrArg toNat⟩
  rw [v.length_bytes, w.length_bytes]

lemma ofTail_eq_iff {as bs : Bytes} :
    ofTail as = ofTail bs ↔ Bytes.toNatBE as % 2 ^ 256 = Bytes.toNatBE bs % 2 ^ 256 := by
  rw [← toNat_inj, toNat_ofTail, toNat_ofTail]

end Word

/-! ## The main statement -/

/-- **Words are read and written as big-endian numbers.**  The number of a byte string is that of
its bytes as digits in base 256, the last one being the lowest; it is 0 for the empty string.

For every byte string, the 64-bit number at its end is the residue modulo `2 ^ 64` of its number,
and the handle at its end has the 32 bytes that denote the residue modulo `2 ^ 256`.  The word of a
64-bit number denotes this number, which is read back from it, and a handle is read back from its
bytes.  Both readers ignore zeros in front.  They ignore anything in front of 8 or 32 bytes. -/
theorem words_are_big_endian :
    (∀ bs : Bytes, bs.toNatBE = Nat.ofDigits 256 (bs.reverse.map UInt8.toNat)) ∧
    (∀ bs : Bytes, bs.low64.toNat = bs.toNatBE % 2 ^ 64) ∧
    (∀ bs ws : Bytes, (Handle.ofTail bs).bytes = ws ↔
      ws.length = 32 ∧ ws.toNatBE = bs.toNatBE % 2 ^ 256) ∧
    (∀ v : UInt64, (Word.ofUInt64 v).bytes.length = 32 ∧
      (Word.ofUInt64 v).bytes.toNatBE = v.toNat ∧ (Word.ofUInt64 v).bytes.low64 = v) ∧
    (∀ h : Handle, Handle.ofTail h.bytes = h) ∧
    (∀ (k : Nat) (bs : Bytes), Bytes.low64 (List.replicate k 0 ++ bs) = bs.low64 ∧
      Handle.ofTail (List.replicate k 0 ++ bs) = .ofTail bs) ∧
    (∀ as bs : Bytes, 8 ≤ bs.length → Bytes.low64 (as ++ bs) = bs.low64) ∧
    ∀ as bs : Bytes, 32 ≤ bs.length → Handle.ofTail (as ++ bs) = .ofTail bs := by
  refine ⟨Bytes.toNatBE_eq_ofDigits, Bytes.toNat_low64, fun bs ws => ⟨?_, ?_⟩, fun v => ?written,
    Handle.ofTail_bytes, fun k bs => ?zeros, fun as bs hlen => ?_, fun as bs hlen => ?_⟩
  · rintro rfl
    exact ⟨Handle.length_bytes _, Word.toNat_ofTail bs⟩
  · rintro ⟨hlen, hvalue⟩
    apply Bytes.eq_of_toNatBE_eq
    · rw [Handle.length_bytes, hlen]
    · rw [hvalue]
      exact Word.toNat_ofTail bs
  case written =>
    refine ⟨Word.length_bytes _, Word.toNat_ofUInt64 v, UInt64.toNat_inj.mp ?_⟩
    rw [Bytes.toNat_low64]
    exact (congrArg (· % 2 ^ 64) (Word.toNat_ofUInt64 v)).trans (Nat.mod_eq_of_lt v.toNat_lt)
  case zeros =>
    rw [Bytes.low64_eq_iff, Handle.ofTail, Handle.ofTail, Handle.mk.injEq, Word.ofTail_eq_iff,
      Bytes.toNatBE_replicate_zero_append]
    exact ⟨rfl, rfl⟩
  · rw [Bytes.low64_eq_iff]
    exact Bytes.toNatBE_append_mod as hlen
  · rw [Handle.ofTail, Handle.ofTail, Handle.mk.injEq, Word.ofTail_eq_iff]
    exact Bytes.toNatBE_append_mod as hlen

/-- Of 33 bytes the first one is ignored by both readers, and of nine bytes by the reader of
numbers. -/
theorem surplus_byte_ignored :
    Handle.ofTail ([7] ++ List.replicate 32 1) = .ofTail (List.replicate 32 1) ∧
    Bytes.low64 ([7] ++ List.replicate 8 1) = Bytes.low64 (List.replicate 8 1) := by
  obtain ⟨-, -, -, -, -, -, hnumber, hhandle⟩ := words_are_big_endian
  exact ⟨hhandle [7] (List.replicate 32 1) (by decide),
    hnumber [7] (List.replicate 8 1) (by decide)⟩

end CipherCalls
