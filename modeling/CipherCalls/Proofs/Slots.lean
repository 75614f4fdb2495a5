/-
# The slots of a payload

A payload is made of words of 32 bytes, behind which a single byte may stand.  Here the parts are
read back from a payload that was put together from them, and the words as the numbers they
denote.
-/
import Mathlib
import CipherCalls.Bytes.Lemmas
import CipherCalls.Operands

namespace CipherCalls

/-! ## Words and handles read from their own bytes -/

lemma Word.ofTail_bytes (w : Word) : Word.ofTail w.bytes = w := by
  apply Word.ext
  simp [Word.ofTail, w.length_bytes]

@[simp] lemma Handle.ofTail_bytes (h : Handle) : Handle.ofTail h.bytes = h := by
  rw [Handle.ofTail, Handle.bytes, Word.ofTail_bytes]

/-- The same for a handle that is passed as a word. -/
@[simp] lemma Handle.ofTail_word (h : Handle) : Handle.ofTail h.word.bytes = h :=
  h.ofTail_bytes

@[simp] lemma Handle.ofBytes?_bytes (h : Handle) : Handle.ofBytes? h.bytes = some h := by
  have hlen : h.word.bytes.length = 32 := h.word.length_bytes
  simp [Handle.ofBytes?, Handle.bytes, Word.ofBytes?, hlen]

/-! ## Slots -/

section Slots

variable {a b rest : Bytes}

lemma firstSlot_append (ha : a.length = 32) : firstSlot (a ++ rest) = a := by
  rw [firstSlot, ← ha, List.take_left']
  rfl

lemma firstSlot_of_length (ha : a.length = 32) : firstSlot a = a :=
  List.take_of_length_le ha.le

lemma secondSlot_append (ha : a.length = 32) (hb : b.length = 32) :
    secondSlot (a ++ (b ++ rest)) = b := by
  rw [secondSlot, List.drop_left' ha, List.take_left' hb]

variable {n k : Nat}

/-- What is cut off behind the first word does not change it. -/
lemma firstSlot_take (hn : 32 ≤ n) (ha : a.length = 32) : firstSlot ((a ++ rest).take n) = a := by
  rw [firstSlot, List.take_take, min_eq_left hn]
  exact firstSlot_append ha

lemma secondSlot_take (hn : 64 ≤ n) (ha : a.length = 32) :
    secondSlot ((a ++ rest).take n) = rest.take 32 := by
  rw [secondSlot, List.drop_take, List.drop_left' ha, List.take_take, min_eq_left (by omega)]

lemma getD_take_append {y : UInt8} (hk : k < n) (ha : a.length ≤ k) :
    ((a ++ rest).take n).getD k y = rest.getD (k - a.length) y := by
  rw [List.getD_eq_getElem?_getD, List.getElem?_take_of_lt hk, List.getElem?_append_right ha,
    List.getD_eq_getElem?_getD]

lemma getD_append_singleton {x y : UInt8} (ha : a.length = n) :
    (a ++ [x]).getD n y = x := by
  subst ha
  simp

end Slots

/-! ## Numbers -/

namespace Bytes

lemma toNatLE_append (xs ys : Bytes) :
    toNatLE (xs ++ ys) = toNatLE xs + 256 ^ xs.length * toNatLE ys := by
  induction xs with
  | nil => simp [toNatLE]
  | cons x xs ih =>
      rw [List.cons_append, toNatLE, toNatLE, ih, List.length_cons, pow_succ]
      ring

lemma toNatBE_append (xs ys : Bytes) :
    toNatBE (xs ++ ys) = toNatBE xs * 256 ^ ys.length + toNatBE ys := by
  rw [toNatBE, List.reverse_append, toNatLE_append, List.length_reverse]
  simp only [toNatBE]
  ring

lemma ofNatLE_add (m k n : Nat) : ofNatLE (m + k) n = ofNatLE m n ++ ofNatLE k (n / 256 ^ m) := by
  induction m generalizing n with
  | zero => simp [ofNatLE]
  | succ m ih =>
      rw [Nat.succ_add, ofNatLE, ofNatLE, ih, List.cons_append, Nat.div_div_eq_div_mul, pow_succ']

lemma ofNatLE_zero (k : Nat) : ofNatLE k 0 = List.replicate k 0 := by
  induction k with
  | zero => rfl
  | succ k ih => simp [ofNatLE, ih, List.replicate_succ]

/-- The last bytes of a string keep the residue of its number. -/
lemma toNatBE_drop (bs : Bytes) (k : Nat) :
    toNatBE (bs.drop (bs.length - k)) = toNatBE bs % 256 ^ k := by
  rcases Nat.lt_or_ge bs.length k with hlt | hge
  · rw [Nat.sub_eq_zero_of_le hlt.le, List.drop_zero]
    have hpow : 256 ^ bs.length ≤ 256 ^ k := Nat.pow_le_pow_right (by norm_num) hlt.le
    exact (Nat.mod_eq_of_lt (lt_of_lt_of_le (toNatBE_lt bs) hpow)).symm
  · have hlen : (bs.drop (bs.length - k)).length = k := by
      rw [List.length_drop]
      omega
    have hlast := toNatBE_lt (bs.drop (bs.length - k))
    rw [hlen] at hlast
    -- What stands in front contributes a multiple of `256 ^ k`.
    conv_rhs => rw [← List.take_append_drop (bs.length - k) bs, toNatBE_append, hlen]
    rw [Nat.mul_add_mod', Nat.mod_eq_of_lt hlast]

/-- The 64-bit number at the end of a string is the residue of its number. -/
lemma toNat_low64 (bs : Bytes) : (low64 bs).toNat = toNatBE bs % 2 ^ 64 := by
  rw [low64, toNatBE_drop, UInt64.toNat_ofNat']
  norm_num

end Bytes

namespace Word

/-- The word of a 64-bit number is the word of that number. -/
lemma ofUInt64_eq_ofNat (v : UInt64) : ofUInt64 v = ofNat v.toNat := by
  apply Word.ext
  have hsmall : v.toNat / 256 ^ 8 = 0 := Nat.div_eq_of_lt (by norm_num; exact v.toNat_lt)
  show List.replicate 24 0 ++ Bytes.ofNatBE 8 v.toNat = (Bytes.ofNatLE (8 + 24) v.toNat).reverse
  rw [Bytes.ofNatLE_add, hsmall, Bytes.ofNatLE_zero, List.reverse_append, List.reverse_replicate,
    Bytes.ofNatBE]

end Word

end CipherCalls
