/-
# The answers of the clear engine

What the clear engine answers to any question about any ciphertexts, however their payloads came
about.

Of a ciphertext the engine takes its width and what can be *read* of it: the number in the first
eight bytes of the payload, modulo `2 ^ bits`, or nothing if there are fewer than eight bytes.
Whether it refuses, and for which reason, is decided by comparing the widths first and looking for
payloads that are too short next.  Otherwise its answer is the encoding of an integer, namely of
what the operation yields over the integers, modulo `2 ^ bits`.

It follows that two ciphertexts of which the same can be read are as good as each other.  Bytes
after the eighth do not matter, nor do the bits that the width does not have.
-/
import Mathlib
import CipherCalls.Proofs.ClearArithmetic
import CipherCalls.Proofs.Conjunction

namespace CipherCalls

/-- The result of an operation over the integers. -/
def BinaryOp.integer : BinaryOp → Nat → Nat → Int
  | add, a, b => a + b
  | sub, a, b => a - b
  | bitAnd, a, b => (a &&& b : Nat)

lemma toNat_emod_two_pow (n bits : Nat) : ((n : Int) % 2 ^ bits).toNat = n % 2 ^ bits := by
  exact_mod_cast Int.toNat_natCast _

lemma BinaryOp.residue_eq (op : BinaryOp) (bits a b : Nat) :
    op.residue bits a b = (op.integer a b % 2 ^ bits).toNat := by
  cases op with
  | add => exact_mod_cast (toNat_emod_two_pow (a + b) bits).symm
  | sub => rfl
  | bitAnd => exact (toNat_emod_two_pow (a &&& b) bits).symm

namespace Clear

/-- The integer a request is about, when its operands are replaced by their plaintexts. -/
def integer : Engine.Request → Int
  | .add a b => plaintext a + plaintext b
  | .sub a b => plaintext a - plaintext b
  | .bitAnd a b => (plaintext a &&& plaintext b : Nat)
  | .addScalar a v => plaintext a + v.toNat
  | .subScalar a v => plaintext a - v.toNat
  | .cast a _ => plaintext a
  | .encrypt v _ => v.toNat

/-- What can be read of a ciphertext. -/
def reading (c : Ciphertext) : Option Nat :=
  if c.payload.length < 8 then none else some (plaintext c)

/-- Two ciphertexts of one width of which the same can be read. -/
structure Alike (a b : Ciphertext) : Prop where
  width_eq : a.width = b.width
  reading_eq : reading a = reading b

section Answers

variable {a a' b b' c : Ciphertext} {cause : EngineError} {f : UInt64 → UInt64 → UInt64}
  {u v : UInt64} {w : Width}

/-! ## Refusals -/

lemma value_eq_error_iff : value c = .error cause ↔ c.payload.length < 8 ∧ cause = tooShort := by
  unfold value
  split <;> simp [*, eq_comm]

lemma map_eq_error_iff {α β : Type} {result : Except EngineError α} {g : α → β} :
    result.map g = .error cause ↔ result = .error cause := by
  cases result <;> simp [Except.map]

lemma cast_eq_error_iff :
    produce (.cast a w) = .error cause ↔ a.payload.length < 8 ∧ cause = tooShort := by
  rw [produce, map_eq_error_iff, value_eq_error_iff]

lemma combineScalar_eq_error_iff :
    combineScalar f a v = .error cause ↔ a.payload.length < 8 ∧ cause = tooShort := by
  have hmap : combineScalar f a v =
      (value a).map fun u => encode (f u (a.width.wrap v)) a.width := by
    rw [combineScalar]
    cases value a <;> rfl
  rw [hmap, map_eq_error_iff, value_eq_error_iff]

/-- If a payload that is too short would have been refused, then an answer shows that it is not. -/
lemma length_of_ok {α : Type} {result : Except EngineError α} {answer : α}
    (hrefused : ∀ {cause}, result = .error cause ↔ a.payload.length < 8 ∧ cause = tooShort)
    (h : result = .ok answer) : 8 ≤ a.payload.length := by
  refine Nat.not_lt.mp fun hlen => ?_
  rw [hrefused.mpr ⟨hlen, rfl⟩] at h
  cases h

/-- Two ciphertexts are combined if and only if both can be read and their widths agree. -/
lemma combine_eq_error_iff_misfit :
    combine f a b = .error cause ↔
      ¬(8 ≤ a.payload.length ∧ Fits a.width b) ∧ cause = misfit a.width b := by
  by_cases h : 8 ≤ a.payload.length ∧ Fits a.width b
  · obtain ⟨ha, hw, hb⟩ := h
    obtain ⟨u, hu, -⟩ := hides_plaintext ha
    obtain ⟨v, hv, -⟩ := hides_plaintext hb
    have hcombine : combine f a b = .ok (encode (f u v) a.width) := by
      simp only [combine, hw, hu, hv, ne_eq, not_true_eq_false, if_false]
      rfl
    rw [hcombine]
    exact iff_of_false (by simp) fun hnot => hnot.1 ⟨ha, hw, hb⟩
  · have hcombine : combine f a b = .error (misfit a.width b) := by
      by_cases ha : 8 ≤ a.payload.length
      · exact combine_of_not_fits (hides_plaintext ha) fun hb => h ⟨ha, hb⟩
      · exact combine_of_short (Nat.not_le.mp ha)
    rw [hcombine, and_iff_right h, Except.error.injEq, eq_comm]

lemma combine_eq_error_iff :
    combine f a b = .error cause ↔
      a.width ≠ b.width ∧ cause = .widthMismatch a.width b.width ∨
        a.width = b.width ∧ (a.payload.length < 8 ∨ b.payload.length < 8) ∧ cause = tooShort := by
  rw [combine_eq_error_iff_misfit]
  by_cases hw : a.width = b.width
  · have hmisfit : misfit a.width b = tooShort := if_neg (not_not_intro hw.symm)
    have hfits : ¬(8 ≤ a.payload.length ∧ Fits a.width b) ↔
        a.payload.length < 8 ∨ b.payload.length < 8 := by
      rw [Fits, and_iff_right hw.symm, not_and_or, Nat.not_le, Nat.not_le]
    rw [hmisfit, hfits]
    simp only [hw, ne_eq, not_true_eq_false, false_and, true_and, false_or]
  · have hmisfit : misfit a.width b = .widthMismatch a.width b.width := if_pos (Ne.symm hw)
    have hfits : ¬(8 ≤ a.payload.length ∧ Fits a.width b) := fun h => hw h.2.1.symm
    simp only [hmisfit, hfits, hw, ne_eq, not_false_eq_true, true_and, false_and, or_false]

lemma fits_of_combine (h : combine f a b = .ok c) : 8 ≤ a.payload.length ∧ Fits a.width b := by
  by_contra hnot
  rw [combine_eq_error_iff_misfit.mpr ⟨hnot, rfl⟩] at h
  cases h

/-! ## Results -/

lemma eq_of_combine (op : BinaryOp) (h : combine op.compute a b = .ok c) :
    c = encodeNat (op.integer (plaintext a) (plaintext b) % 2 ^ a.width.bits).toNat a.width := by
  obtain ⟨ha, hw, hb⟩ := fits_of_combine h
  rw [combine_eq op hw.symm (hides_plaintext ha) (hides_plaintext hb), op.residue_eq] at h
  exact (Except.ok.inj h).symm

lemma eq_of_combineScalar (op : BinaryOp) (h : combineScalar op.compute a v = .ok c) :
    c = encodeNat (op.integer (plaintext a) v.toNat % 2 ^ a.width.bits).toNat a.width := by
  have ha : 8 ≤ a.payload.length := length_of_ok combineScalar_eq_error_iff h
  rw [combineScalar_eq op (hides_plaintext ha), op.residue_eq] at h
  exact (Except.ok.inj h).symm

/-- A new ciphertext encodes the integer the request is about. -/
lemma eq_of_produce {request : Engine.Request} (h : produce request = .ok c) :
    c = encodeNat (integer request % 2 ^ request.width.bits).toNat request.width := by
  cases request with
  | add a b => exact eq_of_combine .add h
  | sub a b => exact eq_of_combine .sub h
  | bitAnd a b => exact eq_of_combine .bitAnd h
  | addScalar a v => exact eq_of_combineScalar .add h
  | subScalar a v => exact eq_of_combineScalar .sub h
  | cast a w =>
      have ha : 8 ≤ a.payload.length := length_of_ok cast_eq_error_iff h
      rw [produce_cast w (hides_plaintext ha)] at h
      rw [← Except.ok.inj h, integer, toNat_emod_two_pow]
      rfl
  | encrypt v w =>
      rw [produce_encrypt] at h
      rw [← Except.ok.inj h, integer, toNat_emod_two_pow]
      rfl

lemma toNat_of_value (h : value c = .ok u) : u.toNat = plaintext c := by
  obtain ⟨u', hu', hplain⟩ := hides_plaintext (length_of_ok value_eq_error_iff h)
  rw [h] at hu'
  rw [Except.ok.inj hu', hplain]

/-- The payload of an encoded number denotes a number below `2 ^ bits`. -/
lemma toNatLE_encodeNat_lt (n : Nat) (w : Width) :
    Bytes.toNatLE (encodeNat n w).payload < 2 ^ w.bits := by
  rw [encodeNat, toNatLE_payload_encode, Width.toNat_wrap]
  exact Nat.mod_lt _ (Nat.two_pow_pos _)

/-! ## Ciphertexts that are read alike -/

/-- The plaintext of a ciphertext, in terms of what can be read of it. -/
lemma value_eq_elim (c : Ciphertext) :
    value c = (reading c).elim (.error tooShort) fun n => .ok (UInt64.ofNat n) := by
  by_cases hlen : c.payload.length < 8
  · rw [reading, if_pos hlen, value_eq_error_iff.mpr ⟨hlen, rfl⟩]
    rfl
  · obtain ⟨u, hu, hplain⟩ := hides_plaintext (Nat.not_lt.mp hlen)
    rw [reading, if_neg hlen, hu, ← hplain]
    exact congrArg Except.ok UInt64.ofNat_toNat.symm

namespace Alike

/-- What can be read is the same as if it had been encoded properly. -/
lemma canonical (h : 8 ≤ c.payload.length) : Alike c (encodeNat (plaintext c) c.width) := by
  refine ⟨rfl, ?_⟩
  have hlt : plaintext c < 2 ^ c.width.bits := Nat.mod_lt _ (Nat.two_pow_pos _)
  obtain ⟨u, hu, hplain⟩ := hides_encodeNat hlt
  have hread : plaintext (encodeNat (plaintext c) c.width) = plaintext c :=
    (toNat_of_value hu).symm.trans hplain
  have hlen : ¬(encodeNat (plaintext c) c.width).payload.length < 8 := by simp [encodeNat]
  rw [reading, reading, if_neg (Nat.not_lt.mpr h), if_neg hlen, hread]

lemma value_eq (h : Alike a a') : value a = value a' := by
  rw [value_eq_elim, value_eq_elim, h.reading_eq]

lemma combine_eq (ha : Alike a a') (hb : Alike b b') : combine f a b = combine f a' b' := by
  rw [combine, combine, ha.width_eq, hb.width_eq, ha.value_eq, hb.value_eq]

lemma combineScalar_eq (h : Alike a a') : combineScalar f a v = combineScalar f a' v := by
  rw [combineScalar, combineScalar, h.width_eq, h.value_eq]

lemma produce_cast_eq (h : Alike a a') : produce (.cast a w) = produce (.cast a' w) := by
  rw [produce, produce, h.value_eq]

end Alike

end Answers

/-! ## The main statement -/

/-- **The answers of the clear engine.**  An operation on two ciphertexts is refused for their
widths if and only if these differ, and else for a payload if and only if one of the two is too
short.  An operation on one ciphertext, or on one and a plain number, is refused if and only if the
payload is too short, and so is a decryption.  An encryption is never refused.

An answer is the encoding of the integer the request is about, modulo `2 ^ bits`; it has eight bytes
and denotes a number below `2 ^ bits`.  A decryption yields the plaintext, which is the residue of
the number that was encoded, if it was.  Ciphertexts that are read alike are answered alike. -/
theorem engine_answers (past : List Engine.Call) :
    (∀ a b, ∀ request ∈ [Engine.Request.add a b, .sub a b, .bitAnd a b], ∀ cause,
      engine.produce past request = .error cause ↔
        a.width ≠ b.width ∧ cause = .widthMismatch a.width b.width ∨
          a.width = b.width ∧ (a.payload.length < 8 ∨ b.payload.length < 8) ∧
            cause = tooShort) ∧
    (∀ a v w, ∀ request ∈ [Engine.Request.addScalar a v, .subScalar a v, .cast a w], ∀ cause,
      engine.produce past request = .error cause ↔
        a.payload.length < 8 ∧ cause = tooShort) ∧
    (∀ a cause, engine.decrypt past a = .error cause ↔
      a.payload.length < 8 ∧ cause = tooShort) ∧
    (∀ v w cause, engine.produce past (.encrypt v w) ≠ .error cause) ∧
    (∀ request c, engine.produce past request = .ok c →
      c = encodeNat (integer request % 2 ^ request.width.bits).toNat request.width ∧
        c.payload.length = 8 ∧ Bytes.toNatLE c.payload < 2 ^ c.width.bits) ∧
    (∀ a u, engine.decrypt past a = .ok u → u.toNat = plaintext a) ∧
    (∀ v w, ∃ u, engine.decrypt past (encode v w) = .ok u ∧ u.toNat = v.toNat % 2 ^ w.bits) ∧
    ∀ a a' b b' v w, Alike a a' → Alike b b' →
      engine.produce past (.add a b) = engine.produce past (.add a' b') ∧
      engine.produce past (.sub a b) = engine.produce past (.sub a' b') ∧
      engine.produce past (.bitAnd a b) = engine.produce past (.bitAnd a' b') ∧
      engine.produce past (.addScalar a v) = engine.produce past (.addScalar a' v) ∧
      engine.produce past (.subScalar a v) = engine.produce past (.subScalar a' v) ∧
      engine.produce past (.cast a w) = engine.produce past (.cast a' w) ∧
      engine.decrypt past a = engine.decrypt past a' := by
  refine ⟨?binary, ?unary, fun _ _ => value_eq_error_iff, fun _ _ _ => nofun, ?result,
    fun _ _ => toNat_of_value, ?decoded, ?alike⟩
  case binary =>
    intro a b request hrequest cause
    simp only [List.mem_cons, List.not_mem_nil, or_false] at hrequest
    rcases hrequest with rfl | rfl | rfl <;> exact combine_eq_error_iff
  case unary =>
    intro a v w request hrequest cause
    simp only [List.mem_cons, List.not_mem_nil, or_false] at hrequest
    rcases hrequest with rfl | rfl | rfl
    · exact combineScalar_eq_error_iff
    · exact combineScalar_eq_error_iff
    · exact cast_eq_error_iff
  case result =>
    intro request c h
    obtain rfl := eq_of_produce h
    exact ⟨rfl, length_payload_encode _ _, toNatLE_encodeNat_lt _ _⟩
  case decoded =>
    exact fun v w => ⟨_, value_encode v w, w.toNat_wrap v⟩
  case alike =>
    intro a a' b b' v w ha hb
    exact ⟨ha.combine_eq hb, ha.combine_eq hb, ha.combine_eq hb, ha.combineScalar_eq,
      ha.combineScalar_eq, ha.produce_cast_eq, ha.value_eq⟩

/-- The number 250 with a bit that its width does not have, and with a byte too many. -/
def untidy : Ciphertext := ⟨.euint8, [250, 0, 0, 0, 0, 0, 0, 1, 9]⟩

/-- The untidy ciphertext is added to another one like the tidy one.  A width that differs is found
out, and so is a payload that is too short. -/
theorem untidy_answered :
    engine.produce [] (.add untidy (encode 10 .euint8)) = .ok (encode 4 .euint8) ∧
      engine.produce [] (.sub untidy ⟨.euint16, []⟩) =
        .error (.widthMismatch .euint8 .euint16) ∧
      engine.produce [] (.cast ⟨.euint8, []⟩ .euint64) = .error tooShort ∧
      ∃ u, engine.decrypt [] untidy = .ok u ∧ u.toNat = 250 := by
  obtain ⟨hbinary, hunary, hdecrypt, -, hresult, hplain, -, halike⟩ := engine_answers []
  have huntidy : Alike untidy (encode 250 .euint8) := .canonical (by decide)
  have hten : Alike (encode 10 .euint8) (encode 10 .euint8) := ⟨rfl, rfl⟩
  have hwidths : engine.produce [] (.sub untidy ⟨.euint16, []⟩) =
      .error (.widthMismatch .euint8 .euint16) :=
    (hbinary untidy ⟨.euint16, []⟩ _ (by simp) _).mpr (.inl ⟨by decide, rfl⟩)
  have hshort : engine.produce [] (.cast ⟨.euint8, []⟩ .euint64) = .error tooShort :=
    (hunary ⟨.euint8, []⟩ 0 .euint64 _ (by simp) _).mpr ⟨by decide, rfl⟩
  refine ⟨?sum, hwidths, hshort, ?decrypted⟩
  case sum =>
    rw [(halike _ _ _ _ 0 .euint8 huntidy hten).1]
    cases hsum : engine.produce [] (.add (encode 250 .euint8) (encode 10 .euint8)) with
    | error cause =>
        have hcause := (hbinary (encode 250 .euint8) (encode 10 .euint8) _ (by simp) cause).mp hsum
        rcases hcause with ⟨hw, -⟩ | ⟨-, hlen, -⟩
        · exact absurd rfl hw
        · exact absurd hlen (by decide)
    | ok c =>
        rw [(hresult _ _ hsum).1]
        decide
  case decrypted =>
    cases hvalue : engine.decrypt [] untidy with
    | error cause =>
        obtain ⟨hlen, -⟩ := (hdecrypt _ _).mp hvalue
        exact absurd hlen (by decide)
    | ok u => exact ⟨u, rfl, hplain _ _ hvalue⟩

end Clear

end CipherCalls
