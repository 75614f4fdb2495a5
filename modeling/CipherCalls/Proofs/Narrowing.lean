/-
# Casts and arithmetic

A cast to a narrower width keeps the low bits of a plaintext and forgets the others.  The low bits
of a sum, a difference or a conjunction depend on the low bits of the operands only.  It therefore
makes no difference whether the operands are cast before an operation is carried out, or the result
is cast afterwards, although carries and borrows are cut off at different places on the two ways.

A chain of casts keeps the bits that fit into the narrowest width of the chain.  A bit that was
forgotten does not come back with a wider width, so the order of the widths does not matter, except
that the last one is the width of the result.
-/
import Mathlib
import CipherCalls.Proofs.ClearArithmetic

namespace CipherCalls

/-! ## Residues modulo two powers -/

/-- Of two reductions the stronger one counts. -/
lemma mod_two_pow_mod_two_pow (n k l : Nat) : n % 2 ^ k % 2 ^ l = n % 2 ^ min k l := by
  rcases Nat.le_total k l with hkl | hlk
  · have hlt : n % 2 ^ k < 2 ^ l :=
      lt_of_lt_of_le (Nat.mod_lt n (Nat.two_pow_pos k)) (Nat.pow_le_pow_right (by decide) hkl)
    rw [min_eq_left hkl, Nat.mod_eq_of_lt hlt]
  · rw [min_eq_right hlk, Nat.mod_mod_of_dvd n (Nat.pow_dvd_pow 2 hlk)]

namespace BinaryOp

variable (op : BinaryOp)

/-- Wrapping the left operand first makes no difference. -/
lemma residue_mod_left (bits a b : Nat) :
    op.residue bits (a % 2 ^ bits) b = op.residue bits a b := by
  cases op with
  | add => simp [residue]
  | sub => simp [residue]
  | bitAnd => simp [residue, Nat.and_mod_two_pow]

/-- The residue modulo the smaller power can be taken of the residue modulo the greater one. -/
lemma residue_mod_of_le {k l : Nat} (hkl : k ≤ l) (a b : Nat) :
    op.residue l a b % 2 ^ k = op.residue k a b := by
  have hdvd : 2 ^ k ∣ 2 ^ l := Nat.pow_dvd_pow 2 hkl
  cases op with
  | add => exact Nat.mod_mod_of_dvd _ hdvd
  | bitAnd => exact Nat.mod_mod_of_dvd _ hdvd
  | sub =>
      have hdvd' : (2 : Int) ^ k ∣ 2 ^ l := pow_dvd_pow 2 hkl
      have hnonneg (n : Nat) : 0 ≤ ((a : Int) - b) % 2 ^ n :=
        Int.emod_nonneg _ (pow_ne_zero n two_ne_zero)
      apply Int.natCast_inj.mp
      rw [residue, residue, Int.natCast_emod, Int.toNat_of_nonneg (hnonneg l),
        Int.toNat_of_nonneg (hnonneg k)]
      push_cast
      exact Int.emod_emod_of_dvd _ hdvd'

/-- An operation commutes with the reduction to fewer bits. -/
lemma residue_narrow {k l : Nat} (hkl : k ≤ l) (a b : Nat) :
    op.residue l a b % 2 ^ k = op.residue k (a % 2 ^ k) (b % 2 ^ k) := by
  rw [op.residue_mod_of_le hkl, op.residue_mod_left, op.residue_mod_right]

end BinaryOp

/-- A ciphertext is cast to one width after the other.  The list of earlier questions grows with
every cast. -/
def Engine.castAll (e : Engine) :
    List Engine.Call → Ciphertext → List Width → Except EngineError Ciphertext
  | _, c, [] => .ok c
  | past, c, w :: widths => do
    let cast ← e.produce past (.cast c w)
    e.castAll (past ++ [.produce (.cast c w)]) cast widths

namespace Clear

/-- Whatever the clear engine was asked before, it answers a request with a ciphertext. -/
def Yields (request : Engine.Request) (c : Ciphertext) : Prop :=
  ∀ past, engine.produce past request = .ok c

/-- The first cast of a chain is answered, and the others apply to the answer. -/
lemma castAll_cons {c c' : Ciphertext} {w : Width} (h : Yields (.cast c w) c')
    (past : List Engine.Call) (widths : List Width) :
    engine.castAll past c (w :: widths) =
      engine.castAll (past ++ [.produce (.cast c w)]) c' widths := by
  rw [Engine.castAll, h past]
  rfl

section Casts

variable {x y : Ciphertext} {m n : Nat}

lemma yields_cast (w : Width) (hx : Hides x m) :
    Yields (.cast x w) (encodeNat (m % 2 ^ w.bits) w) :=
  fun _ => produce_cast w hx

lemma hides_cast (w : Width) (m : Nat) : Hides (encodeNat (m % 2 ^ w.bits) w) (m % 2 ^ w.bits) :=
  hides_encodeNat (Nat.mod_lt m (Nat.two_pow_pos w.bits))

/-- Both ways around a cast of an operation on two ciphertexts end at the same ciphertext. -/
lemma cast_combined {ask : Ciphertext → Ciphertext → Engine.Request} (op : BinaryOp)
    (hask : ∀ x y, op.request (.encrypted x y) = .ok (ask x y)) (hwidth : x.width = y.width)
    (hx : Hides x m) (hy : Hides y n) {w : Width} (hw : w.bits ≤ x.width.bits) :
    ∃ c c', Yields (ask x y) c ∧ Yields (.cast c w) c' ∧
      Yields (ask (encodeNat (m % 2 ^ w.bits) w) (encodeNat (n % 2 ^ w.bits) w)) c' := by
  have hresult := hides_encodeNat (op.residue_lt x.width.bits m n)
  refine ⟨_, _, fun _ => produce_encrypted op (hask x y) hwidth hx hy, yields_cast w hresult,
    fun _ => ?_⟩
  rw [op.residue_narrow hw]
  exact produce_encrypted op (hask _ _) rfl (hides_cast w m) (hides_cast w n)

/-- The same for an operation with a plain number.  It is wrapped to the width of the ciphertext it
meets, so that it needs no cast. -/
lemma cast_combinedScalar {ask : Ciphertext → UInt64 → Engine.Request} (op : BinaryOp)
    (hask : ∀ x v, op.request (.scalar x v) = .ok (ask x v)) (hx : Hides x m) (v : UInt64)
    {w : Width} (hw : w.bits ≤ x.width.bits) :
    ∃ c c', Yields (ask x v) c ∧ Yields (.cast c w) c' ∧
      Yields (ask (encodeNat (m % 2 ^ w.bits) w) v) c' := by
  have hresult := hides_encodeNat (op.residue_lt x.width.bits m v.toNat)
  refine ⟨_, _, fun _ => produce_scalar op (hask x v) hx, yields_cast w hresult, fun _ => ?_⟩
  rw [op.residue_narrow hw, op.residue_mod_right]
  exact produce_scalar op (hask _ v) (hides_cast w m)

/-- A chain of casts keeps what fits into its narrowest width. -/
lemma castAll_eq {first : Width} {rest : List Width} {k : Nat}
    (hk : ((first :: rest).map Width.bits).min? = some k) (hx : Hides x m)
    (past : List Engine.Call) :
    engine.castAll past x (first :: rest) =
      .ok (encodeNat (m % 2 ^ k) ((first :: rest).getLast (List.cons_ne_nil first rest))) := by
  rw [castAll_cons (yields_cast first hx)]
  -- What the first cast leaves is the plaintext of the second one.
  induction rest generalizing first x m k past with
  | nil =>
      obtain rfl : first.bits = k := by simpa using hk
      rfl
  | cons second rest ih =>
      rw [castAll_cons (yields_cast second (hides_cast first m)), List.getLast_cons_cons]
      obtain ⟨l, hl⟩ : ∃ l, ((second :: rest).map Width.bits).min? = some l := ⟨_, List.min?_cons'⟩
      have hkl : k = min first.bits l := by
        rw [List.map_cons, List.min?_cons, hl] at hk
        exact (Option.some.inj hk).symm
      rw [ih hl (hides_cast first m), mod_two_pow_mod_two_pow, hkl]

end Casts

/-! ## The main statement -/

/-- **Casts commute with arithmetic and compose.**  For a cast to a width that is at most as wide as
the operands, it makes no difference whether the operands of a sum, a difference or a conjunction
are cast or the result is; all requests on either way are answered, and both end at the same
ciphertext.  The same holds of the operations with a plain number.

A chain of casts yields the ciphertext, of the last width, of the plaintext modulo `2 ^ k`, where
`k` is the number of bits of the narrowest width in the chain. -/
theorem casts_commute_and_compose :
    (∀ (a b : Ciphertext) (w : Width), a.width = b.width → 8 ≤ a.payload.length →
      8 ≤ b.payload.length → w.bits ≤ a.width.bits →
      ∃ a' b', Yields (.cast a w) a' ∧ Yields (.cast b w) b' ∧
        ∀ ask ∈ [Engine.Request.add, .sub, .bitAnd],
          ∃ c c', Yields (ask a b) c ∧ Yields (.cast c w) c' ∧ Yields (ask a' b') c') ∧
    (∀ (a : Ciphertext) (w : Width), 8 ≤ a.payload.length → w.bits ≤ a.width.bits →
      ∃ a', Yields (.cast a w) a' ∧
        ∀ ask ∈ [Engine.Request.addScalar, .subScalar], ∀ v,
          ∃ c c', Yields (ask a v) c ∧ Yields (.cast c w) c' ∧ Yields (ask a' v) c') ∧
    ∀ (a : Ciphertext) (chain : List Width) (hchain : chain ≠ []), 8 ≤ a.payload.length →
      ∃ k, (chain.map Width.bits).min? = some k ∧ ∀ past,
        engine.castAll past a chain =
          .ok (encodeNat (plaintext a % 2 ^ k) (chain.getLast hchain)) := by
  refine ⟨?combined, ?scalar, ?chain⟩
  case combined =>
    intro a b w hwidth ha hb hw
    have hx := hides_plaintext ha
    have hy := hides_plaintext hb
    refine ⟨_, _, yields_cast w hx, yields_cast w hy, fun ask hask => ?_⟩
    simp only [List.mem_cons, List.not_mem_nil, or_false] at hask
    rcases hask with rfl | rfl | rfl
    · exact cast_combined .add (fun _ _ => rfl) hwidth hx hy hw
    · exact cast_combined .sub (fun _ _ => rfl) hwidth hx hy hw
    · exact cast_combined .bitAnd (fun _ _ => rfl) hwidth hx hy hw
  case scalar =>
    intro a w ha hw
    have hx := hides_plaintext ha
    refine ⟨_, yields_cast w hx, fun ask hask v => ?_⟩
    simp only [List.mem_cons, List.not_mem_nil, or_false] at hask
    rcases hask with rfl | rfl
    · exact cast_combinedScalar .add (fun _ _ => rfl) hx v hw
    · exact cast_combinedScalar .sub (fun _ _ => rfl) hx v hw
  case chain =>
    intro a chain hchain ha
    obtain ⟨first, rest, rfl⟩ := List.exists_cons_of_ne_nil hchain
    exact ⟨_, List.min?_cons', castAll_eq List.min?_cons' (hides_plaintext ha)⟩

/-- A ciphertext of `0x01F0`, with a byte too many in its payload. -/
def subtrahend : Ciphertext := ⟨.euint16, [0xF0, 0x01, 0, 0, 0, 0, 0, 0, 9]⟩

/-- From `0x1234` the number `0x01F0` is taken away, without a borrow in the end; from `0x34` its
low byte `0xF0` is taken away, with one.  The low byte of the first result is the second result.
The narrowest width of a chain may stand in its middle. -/
theorem difference_narrowed :
    (∃ c, Yields (.sub (encode 0x1234 .euint16) subtrahend) c ∧
      Yields (.cast c .euint8) (encode 0x44 .euint8)) ∧
    Yields (.sub (encode 0x34 .euint8) (encode 0xF0 .euint8)) (encode 0x44 .euint8) ∧
    engine.castAll [] (encode 0x1234 .euint16) [.euint64, .euint4, .euint32] =
      .ok (encode 4 .euint32) := by
  obtain ⟨hcombined, -, hchain⟩ := casts_commute_and_compose
  obtain ⟨a', b', ha', hb', hsquare⟩ :=
    hcombined (encode 0x1234 .euint16) subtrahend .euint8 rfl (by decide) (by decide) (by decide)
  obtain rfl : encode 0x34 .euint8 = a' :=
    Except.ok.inj ((show _ = engine.produce [] _ by decide).trans (ha' []))
  obtain rfl : encode 0xF0 .euint8 = b' :=
    Except.ok.inj ((show _ = engine.produce [] _ by decide).trans (hb' []))
  obtain ⟨c, c', hc, hc', hnarrow⟩ := hsquare .sub (by simp)
  obtain rfl : encode 0x44 .euint8 = c' :=
    Except.ok.inj ((show _ = engine.produce [] _ by decide).trans (hnarrow []))
  obtain ⟨k, hk, hcast⟩ :=
    hchain (encode 0x1234 .euint16) [.euint64, .euint4, .euint32] (by simp) (by decide)
  obtain rfl : 4 = k := Option.some.inj hk
  exact ⟨⟨c, hc, hc'⟩, hnarrow, (hcast []).trans (by decide)⟩

end Clear

end CipherCalls
