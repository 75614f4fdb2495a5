/-
# How the public key is served

The key is served if its digest is the one on record, and not otherwise; neither the mode nor the
payload plays a part in this.  The first byte of the payload decides on the form: the key as it is,
or behind a word and completed to whole words.

The second form does not carry the length of the key.  Two keys look the same in it if and only if
they take up as many words and differ by zeros at the end only (`wrapBytes_eq_iff`).
-/
import Mathlib
import CipherCalls.Engine.Clear
import CipherCalls.Proofs.Selection
import CipherCalls.Proofs.Slots

namespace CipherCalls

/-! ## Whole words -/

namespace Bytes

/-- The number of words that a byte string takes up, the last of which may be incomplete. -/
def words (bs : Bytes) : Nat := (bs.length + 31) / 32

/-- A byte string that is extended to a length by zeros. -/
def zeroExtend (n : Nat) (bs : Bytes) : Bytes := bs ++ List.replicate (n - bs.length) 0

variable {bs : Bytes} {k n : Nat}

lemma length_le_words (bs : Bytes) : bs.length ≤ 32 * bs.words := by
  rw [words]
  omega

lemma length_zeroExtend (h : bs.length ≤ n) : (zeroExtend n bs).length = n := by
  rw [zeroExtend, List.length_append, List.length_replicate]
  omega

/-- Fewer than 32 zeros complete a byte string to whole words in one way only. -/
lemma append_zeros_eq (hk : k < 32) (h : 32 ∣ bs.length + k) :
    bs ++ List.replicate k 0 = zeroExtend (32 * bs.words) bs := by
  have hzeros : k = 32 * bs.words - bs.length := by
    rw [words]
    omega
  rw [zeroExtend, hzeros]

end Bytes

/-! ## Wrapping -/

/-- What a byte string looks like behind the offset 32: it is followed by fewer than 32 zeros, up to
a multiple of 32. -/
def IsWrapped (blob output : Bytes) : Prop :=
  ∃ k < 32, output = (Word.ofNat 32).bytes ++ (blob ++ List.replicate k 0) ∧ 32 ∣ output.length

section Wrapping

variable {blob blob' output : Bytes}

/-- The form of a wrapped byte string determines it. -/
lemma IsWrapped.eq_zeroExtend (h : IsWrapped blob output) :
    output = (Word.ofNat 32).bytes ++ Bytes.zeroExtend (32 * blob.words) blob := by
  obtain ⟨k, hk, rfl, hdvd⟩ := h
  rw [List.length_append, List.length_append, List.length_replicate, Word.length_bytes] at hdvd
  rw [Bytes.append_zeros_eq hk (by omega)]

lemma isWrapped_wrapBytes (blob : Bytes) : IsWrapped blob (wrapBytes blob) := by
  have hoffset : (Word.ofUInt64 32).bytes = (Word.ofNat 32).bytes := by
    rw [Word.ofUInt64_eq_ofNat]
    rfl
  have hlen := Bytes.length_padToWords_mod ((Word.ofNat 32).bytes ++ blob)
  rw [wrapBytes, hoffset]
  refine ⟨(32 - ((Word.ofNat 32).bytes ++ blob).length % 32) % 32, Nat.mod_lt _ (by decide), ?_,
    Nat.dvd_of_mod_eq_zero hlen⟩
  rw [Bytes.padToWords, List.append_assoc]

/-- Wrapping confuses exactly those byte strings that take up as many words and agree once these are
filled with zeros. -/
lemma wrapBytes_eq_iff :
    wrapBytes blob = wrapBytes blob' ↔
      blob.words = blob'.words ∧
        Bytes.zeroExtend (32 * blob.words) blob = Bytes.zeroExtend (32 * blob.words) blob' := by
  rw [(isWrapped_wrapBytes blob).eq_zeroExtend, (isWrapped_wrapBytes blob').eq_zeroExtend,
    List.append_cancel_left_eq]
  constructor
  · intro h
    have hlen := congrArg List.length h
    rw [Bytes.length_zeroExtend blob.length_le_words,
      Bytes.length_zeroExtend blob'.length_le_words] at hlen
    have hwords : blob.words = blob'.words := by omega
    exact ⟨hwords, hwords ▸ h⟩
  · rintro ⟨hwords, h⟩
    rw [h, hwords]

end Wrapping

/-! ## Calls for the key -/

section Serving

variable {b : Backend} {s : Session} {input : Bytes} (hm : dispatch input = .ok .publicKey)

/-- The first byte of the payload is the fifth one of the input. -/
lemma head?_payload_publicKey (input : Bytes) :
    (Method.publicKey.payload input).head? = input[4]? := by
  rw [Method.payload, Method.payloadLength, List.head?_take, if_neg (by decide), List.head?_drop]

include hm

lemma run_publicKey_of_missing (hkey : s.context.publicKey = none) :
    (run b input s).1 = .error .keyMissing := by
  rw [run, hm]
  simp only [runMethod, runPublicKey, hkey]

variable {key : PublicKey} (hkey : s.context.publicKey = some key)
include hkey

lemma run_publicKey_of_mismatch (hhash : s.context.recordedHash ≠ some key.hash) :
    (run b input s).1 = .error .keyMismatch := by
  rw [run, hm]
  simp only [runMethod, runPublicKey, hkey]
  rw [if_pos hhash]

lemma run_publicKey_of_match (hhash : s.context.recordedHash = some key.hash) :
    (run b input s).1 = .ok (if input[4]? = some 1 then wrapBytes key.bytes else key.bytes) := by
  rw [run, hm]
  simp only [runMethod, runPublicKey, hkey, head?_payload_publicKey]
  rw [if_neg (not_not_intro hhash)]
  simp only [decide_eq_true_eq]

end Serving

/-! ## The main statement -/

/-- **The public key is served if it is the one on record, in one of two forms.**  A call for the
key succeeds if and only if there is a key whose digest is on record.  Without a key this is the
error, and with another digest on record that is the error.

If the payload begins with the byte 1, then the output is the key behind the word of 32, followed by
fewer than 32 zeros up to a multiple of 32.  If it begins with another byte, or is empty, then the
output is the key as it is, so that its digest is the one on record.

Two byte strings are the same behind the word if and only if they take up as many words and are the
same when they are extended to this length by zeros.  The price is the one for the public key,
whatever the payload. -/
theorem key_served_as_recorded (b : Backend) (s : Session) (input : Bytes)
    (hm : dispatch input = .ok .publicKey) :
    ((∃ output, (run b input s).1 = .ok output) ↔
      ∃ key, s.context.publicKey = some key ∧
        s.context.recordedHash = some (Keccak.digest key.bytes)) ∧
    (s.context.publicKey = none → (run b input s).1 = .error .keyMissing) ∧
    (∀ key, s.context.publicKey = some key →
      s.context.recordedHash ≠ some (Keccak.digest key.bytes) →
        (run b input s).1 = .error .keyMismatch) ∧
    (∀ key output, s.context.publicKey = some key → (run b input s).1 = .ok output →
      (input[4]? ≠ some 1 →
        output = key.bytes ∧ s.context.recordedHash = some (Keccak.digest output)) ∧
      (input[4]? = some 1 → output = wrapBytes key.bytes ∧ IsWrapped key.bytes output)) ∧
    (∀ blob blob' : Bytes, wrapBytes blob = wrapBytes blob' ↔
      blob.words = blob'.words ∧
        Bytes.zeroExtend (32 * blob.words) blob = Bytes.zeroExtend (32 * blob.words) blob') ∧
    ∀ supplied, s.context.requiredGas supplied input =
      ⟨s.context.params.gasCosts.publicKey, []⟩ := by
  refine ⟨⟨?served, ?_⟩, run_publicKey_of_missing hm, fun key => run_publicKey_of_mismatch hm,
    ?forms, fun blob blob' => wrapBytes_eq_iff, fun supplied => ?price⟩
  case served =>
    rintro ⟨output, houtput⟩
    cases hkey : s.context.publicKey with
    | none =>
        rw [run_publicKey_of_missing hm hkey] at houtput
        cases houtput
    | some key =>
        refine ⟨key, rfl, ?_⟩
        by_contra hhash
        rw [run_publicKey_of_mismatch hm hkey hhash] at houtput
        cases houtput
  · rintro ⟨key, hkey, hhash⟩
    exact ⟨_, run_publicKey_of_match hm hkey hhash⟩
  case forms =>
    intro key output hkey houtput
    have hhash : s.context.recordedHash = some (Keccak.digest key.bytes) := by
      by_contra hhash
      rw [run_publicKey_of_mismatch hm hkey hhash] at houtput
      cases houtput
    rw [run_publicKey_of_match hm hkey hhash] at houtput
    obtain rfl := Except.ok.inj houtput
    refine ⟨fun hflag => ?_, fun hflag => ?_⟩
    · rw [if_neg hflag]
      exact ⟨rfl, hhash⟩
    · rw [if_pos hflag]
      exact ⟨rfl, isWrapped_wrapBytes key.bytes⟩
  case price =>
    rw [Context.requiredGas, hm]
    rfl

/-- A session with a key of three bytes, which is on record. -/
def shortKeySession : Session where
  context :=
    { mode := .staticCall, publicKey := some ⟨[7, 7, 7]⟩
      recordedHash := some (Keccak.digest [7, 7, 7]) }

/-- The key of three bytes is completed by 29 zeros behind the word, where it looks like the key
with one more zero, but not like the key with 30 more zeros. -/
theorem short_key_wrapped :
    (run ⟨Clear.engine, fun _ => .zero⟩ (encodeCall Method.publicKey.signature [[1]])
        shortKeySession).1 =
      .ok ((Word.ofNat 32).bytes ++ ([7, 7, 7] ++ List.replicate 29 0)) ∧
    wrapBytes [7, 7, 7] = wrapBytes [7, 7, 7, 0] ∧
    wrapBytes [7, 7, 7] ≠ wrapBytes ([7, 7, 7] ++ List.replicate 30 0) := by
  have hm : dispatch (encodeCall Method.publicKey.signature [[1]]) = .ok .publicKey :=
    dispatch_encodeCall .publicKey _
  have hflag : (encodeCall Method.publicKey.signature [[1]])[4]? = some 1 := by
    rw [encodeCall_signature, List.getElem?_append_right (by simp), length_selectorBytes]
    rfl
  obtain ⟨hserved, -, -, hforms, hconfused, -⟩ :=
    key_served_as_recorded ⟨Clear.engine, fun _ => .zero⟩ shortKeySession _ hm
  obtain ⟨output, houtput⟩ := hserved.mpr ⟨⟨[7, 7, 7]⟩, rfl, rfl⟩
  obtain ⟨rfl, -⟩ := (hforms ⟨[7, 7, 7]⟩ output rfl houtput).2 hflag
  refine ⟨houtput, (hconfused _ _).mpr ⟨by decide, by decide⟩, fun h => ?_⟩
  have hwords := ((hconfused _ _).mp h).1
  revert hwords
  decide

end CipherCalls
