/-
# No plaintext past an unmet requirement

A decryption that is executed for real first checks the requirements that are pending.  Their
*verdict* decides alone what comes next: unless it is positive, the call fails with a revert that
depends on the verdict only, the engine is not asked anything further, and nobody can tell from
the outcome which ciphertext was to be decrypted.

Conversely a revert is never anything else than such a decryption with a verdict that is not
positive.
-/
import Mathlib
import CipherCalls.Engine.Clear
import CipherCalls.Proofs.Effect
import CipherCalls.Proofs.Selection
import CipherCalls.Proofs.Slots
import CipherCalls.Proofs.Visibility

namespace CipherCalls

/-- An input asks for the plaintext of a ciphertext, and the host wants an answer that is real:
the payload of 32 bytes names the ciphertext by a handle visible at the current depth. -/
structure Session.Reveals (s : Session) (input : Bytes) (target : Ciphertext) : Prop where
  real : s.context.mode ≠ .estimating
  dispatched : dispatch input = .ok .decrypt
  length_payload : (Method.decrypt.payload input).length = 32
  verified : s.context.verified? (.ofTail (Method.decrypt.payload input)) = some target

/-! ## The outcome of a decryption by its verdict -/

/-- What a verdict that is not positive makes of a call. -/
def refusal : Except EngineError Bool → CallError
  | .ok _ => .reverted
  | .error cause => .requireEvaluation cause

section Outcome

variable {b : Backend} {s : Session} {payload : Bytes} {target : Ciphertext}

/-- Without a positive verdict the target plays no part. -/
lemma reveal_of_refused (hreal : s.context.mode ≠ .estimating)
    (hverdict : (s.verdict b).1 ≠ .ok true) :
    (reveal b payload target s).1 = .error (refusal (s.verdict b).1) ∧
      (reveal b payload target s).2.context = s.context.drain ∧
      (reveal b payload target s).2.journal.calls = (s.verdict b).2.calls ∧
      (reveal b payload target s).2.journal.drawn = (s.verdict b).2.drawn := by
  rw [reveal, if_neg hreal, settleRequires_eq]
  rcases hv : s.verdict b with ⟨cause | (_ | _), journal⟩
  · exact ⟨rfl, rfl, rfl, rfl⟩
  · exact ⟨rfl, rfl, rfl, rfl⟩
  · rw [hv] at hverdict
    exact absurd rfl hverdict

/-- With a positive verdict the engine is asked for the plaintext of the target. -/
lemma reveal_of_granted (hreal : s.context.mode ≠ .estimating)
    (hverdict : (s.verdict b).1 = .ok true) :
    (reveal b payload target s).1 =
        match b.engine.decrypt (s.verdict b).2.calls target with
        | .error cause => .error (.engine cause)
        | .ok value => .ok (Word.ofUInt64 value).bytes := by
  rw [reveal, if_neg hreal, settleRequires_eq]
  rcases hv : s.verdict b with ⟨cause | (_ | _), journal⟩ <;> rw [hv] at hverdict
  · cases hverdict
  · cases hverdict
  · simp only [Journal.decrypt]
    cases b.engine.decrypt journal.calls target <;> rfl

lemma Session.Reveals.demand_eq {input : Bytes} (h : s.Reveals input target) :
    s.context.demand (Method.decrypt.payload input) .decrypt = .ok (.reveal target) :=
  Context.demand_eq_reveal_iff.mpr ⟨rfl, h.length_payload, h.verified⟩

lemma Session.Reveals.run_eq {input : Bytes} (h : s.Reveals input target) :
    run b input s =
      reported .decrypt (Method.decrypt.payload input)
        (reveal b (Method.decrypt.payload input) target s) := by
  rw [run_of_demand h.dispatched h.demand_eq, meet]

/-- Without a positive verdict the outcome of a decryption is determined by the verdict. -/
lemma Session.Reveals.refused {input : Bytes} (h : s.Reveals input target)
    (hverdict : (s.verdict b).1 ≠ .ok true) :
    (run b input s).1 = .error (refusal (s.verdict b).1) ∧
      (run b input s).2.context = s.context.drain ∧
      (run b input s).2.journal.calls = (s.verdict b).2.calls ∧
      (run b input s).2.journal.drawn = (s.verdict b).2.drawn := by
  rw [h.run_eq, reported_fst, context_reported, calls_reported, drawn_reported]
  exact reveal_of_refused h.real hverdict

end Outcome

/-! ## What else can fail -/

/-- A revert is a refusal by a verdict that is not positive. -/
lemma refused_of_isRevert {b : Backend} {payload : Bytes} {target : Ciphertext} {s : Session}
    {cause : CallError} (h : (reveal b payload target s).1 = .error cause)
    (hrevert : cause.isRevert = true) :
    s.context.mode ≠ .estimating ∧ (s.verdict b).1 ≠ .ok true ∧
      cause = refusal (s.verdict b).1 := by
  have hreal : s.context.mode ≠ .estimating := by
    intro hmode
    rw [reveal_of_estimating hmode] at h
    cases h
  refine ⟨hreal, ?_⟩
  by_cases hverdict : (s.verdict b).1 = .ok true
  · rw [reveal_of_granted hreal hverdict] at h
    split at h <;> cases h
    cases hrevert
  · rw [(reveal_of_refused hreal hverdict).1] at h
    exact ⟨hverdict, (Except.error.inj h).symm⟩

/-- Only a real decryption of a visible ciphertext is reverted. -/
lemma reveals_of_isRevert {b : Backend} {input : Bytes} {s : Session} {cause : CallError}
    (h : (run b input s).1 = .error cause) (hrevert : cause.isRevert = true) :
    ∃ target, s.Reveals input target ∧ (s.verdict b).1 ≠ .ok true ∧
      cause = refusal (s.verdict b).1 := by
  rcases run_eq_error h with hm | hrejection | ⟨m, demand, hm, hd, hfailed⟩
  · rcases dispatch_eq_error hm with ⟨n, rfl⟩ | ⟨selector, rfl⟩ <;> cases hrevert
  · rw [CallError.isRevert_of_isRejection hrejection] at hrevert
    cases hrevert
  · cases demand with
    | produce request =>
        rw [meet, reported_fst] at hfailed
        obtain ⟨failure, rfl⟩ := produce_eq_error hfailed
        cases hrevert
    | reveal target =>
        rw [meet, reported_fst] at hfailed
        obtain ⟨rfl, hlen, hverified⟩ := Context.demand_eq_reveal_iff.mp hd
        obtain ⟨hreal, hrefused⟩ := refused_of_isRevert hfailed hrevert
        exact ⟨target, ⟨hreal, hm, hlen, hverified⟩, hrefused⟩
    | serveKey => obtain rfl | rfl := runPublicKey_eq_error hfailed <;> cases hrevert
    | state | pad => cases hfailed

/-! ## The main statement -/

/-- **No plaintext leaves past an unmet requirement.**  A real decryption of a visible ciphertext
answers with a plaintext only if the verdict on the requirements pending before it was positive;
then the answer is that of the engine.  A negative verdict makes it a revert, a failed one a
failed evaluation; in both cases the engine is asked nothing beyond the verdict, and any other
visible ciphertext would have given the same error, the same questions to the engine and the same
state.  And nothing else is ever classed as a revert. -/
theorem decryption_waits_for_verdict (b : Backend) (s : Session) :
    (∀ input target, s.Reveals input target →
      (∀ output, (run b input s).1 = .ok output → (s.verdict b).1 = .ok true) ∧
      ((s.verdict b).1 = .ok true →
        (run b input s).1 =
          match b.engine.decrypt (s.verdict b).2.calls target with
          | .error cause => .error (.engine cause)
          | .ok value => .ok (Word.ofUInt64 value).bytes) ∧
      ((s.verdict b).1 = .ok false → (run b input s).1 = .error .reverted) ∧
      (∀ cause, (s.verdict b).1 = .error cause →
        (run b input s).1 = .error (.requireEvaluation cause)) ∧
      ((s.verdict b).1 ≠ .ok true →
        (run b input s).2.journal.calls = (s.verdict b).2.calls ∧
        ∀ input' target', s.Reveals input' target' →
          (run b input' s).1 = (run b input s).1 ∧
          (run b input' s).2.journal.calls = (run b input s).2.journal.calls ∧
          (run b input' s).2.journal.drawn = (run b input s).2.journal.drawn ∧
          (run b input' s).2.context = (run b input s).2.context)) ∧
    ∀ input cause, (run b input s).1 = .error cause → cause.isRevert = true →
      ∃ target, s.Reveals input target ∧
        ((s.verdict b).1 = .ok false ∧ cause = .reverted ∨
          ∃ e, (s.verdict b).1 = .error e ∧ cause = .requireEvaluation e) := by
  constructor
  · intro input target h
    refine ⟨?_, ?_, ?_, ?_, ?_⟩
    · intro output houtput
      by_contra hverdict
      rw [(h.refused hverdict).1] at houtput
      cases houtput
    · intro hverdict
      rw [h.run_eq, reported_fst]
      exact reveal_of_granted h.real hverdict
    · intro hverdict
      rw [(h.refused (by rw [hverdict]; simp)).1, hverdict]
      rfl
    · intro cause hverdict
      rw [(h.refused (by rw [hverdict]; simp)).1, hverdict]
      rfl
    · intro hverdict
      obtain ⟨hresult, hcontext, hcalls, hdrawn⟩ := h.refused hverdict
      refine ⟨hcalls, fun input' target' h' => ?_⟩
      obtain ⟨hresult', hcontext', hcalls', hdrawn'⟩ := h'.refused hverdict
      exact ⟨hresult'.trans hresult.symm, hcalls'.trans hcalls.symm, hdrawn'.trans hdrawn.symm,
        hcontext'.trans hcontext.symm⟩
  · intro input cause h hrevert
    obtain ⟨target, hreveals, hverdict, rfl⟩ := reveals_of_isRevert h hrevert
    refine ⟨target, hreveals, ?_⟩
    rcases hv : (s.verdict b).1 with e | (_ | _)
    · exact .inr ⟨e, rfl, rfl⟩
    · exact .inl ⟨rfl, rfl⟩
    · exact absurd hv hverdict

/-- The ciphertext of 42, which is visible in `withheldSession`. -/
def withheldAnswer : Ciphertext := Clear.encode 42 .euint32

/-- A session in which of two pending requirements the second one does not hold. -/
def withheldSession : Session where
  context :=
    { mode := .committing
      vault :=
        { registry := Registry.empty.register withheldAnswer 1
          requires := ⟨[Clear.encode 1 .euint8, Clear.encode 0 .euint8]⟩ } }

/-- The call that asks for the plaintext. -/
def withheldCall : Bytes := encodeCall Method.decrypt.signature [withheldAnswer.handle.bytes]

lemma withheldCall_payload :
    Method.decrypt.payload withheldCall = withheldAnswer.handle.bytes :=
  payload_encodeCall_handle rfl _

lemma withheldSession_reveals : withheldSession.Reveals withheldCall withheldAnswer where
  real := by decide
  dispatched := dispatch_encodeCall .decrypt _
  length_payload := by rw [withheldCall_payload, Handle.length_bytes]
  verified := by
    rw [withheldCall_payload, Handle.ofTail_bytes]
    exact Registry.contentAddressed_empty.get?_register_self (.singleton _)

/-- The answer is withheld, with a revert, because of the second requirement. -/
theorem decryption_withheld :
    withheldSession.Reveals withheldCall withheldAnswer ∧
      (withheldSession.verdict ⟨Clear.engine, fun _ => .zero⟩).1 = .ok false ∧
      (run ⟨Clear.engine, fun _ => .zero⟩ withheldCall withheldSession).1 = .error .reverted := by
  have hverdict : (withheldSession.verdict ⟨Clear.engine, fun _ => .zero⟩).1 = .ok false := by
    decide
  have h := (decryption_waits_for_verdict ⟨Clear.engine, fun _ => .zero⟩ withheldSession).1
    withheldCall withheldAnswer withheldSession_reveals
  exact ⟨withheldSession_reveals, hverdict, h.2.2.1 hverdict⟩

end CipherCalls
