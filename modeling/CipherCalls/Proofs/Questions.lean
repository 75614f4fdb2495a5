/-
# What a run asks the engine

The engine is asked as little as possible.  A payload that does not resolve never reaches it, and
neither does a method that computes nothing.  A method that produces a ciphertext asks for it once:
the method and the flag of the payload *select* the request, and the answer is taken as it is.  A
real decryption asks what has to be asked to check the requirements, and then for the plaintext,
unless the requirements forbid it.

All this is read off the demand of the payload, which is resolved before the engine is asked for
the first time.
-/
import Mathlib
import CipherCalls.Engine.Failing
import CipherCalls.Proofs.Independence

namespace CipherCalls

/-! ## Which request is selected -/

namespace Context

/-- A payload with two operands names two ciphertexts of one width. -/
structure NamesTwo (c : Context) (payload : Bytes) (lhs rhs : Ciphertext) : Prop where
  length_payload : payload.length = 65
  flag_ne_one : payload.getD 64 0 ≠ 1
  lhs_verified : c.verified? (.ofTail (firstSlot payload)) = some lhs
  rhs_verified : c.verified? (.ofTail (secondSlot payload)) = some rhs
  width_eq : lhs.width = rhs.width

/-- A payload with two operands names a ciphertext and holds a plain number. -/
structure NamesOne (c : Context) (payload : Bytes) (lhs : Ciphertext) (rhs : UInt64) : Prop where
  length_payload : payload.length = 65
  flag_eq_one : payload.getD 64 0 = 1
  lhs_verified : c.verified? (.ofTail (firstSlot payload)) = some lhs
  number_eq : Bytes.low64 (secondSlot payload) = rhs

/-- The request that a payload selects when it is sent to a method. -/
inductive Selects (c : Context) (payload : Bytes) : Method → Engine.Request → Prop
  | add {lhs rhs : Ciphertext} (h : c.NamesTwo payload lhs rhs) :
      Selects c payload .add (.add lhs rhs)
  | addScalar {lhs : Ciphertext} {rhs : UInt64} (h : c.NamesOne payload lhs rhs) :
      Selects c payload .add (.addScalar lhs rhs)
  | sub {lhs rhs : Ciphertext} (h : c.NamesTwo payload lhs rhs) :
      Selects c payload .sub (.sub lhs rhs)
  | subScalar {lhs : Ciphertext} {rhs : UInt64} (h : c.NamesOne payload lhs rhs) :
      Selects c payload .sub (.subScalar lhs rhs)
  | bitAnd {lhs rhs : Ciphertext} (h : c.NamesTwo payload lhs rhs) :
      Selects c payload .bitAnd (.bitAnd lhs rhs)
  | cast {source : Ciphertext} {w : Width} (hlength : payload.length = 33)
      (hsource : c.verified? (.ofTail (firstSlot payload)) = some source)
      (hwidth : Width.ofByte? (payload.getD 32 0) = some w) :
      Selects c payload .cast (.cast source w)
  | encrypt {w : Width} (hlength : payload.length = 33)
      (hwidth : Width.ofByte? (payload.getD 32 0) = some w) :
      Selects c payload .encrypt (.encrypt (Bytes.low64 (firstSlot payload)) w)

variable {c : Context} {payload : Bytes} {m : Method} {op : BinaryOp} {lhs rhs : Ciphertext}
  {number : UInt64} {request : Engine.Request}

lemma namesTwo_iff :
    c.NamesTwo payload lhs rhs ↔ c.resolveBinary op payload = .ok (.encrypted lhs rhs) := by
  rw [resolveBinary_eq_encrypted_iff]
  constructor
  · rintro ⟨hlen, hflag, hlhs, hrhs, hwidth⟩
    exact ⟨hlen, hflag, hlhs, hrhs, hwidth⟩
  · rintro ⟨hlen, hflag, hlhs, hrhs, hwidth⟩
    exact ⟨hlen, hflag, hlhs, hrhs, hwidth⟩

lemma namesOne_iff (hop : op.supportsScalar = true) :
    c.NamesOne payload lhs number ↔ c.resolveBinary op payload = .ok (.scalar lhs number) := by
  rw [resolveBinary_eq_scalar_iff]
  constructor
  · rintro ⟨hlen, hflag, hlhs, hnumber⟩
    exact ⟨hlen, hflag, hop, hlhs, hnumber⟩
  · rintro ⟨hlen, hflag, -, hlhs, hnumber⟩
    exact ⟨hlen, hflag, hlhs, hnumber⟩

lemma demand_of_namesTwo (op : BinaryOp) (h : c.NamesTwo payload lhs rhs)
    (hrequest : op.request (.encrypted lhs rhs) = .ok request) :
    c.demand payload op.method = .ok (.produce request) :=
  demand_of_resolveBinary (namesTwo_iff.mp h) hrequest

lemma demand_of_namesOne (op : BinaryOp) (hop : op.supportsScalar = true)
    (h : c.NamesOne payload lhs number) (hrequest : op.request (.scalar lhs number) = .ok request) :
    c.demand payload op.method = .ok (.produce request) :=
  demand_of_resolveBinary ((namesOne_iff hop).mp h) hrequest

/-- A payload demands the request that it selects. -/
lemma Selects.demand_eq (h : c.Selects payload m request) :
    c.demand payload m = .ok (.produce request) := by
  cases h with
  | add h => exact demand_of_namesTwo .add h rfl
  | addScalar h => exact demand_of_namesOne .add rfl h rfl
  | sub h => exact demand_of_namesTwo .sub h rfl
  | subScalar h => exact demand_of_namesOne .sub rfl h rfl
  | bitAnd h => exact demand_of_namesTwo .bitAnd h rfl
  | cast hlength hsource hwidth =>
      rw [demand, resolveCast_eq_ok_iff.mpr ⟨hlength, hsource, hwidth⟩]
      rfl
  | encrypt hlength hwidth =>
      rw [demand, resolveEncryptWidth_eq_ok_iff.mpr ⟨hlength, hwidth⟩]
      rfl

/-- What two operands select. -/
lemma operands_of_demand
    (h : (c.resolveBinary op payload >>= op.request).map Demand.produce = .ok (.produce request)) :
    ∃ o, c.resolveBinary op payload = .ok o ∧ op.request o = .ok request := by
  obtain ⟨request', hbind, hrequest⟩ := map_eq_ok h
  cases hrequest
  exact bind_eq_ok hbind

/-- A payload that demands a request selects it. -/
lemma selects_of_demand (h : c.demand payload m = .ok (.produce request)) :
    c.Selects payload m request := by
  cases m with
  | add =>
      obtain ⟨o, ho, hrequest⟩ := operands_of_demand h
      cases o <;> cases hrequest
      · exact .add (namesTwo_iff.mpr ho)
      · exact .addScalar ((namesOne_iff rfl).mpr ho)
  | sub =>
      obtain ⟨o, ho, hrequest⟩ := operands_of_demand h
      cases o <;> cases hrequest
      · exact .sub (namesTwo_iff.mpr ho)
      · exact .subScalar ((namesOne_iff rfl).mpr ho)
  | bitAnd =>
      obtain ⟨o, ho, hrequest⟩ := operands_of_demand h
      cases o <;> cases hrequest
      exact .bitAnd (namesTwo_iff.mpr ho)
  | cast =>
      obtain ⟨⟨source, w⟩, ho, hrequest⟩ := map_eq_ok h
      cases hrequest
      obtain ⟨hlength, hsource, hwidth⟩ := resolveCast_eq_ok_iff.mp ho
      exact .cast hlength hsource hwidth
  | encrypt =>
      obtain ⟨w, hw, hrequest⟩ := map_eq_ok h
      cases hrequest
      obtain ⟨hlength, hwidth⟩ := resolveEncryptWidth_eq_ok_iff.mp hw
      exact .encrypt hlength hwidth
  | decrypt | require =>
      obtain ⟨_, -, hrequest⟩ := map_eq_ok h
      cases hrequest
  | publicKey | padGas => cases h

end Context

/-! ## Runs that do not ask -/

section Silent

variable {b : Backend} {s : Session} {input : Bytes} {m : Method} {cause : CallError}

/-- A payload that does not resolve never reaches the engine. -/
lemma calls_run_of_demand_error (hm : dispatch input = .ok m)
    (hd : s.context.demand (m.payload input) m = .error cause) :
    (run b input s).2.journal.calls = s.journal.calls := by
  rw [run_of_demand_error hm hd]
  rfl

/-- A failure that is not one of evaluation comes before the engine is asked. -/
lemma calls_run_of_error (h : (run b input s).1 = .error cause)
    (hcause : cause.isEvaluation = false) : (run b input s).2.journal.calls = s.journal.calls := by
  cases hm : dispatch input with
  | error cause' =>
      rw [run_eq, hm]
      rfl
  | ok m =>
      cases hd : s.context.demand (m.payload input) m with
      | error cause' => exact calls_run_of_demand_error hm hd
      | ok d =>
          rw [run_of_demand hm hd] at h ⊢
          by_cases hserve : d = .serveKey
          · subst hserve
            exact calls_runPublicKey (m.payload input) s
          · rw [isEvaluation_meet hserve h] at hcause
            cases hcause

/-- A method that neither produces nor decrypts has nothing to ask. -/
lemma calls_run_of_quiet (hm : dispatch input = .ok m) (hproduces : m.produces = false)
    (hdecrypt : m ≠ .decrypt) : (run b input s).2.journal.calls = s.journal.calls := by
  cases hd : s.context.demand (m.payload input) m with
  | error cause => exact calls_run_of_demand_error hm hd
  | ok d =>
      rw [run_of_demand hm hd]
      cases d with
      | produce request =>
          rw [(produces_iff hd).mpr ⟨request, rfl⟩] at hproduces
          cases hproduces
      | reveal target => exact absurd (Context.demand_eq_reveal_iff.mp hd).1 hdecrypt
      | serveKey => exact calls_runPublicKey (m.payload input) s
      | state condition => rfl
      | pad => rfl

end Silent

/-! ## Runs that produce -/

section Produces

variable {b : Backend} {s : Session} {input : Bytes} {m : Method} {request : Engine.Request}

/-- A run that demands a ciphertext asks for it once. -/
lemma calls_run_of_produce (hreal : s.context.mode ≠ .estimating) (hm : dispatch input = .ok m)
    (hd : s.context.demand (m.payload input) m = .ok (.produce request)) :
    (run b input s).2.journal.calls = s.journal.calls ++ [.produce request] := by
  rw [run_of_demand hm hd, meet, calls_reported, calls_produce, obtain_of_real b request s hreal]
  rfl

/-- The answer is registered and its handle is returned. -/
lemma run_of_answer (hreal : s.context.mode ≠ .estimating) (hm : dispatch input = .ok m)
    (hd : s.context.demand (m.payload input) m = .ok (.produce request)) {c : Ciphertext}
    (hc : b.engine.produce s.journal.calls request = .ok c) :
    (run b input s).1 = .ok c.handle.bytes ∧ (run b input s).2.context = s.context.register c := by
  rw [run_of_demand hm hd]
  refine meet_produce_of_ok ?_
  rw [obtain_of_real b request s hreal, hc]

/-- A refusal is passed on as it is, and the context stays as it was. -/
lemma run_of_refusal (hreal : s.context.mode ≠ .estimating) (hm : dispatch input = .ok m)
    (hd : s.context.demand (m.payload input) m = .ok (.produce request)) {cause : EngineError}
    (hcause : b.engine.produce s.journal.calls request = .error cause) :
    (run b input s).1 = .error (.engine cause) ∧ (run b input s).2.context = s.context := by
  have hanswer : (obtain b request s).1 = .error cause := by
    rw [obtain_of_real b request s hreal, hcause]
  rw [run_of_demand hm hd, context_meet, Demand.effect, hanswer]
  exact ⟨meet_produce_of_error hanswer, rfl⟩

/-- A method that produces selects a request, unless the payload is rejected. -/
lemma rejected_or_selects (hm : dispatch input = .ok m) (hproduces : m.produces = true) :
    (∃ cause, (run b input s).1 = .error cause ∧ cause.isRejection = true) ∨
      ∃ request, s.context.Selects (m.payload input) m request := by
  cases hd : s.context.demand (m.payload input) m with
  | error cause =>
      refine .inl ⟨cause, ?_, s.context.isRejection_of_demand m _ hd⟩
      rw [run_of_demand_error hm hd]
  | ok d =>
      obtain ⟨request, rfl⟩ := (produces_iff hd).mp hproduces
      exact .inr ⟨request, Context.selects_of_demand hd⟩

end Produces

/-! ## Decryptions -/

section Decryptions

variable {b : Backend} {s : Session} {input payload : Bytes} {target : Ciphertext}

/-- The plaintext is asked for behind a positive verdict, and not behind any other one. -/
lemma calls_reveal (hreal : s.context.mode ≠ .estimating) :
    (reveal b payload target s).2.journal.calls =
      (s.verdict b).2.calls ++ if (s.verdict b).1 = .ok true then [.decrypt target] else [] := by
  by_cases hverdict : (s.verdict b).1 = .ok true
  · rw [if_pos hverdict, reveal, if_neg hreal, settleRequires_eq]
    generalize s.verdict b = o at hverdict ⊢
    obtain ⟨result, journal⟩ := o
    obtain rfl : result = .ok true := hverdict
    simp only [Journal.decrypt]
    cases b.engine.decrypt journal.calls target with
    | error cause => rfl
    | ok value => exact Session.calls_logCommitted _ _
  · rw [if_neg hverdict, List.append_nil]
    exact (reveal_of_refused hreal hverdict).2.2.1

/-- A real decryption finds its ciphertext, unless the payload is rejected. -/
lemma rejected_or_reveals (hreal : s.context.mode ≠ .estimating)
    (hm : dispatch input = .ok .decrypt) :
    (∃ cause, (run b input s).1 = .error cause ∧ cause.isRejection = true) ∨
      ∃ target, s.Reveals input target := by
  cases hd : s.context.demand (Method.decrypt.payload input) .decrypt with
  | error cause =>
      refine .inl ⟨cause, ?_, s.context.isRejection_of_demand .decrypt _ hd⟩
      rw [run_of_demand_error hm hd]
  | ok d =>
      obtain ⟨target, -, rfl⟩ := map_eq_ok hd
      obtain ⟨-, hlen, hverified⟩ := Context.demand_eq_reveal_iff.mp hd
      exact .inr ⟨target, hreal, hm, hlen, hverified⟩

end Decryptions

/-! ## The main statement -/

/-- **What a run asks the engine**, whatever the engine answers:

* nothing, if it fails otherwise than by an evaluation;
* nothing, if it states a requirement, pads, or serves the key;
* one question, if a ciphertext is produced for real: the request that the payload selects, unless
  the payload is rejected.  An error is returned as it is.  Any other answer is registered at the
  current depth, as it is, and its handle is returned;
* what the verdict on the requirements asks and then, if and only if the verdict is positive, the
  plaintext of the target, if a ciphertext is decrypted for real.  An error is returned as it
  is. -/
theorem questions_of_run (b : Backend) (s : Session) (input : Bytes) :
    (∀ cause, (run b input s).1 = .error cause → cause.isEvaluation = false →
      (run b input s).2.journal.calls = s.journal.calls) ∧
    (∀ m ∈ [Method.require, .padGas, .publicKey], dispatch input = .ok m →
      (run b input s).2.journal.calls = s.journal.calls) ∧
    (s.context.mode ≠ .estimating → ∀ m, dispatch input = .ok m → m.produces = true →
      ((∃ cause, (run b input s).1 = .error cause ∧ cause.isRejection = true) ∨
        ∃ request, s.context.Selects (m.payload input) m request) ∧
      ∀ request, s.context.Selects (m.payload input) m request →
        (run b input s).2.journal.calls = s.journal.calls ++ [.produce request] ∧
        (∀ cause, b.engine.produce s.journal.calls request = .error cause →
          (run b input s).1 = .error (.engine cause) ∧ (run b input s).2.context = s.context) ∧
        ∀ c, b.engine.produce s.journal.calls request = .ok c →
          (run b input s).1 = .ok c.handle.bytes ∧
            (run b input s).2.context = s.context.register c) ∧
    (s.context.mode ≠ .estimating → dispatch input = .ok .decrypt →
      ((∃ cause, (run b input s).1 = .error cause ∧ cause.isRejection = true) ∨
        ∃ target, s.Reveals input target) ∧
      ∀ target, s.Reveals input target →
        ((run b input s).2.journal.calls = (s.verdict b).2.calls ++
          if (s.verdict b).1 = .ok true then [.decrypt target] else []) ∧
        ∀ cause, (s.verdict b).1 = .ok true →
          b.engine.decrypt (s.verdict b).2.calls target = .error cause →
            (run b input s).1 = .error (.engine cause)) := by
  refine ⟨fun cause => calls_run_of_error, ?quiet, fun hreal m hm hproduces =>
    ⟨rejected_or_selects hm hproduces, ?produced⟩, fun hreal hm =>
    ⟨rejected_or_reveals hreal hm, fun target hreveals => ⟨?asked, ?refused⟩⟩⟩
  case quiet =>
    intro m hlisted hm
    have hquiet : m.produces = false ∧ m ≠ .decrypt := by
      simp only [List.mem_cons, List.not_mem_nil, or_false] at hlisted
      rcases hlisted with rfl | rfl | rfl <;> exact ⟨rfl, by decide⟩
    exact calls_run_of_quiet hm hquiet.1 hquiet.2
  case produced =>
    intro request hselects
    have hd := hselects.demand_eq
    exact ⟨calls_run_of_produce hreal hm hd, fun cause => run_of_refusal hreal hm hd,
      fun c => run_of_answer hreal hm hd⟩
  case asked =>
    rw [hreveals.run_eq, calls_reported]
    exact calls_reveal hreal
  case refused =>
    intro cause hverdict hcause
    rw [hreveals.run_eq, reported_fst, reveal_of_granted hreal hverdict, hcause]

lemma selects_lessFiveCall {c : Context} {h : Handle} {x : Ciphertext}
    (hx : c.verified? h = some x) :
    c.Selects (Method.sub.payload (lessFiveCall h)) .sub (.subScalar x 5) := by
  have hfive : Bytes.low64 (Word.ofNat 5).bytes = 5 := by decide
  have hdemand : c.demand (BinaryOp.sub.method.payload (lessFiveCall h)) BinaryOp.sub.method =
      .ok (.produce (.subScalar x (Bytes.low64 (Word.ofNat 5).bytes))) :=
    demand_combineScalar hx rfl rfl
  rw [hfive] at hdemand
  exact Context.selects_of_demand hdemand

/-- An engine that answers in the clear, but takes nothing away. -/
def neverLess : Engine := Clear.engine.failing ⟨"scalar_sub", 0, fun _ => .other "down"⟩

/-- Nothing is asked on behalf of an empty input.  If the answer is withheld, then the engine is
only asked about the requirements.  A difference is asked for once, also in vain. -/
theorem questions_withheld :
    (run ⟨neverLess, fun _ => .zero⟩ [] withheldSession).2.journal.calls = [] ∧
      (run ⟨neverLess, fun _ => .zero⟩ withheldCall withheldSession).2.journal.calls =
        [.produce (.bitAnd (Clear.encode 1 .euint8) (Clear.encode 0 .euint8)),
          .decrypt (Clear.encode 0 .euint8)] ∧
      (run ⟨neverLess, fun _ => .zero⟩ (lessFiveCall withheldAnswer.handle)
        withheldSession).2.journal.calls = [.produce (.subScalar withheldAnswer 5)] ∧
      (run ⟨neverLess, fun _ => .zero⟩ (lessFiveCall withheldAnswer.handle)
        withheldSession).1 = .error (.engine (.other "down")) := by
  have hreal : withheldSession.context.mode ≠ .estimating := withheldSession_reveals.real
  have hverified := withheldSession_reveals.verified
  rw [withheldCall_payload, Handle.ofTail_bytes] at hverified
  have hselects := selects_lessFiveCall hverified
  have hdown : neverLess.produce withheldSession.journal.calls (.subScalar withheldAnswer 5) =
      .error (.other "down") := by decide +kernel
  obtain ⟨hempty, -, -, -⟩ := questions_of_run ⟨neverLess, fun _ => .zero⟩ withheldSession []
  obtain ⟨-, -, -, hdecrypt⟩ :=
    questions_of_run ⟨neverLess, fun _ => .zero⟩ withheldSession withheldCall
  obtain ⟨-, -, hproduce, -⟩ := questions_of_run ⟨neverLess, fun _ => .zero⟩ withheldSession
    (lessFiveCall withheldAnswer.handle)
  obtain ⟨hasked, hrefused, -⟩ :=
    (hproduce hreal .sub (dispatch_encodeCall .sub _) rfl).2 _ hselects
  refine ⟨hempty (.missingSelector 0) rfl rfl, ?_, hasked, (hrefused _ hdown).1⟩
  have hverdict : (withheldSession.verdict ⟨neverLess, fun _ => .zero⟩).1 ≠ .ok true := by
    decide +kernel
  have hcalls := ((hdecrypt hreal withheldSession_reveals.dispatched).2 withheldAnswer
    withheldSession_reveals).1
  rw [if_neg hverdict] at hcalls
  refine hcalls.trans ?_
  decide +kernel

end CipherCalls
