/-
# Which calls can proceed

A host meters a call before it runs it, and takes the price 0 as a sign that the call cannot
proceed.  Metering and execution look at the payload separately, but both begin by resolving it.
Metering prices the demand of the payload, and execution meets it; hence both refuse the same
payloads, for the same reason.  What is left to execution are failures of the engine and of the
requirements.

A cast is the exception.  It is charged as soon as its payload has the right length, and the handle
and the width are looked at during execution only.

For the price 0 to be a sign of refusal, the table must not contain it.
-/
import Mathlib
import CipherCalls.Proofs.Outline
import CipherCalls.Proofs.Performing

namespace CipherCalls

/-! ## Price tables -/

/-- No width is free of charge. -/
def WidthPrices.NoneFree (p : WidthPrices) : Prop := ∀ w, p.get w ≠ 0

/-- Nothing in a price table is free of charge. -/
structure GasCosts.NoneFree (g : GasCosts) : Prop where
  addSub : g.addSub.NoneFree
  bitwise : g.bitwise.NoneFree
  decrypt : g.decrypt.NoneFree
  encrypt : g.encrypt.NoneFree
  require : g.require.NoneFree
  cast : g.cast ≠ 0
  publicKey : g.publicKey ≠ 0

/-- The prices that hold unless a host sets others. -/
lemma GasCosts.noneFree_default : GasCosts.default.NoneFree where
  addSub w := by cases w <;> decide
  bitwise w := by cases w <;> decide
  decrypt w := by cases w <;> decide
  encrypt w := by cases w <;> decide
  require w := by cases w <;> decide
  cast := by decide
  publicKey := by decide

/-! ## Metering -/

namespace Context

variable {c : Context} {m : Method} {payload : Bytes} {d : Demand}

/-- Only padding may be free of charge. -/
lemma price_ne_zero (hprices : c.params.gasCosts.NoneFree) (hd : d ≠ .pad) (supplied : UInt64) :
    c.price supplied payload d ≠ 0 := by
  cases d with
  | produce request =>
      cases request with
      | cast source w => exact hprices.cast
      | encrypt v w => exact hprices.encrypt w
      | bitAnd lhs rhs => exact hprices.bitwise lhs.width
      | add | sub | addScalar | subScalar => exact hprices.addSub _
  | reveal target => exact hprices.decrypt target.width
  | state condition => exact hprices.require condition.width
  | serveKey => exact hprices.publicKey
  | pad => exact absurd rfl hd

/-- A cast of the right length fails because of its handle or its width, but not of its length. -/
lemma resolveCast_ne_invalidLength (hlen : payload.length = 33) (m : Method) (n k : Nat) :
    c.resolveCast payload ≠ .error (.invalidLength m n k) := by
  rw [resolveCast, expectLength_eq_ok_iff.mpr hlen]
  show (do
    let source ← c.resolveHandle .cast (firstSlot payload)
    let width ← parseWidth .cast (payload.getD 32 0)
    return (source, width)) ≠ _
  rw [resolveHandle, parseWidth]
  cases c.verified? (.ofTail (firstSlot payload)) with
  | none => rintro ⟨⟩
  | some source =>
      cases Width.ofByte? (payload.getD 32 0) with
      | none => rintro ⟨⟩
      | some w => rintro ⟨⟩

end Context

/-! ## Execution -/

lemma CallError.isEvaluation_of_isRejection {cause : CallError} (h : cause.isRejection = true) :
    cause.isEvaluation = false := by
  cases cause <;> first | rfl | cases h

/-- Once a payload is resolved, only evaluation can fail, unless the key is asked for. -/
lemma isEvaluation_meet {b : Backend} {m : Method} {payload : Bytes} {d : Demand} {s : Session}
    {cause : CallError} (hd : d ≠ .serveKey) (h : (meet b m payload d s).1 = .error cause) :
    cause.isEvaluation = true := by
  cases d with
  | produce request =>
      rw [meet, reported_fst] at h
      obtain ⟨cause, rfl⟩ := produce_eq_error h
      rfl
  | reveal target =>
      rw [meet, reported_fst] at h
      exact isEvaluation_reveal h
  | state condition => cases h
  | serveKey => exact absurd rfl hd
  | pad => cases h

section Run

variable {b : Backend} {s : Session} {input : Bytes} {m : Method}

/-- The result of a run whose payload is resolved: a success, or a failed evaluation. -/
lemma run_of_demand_ok {d : Demand} (hm : dispatch input = .ok m)
    (hd : s.context.demand (m.payload input) m = .ok d) (hserve : d ≠ .serveKey) :
    (∃ output, (run b input s).1 = .ok output) ∨
      ∃ cause, (run b input s).1 = .error cause ∧ cause.isEvaluation = true := by
  rw [run_of_demand hm hd]
  cases hresult : (meet b m (m.payload input) d s).1 with
  | ok output => exact .inl ⟨output, rfl⟩
  | error cause => exact .inr ⟨cause, rfl, isEvaluation_meet hserve hresult⟩

/-- A run is rejected if and only if its payload does not resolve. -/
lemma rejected_iff (hm : dispatch input = .ok m) (hkey : m ≠ .publicKey) {cause : CallError} :
    (run b input s).1 = .error cause ∧ cause.isRejection = true ↔
      s.context.demand (m.payload input) m = .error cause := by
  constructor
  · rintro ⟨hresult, hrejection⟩
    cases hd : s.context.demand (m.payload input) m with
    | error cause' =>
        rw [run_of_demand_error hm hd] at hresult
        exact congrArg Except.error (Except.error.inj hresult)
    | ok d =>
        have hserve : d ≠ .serveKey := by
          rintro rfl
          exact hkey (Context.demand_eq_serveKey_iff.mp hd)
        rcases run_of_demand_ok (b := b) hm hd hserve with
          ⟨output, houtput⟩ | ⟨cause', hcause', hevaluation⟩
        · rw [houtput] at hresult
          cases hresult
        · obtain rfl := Except.error.inj (hcause'.symm.trans hresult)
          rw [CallError.isEvaluation_of_isRejection hrejection] at hevaluation
          cases hevaluation
  · intro hd
    rw [run_of_demand_error hm hd]
    exact ⟨rfl, s.context.isRejection_of_demand m _ hd⟩

/-- What metering says of a payload that does not resolve. -/
lemma requiredGas_of_demand_error (hm : dispatch input = .ok m) (hcast : m ≠ .cast)
    {cause : CallError} (hd : s.context.demand (m.payload input) m = .error cause)
    (supplied : UInt64) :
    s.context.requiredGas supplied input = ⟨0, [.meteringFailed m cause (m.payload input)]⟩ := by
  rw [Context.requiredGas, hm]
  show s.context.priceMethod supplied (m.payload input) m = _
  rw [Context.priceMethod_eq_orZero hcast, hd]
  rfl

/-- What metering says of a payload that resolves. -/
lemma requiredGas_of_demand_ok (hm : dispatch input = .ok m) (hcast : m ≠ .cast) {d : Demand}
    (hd : s.context.demand (m.payload input) m = .ok d) (supplied : UInt64) :
    s.context.requiredGas supplied input =
      ⟨s.context.price supplied (m.payload input) d, []⟩ := by
  rw [Context.requiredGas, hm]
  show s.context.priceMethod supplied (m.payload input) m = _
  rw [Context.priceMethod_eq_orZero hcast, hd]
  rfl

/-- The price of a cast is 0 if and only if its payload has the wrong length. -/
lemma price_cast_eq_zero_iff (hm : dispatch input = .ok .cast)
    (hprices : s.context.params.gasCosts.NoneFree) (supplied : UInt64) :
    (s.context.requiredGas supplied input).price = 0 ↔ (Method.cast.payload input).length ≠ 33 := by
  rw [Context.requiredGas, hm]
  simp only [Context.priceMethod, Context.priceCast, expectLength]
  split
  · rename_i hlen
    exact iff_of_false hprices.cast (not_not_intro hlen)
  · rename_i hlen
    exact iff_of_true rfl hlen

/-- A run of a cast fails because of its length if and only if this is wrong. -/
lemma run_cast_invalidLength_iff (hm : dispatch input = .ok .cast) :
    (run b input s).1 = .error (.invalidLength .cast (Method.cast.payload input).length 33) ↔
      (Method.cast.payload input).length ≠ 33 := by
  constructor
  · intro hresult hlen
    have hd := (rejected_iff hm (by decide)).mp ⟨hresult, rfl⟩
    rw [Context.demand] at hd
    cases ho : s.context.resolveCast (Method.cast.payload input) with
    | ok o =>
        rw [ho] at hd
        cases hd
    | error cause =>
        rw [ho] at hd
        obtain rfl := Except.error.inj hd
        exact Context.resolveCast_ne_invalidLength hlen _ _ _ ho
  · intro hlen
    exact ((rejected_iff hm (by decide)).mpr
      (Context.demand_of_length (by decide) (by decide) hlen)).1

end Run

/-! ## The main statement -/

/-- **Metering and execution agree on which calls can proceed**, if nothing in the price table is
free of charge:

* an input without a method has the price 0, and running it fails for the lack of a method;
* for the methods that resolve their payload at metering, the price is 0 if and only if running the
  call fails with a rejection, and this is the one that metering reports; if the price is not 0,
  then the call succeeds or evaluation fails;
* a cast has the price 0 if and only if running it fails because of its length. -/
theorem metering_agrees_with_execution (b : Backend) (s : Session) (supplied : UInt64)
    (input : Bytes) (hprices : s.context.params.gasCosts.NoneFree) :
    (∀ cause, dispatch input = .error cause →
      (s.context.requiredGas supplied input).price = 0 ∧ (run b input s).1 = .error cause ∧
        ((∃ n, cause = .missingSelector n) ∨ ∃ selector, cause = .unknownSelector selector)) ∧
    (∀ m ∈ [Method.add, .sub, .bitAnd, .decrypt, .encrypt, .require], dispatch input = .ok m →
      ((s.context.requiredGas supplied input).price = 0 ↔
        ∃ cause, (run b input s).1 = .error cause ∧ cause.isRejection = true) ∧
      (∀ cause, (run b input s).1 = .error cause → cause.isRejection = true →
        (s.context.requiredGas supplied input).events =
          [.meteringFailed m cause (m.payload input)]) ∧
      ((s.context.requiredGas supplied input).price ≠ 0 →
        (∃ output, (run b input s).1 = .ok output) ∨
          ∃ cause, (run b input s).1 = .error cause ∧ cause.isEvaluation = true)) ∧
    (dispatch input = .ok .cast →
      ((s.context.requiredGas supplied input).price = 0 ↔
        (run b input s).1 =
          .error (.invalidLength .cast (Method.cast.payload input).length 33))) := by
  refine ⟨fun cause hm => ⟨?_, ?_, dispatch_eq_error hm⟩, fun m hlisted hm => ?_, fun hm => ?_⟩
  · rw [Context.requiredGas, hm]
  · rw [run_eq, hm]
  · have hkey : m ≠ .publicKey := by
      rintro rfl
      simp at hlisted
    have hcast : m ≠ .cast := by
      rintro rfl
      simp at hlisted
    have hpad : m ≠ .padGas := by
      rintro rfl
      simp at hlisted
    refine ⟨?_, fun cause hresult hrejection => ?_, fun hprice => ?_⟩
    · simp only [rejected_iff hm hkey]
      cases hd : s.context.demand (m.payload input) m with
      | error cause =>
          rw [requiredGas_of_demand_error hm hcast hd]
          exact iff_of_true rfl ⟨cause, rfl⟩
      | ok d =>
          have hcharged : d ≠ .pad := by
            rintro rfl
            exact hpad (Context.demand_eq_pad_iff.mp hd)
          rw [requiredGas_of_demand_ok hm hcast hd]
          exact iff_of_false (Context.price_ne_zero hprices hcharged supplied) (by simp)
    · rw [requiredGas_of_demand_error hm hcast ((rejected_iff hm hkey).mp ⟨hresult, hrejection⟩)]
    · cases hd : s.context.demand (m.payload input) m with
      | error cause =>
          rw [requiredGas_of_demand_error hm hcast hd] at hprice
          exact absurd rfl hprice
      | ok d =>
          refine run_of_demand_ok hm hd ?_
          rintro rfl
          exact hkey (Context.demand_eq_serveKey_iff.mp hd)
  · rw [price_cast_eq_zero_iff hm hprices, run_cast_invalidLength_iff hm]

/-- An encryption to a width that does not exist. -/
def unknownWidthCall : Bytes := encodeCall Method.encrypt.signature [Word.zero.bytes, [9]]

lemma demand_unknownWidthCall (c : Context) :
    c.demand (Method.encrypt.payload unknownWidthCall) .encrypt =
      .error (.invalidWidth .encrypt 9) := by
  rw [unknownWidthCall, payload_encodeCall]
  rfl

/-- The encryption has the price 0 and is rejected, and both for the width.  The decryption is
charged, although a requirement stands against it. -/
theorem refused_or_charged :
    (withheldSession.context.requiredGas 0 unknownWidthCall).price = 0 ∧
      (withheldSession.context.requiredGas 0 unknownWidthCall).events =
        [.meteringFailed .encrypt (.invalidWidth .encrypt 9)
          (Method.encrypt.payload unknownWidthCall)] ∧
      (withheldSession.context.requiredGas 0 withheldCall).price ≠ 0 ∧
      (run ⟨Clear.engine, fun _ => .zero⟩ withheldCall withheldSession).1 = .error .reverted := by
  have hprices : withheldSession.context.params.gasCosts.NoneFree := GasCosts.noneFree_default
  have hverdict : (withheldSession.verdict ⟨Clear.engine, fun _ => .zero⟩).1 = .ok false := by
    decide
  have hm : dispatch unknownWidthCall = .ok .encrypt := dispatch_encodeCall .encrypt _
  have hrejected := (rejected_iff (b := ⟨Clear.engine, fun _ => .zero⟩) hm (by decide)).mpr
    (demand_unknownWidthCall withheldSession.context)
  have hreverted : (run ⟨Clear.engine, fun _ => .zero⟩ withheldCall withheldSession).1 =
      .error .reverted := by
    rw [(withheldSession_reveals.refused (by rw [hverdict]; simp)).1, hverdict]
    rfl
  have h := metering_agrees_with_execution ⟨Clear.engine, fun _ => .zero⟩ withheldSession 0
  refine ⟨?_, ?_, fun hprice => ?_, hreverted⟩
  · exact ((h unknownWidthCall hprices).2.1 .encrypt (by simp) hm).1.mpr ⟨_, hrejected⟩
  · exact ((h unknownWidthCall hprices).2.1 .encrypt (by simp) hm).2.1 _ hrejected.1 hrejected.2
  · -- A revert is not a rejection.
    obtain ⟨cause, hcause, hrejection⟩ := ((h withheldCall hprices).2.1 .decrypt (by simp)
      withheldSession_reveals.dispatched).1.mp hprice
    rw [hreverted] at hcause
    cases hcause
    cases hrejection

end CipherCalls
