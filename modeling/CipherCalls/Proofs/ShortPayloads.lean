/-
# Payloads that are too short

Bytes behind the declared length of a payload are ignored, but no byte may be missing.  A method
that declares a length refuses a payload that is shorter: the price is 0, the report names the two
lengths, the engine is not asked, and nothing is registered or stated.

The public key has a payload that may be left out, and is not considered here.  Padding declares 32
bytes and does not check them.  Of a short payload it takes the number as if the missing bytes were
zeros in front.
-/
import Mathlib
import CipherCalls.Proofs.Padding
import CipherCalls.Proofs.Pending

namespace CipherCalls

/-- The call of a method with a payload. -/
def callOf (m : Method) (payload : Bytes) : Bytes := selectorBytes m.selector ++ payload

/-- A call is refused because its payload does not have the declared length, before anything has
happened. -/
structure RefusedForLength (b : Backend) (s : Session) (supplied : UInt64) (m : Method)
    (payload : Bytes) : Prop where
  price_eq : (s.context.requiredGas supplied (callOf m payload)).price = 0
  result_eq : (run b (callOf m payload) s).1 =
    .error (.invalidLength m payload.length m.payloadLength)
  calls_eq : (run b (callOf m payload) s).2.journal.calls = s.journal.calls
  registry_eq : (run b (callOf m payload) s).2.context.vault.registry = s.context.vault.registry
  pending_eq : (run b (callOf m payload) s).2.pending = s.pending

/-! ## Calls whose payload is not cut -/

section CallOf

lemma dispatch_callOf (m : Method) (payload : Bytes) : dispatch (callOf m payload) = .ok m :=
  dispatch_selectorBytes m payload

variable {m : Method} {payload : Bytes}

lemma payload_callOf (h : payload.length ≤ m.payloadLength) :
    m.payload (callOf m payload) = payload := by
  rw [callOf, Method.payload_selectorBytes, List.take_of_length_le h]

lemma requiredGas_callOf (h : payload.length ≤ m.payloadLength) (c : Context) (supplied : UInt64) :
    c.requiredGas supplied (callOf m payload) = c.priceMethod supplied payload m := by
  rw [Context.requiredGas, dispatch_callOf]
  simp only [payload_callOf h]

end CallOf

/-! ## Refusal -/

section Refused

variable {b : Backend} {s : Session} {m : Method} {payload : Bytes}

/-- A method that checks its declared length refuses a shorter payload. -/
lemma refusedForLength (hkey : m ≠ .publicKey) (hpad : m ≠ .padGas)
    (hshort : payload.length < m.payloadLength) (supplied : UInt64) :
    RefusedForLength b s supplied m payload := by
  have hd : s.context.demand payload m =
      .error (.invalidLength m payload.length m.payloadLength) :=
    Context.demand_of_length hkey hpad hshort.ne
  have hrun := run_of_demand_error (b := b) (dispatch_callOf m payload)
    (by rw [payload_callOf hshort.le, hd])
  have hcast : ¬(m = .cast ∧ payload.length = 33) := by
    rintro ⟨rfl, hlen⟩
    exact hshort.ne hlen
  refine ⟨?_, by rw [hrun], by rw [hrun, Session.calls_log], by rw [hrun, Session.context_log], ?_⟩
  · rw [requiredGas_callOf hshort.le, Context.price_of_demand_error hd, if_neg hcast]
  · rw [hrun, Session.pending, Session.context_log]
    rfl

/-- Padding runs on a payload of any length, and leaves no trace. -/
lemma run_callOf_padGas (b : Backend) (s : Session) (payload : Bytes) :
    run b (callOf .padGas payload) s = (.ok [], s) := by
  rw [run, dispatch_callOf]
  rfl

lemma not_refusedForLength_padGas {supplied : UInt64} :
    ¬RefusedForLength b s supplied .padGas payload := by
  intro h
  have hresult := h.result_eq
  rw [run_callOf_padGas] at hresult
  cases hresult

end Refused

/-! ## The main statement -/

/-- **A payload that is too short is refused, except by padding.**  The price of the call is 0, and
running it fails for the two lengths, without a question to the engine, a registration or a change
to the pending requirements.  Padding succeeds instead and changes nothing, and its price is what is
missing to the number that the payload denotes. -/
theorem short_payload_refused_iff (b : Backend) (s : Session) (supplied : UInt64) (m : Method)
    (payload : Bytes) (hkey : m ≠ .publicKey) (hshort : payload.length < m.payloadLength) :
    (RefusedForLength b s supplied m payload ↔ m ≠ .padGas) ∧
    (m = .padGas →
      run b (callOf m payload) s = (.ok [], s) ∧
        (s.context.requiredGas supplied (callOf m payload)).price.toNat =
          Bytes.toNatBE payload % 2 ^ 64 - s.context.consumed supplied) := by
  refine ⟨⟨?_, fun hpad => refusedForLength hkey hpad hshort supplied⟩, ?_⟩
  · rintro hrefused rfl
    exact not_refusedForLength_padGas hrefused
  · rintro rfl
    refine ⟨run_callOf_padGas b s payload, ?_⟩
    rw [requiredGas_callOf hshort.le]
    exact s.context.toNat_pricePadding supplied payload

/-- A cast without its width is refused, and so is a decryption without a handle. -/
theorem cast_without_width_refused :
    RefusedForLength ⟨Clear.engine, fun _ => .zero⟩ withheldSession 0 .cast
        withheldAnswer.handle.bytes ∧
      RefusedForLength ⟨Clear.engine, fun _ => .zero⟩ withheldSession 0 .decrypt [] := by
  have hlen : withheldAnswer.handle.bytes.length < Method.cast.payloadLength := by
    rw [Handle.length_bytes]
    decide
  exact ⟨(short_payload_refused_iff _ _ _ _ _ (by decide) hlen).1.mpr (by decide),
    (short_payload_refused_iff _ _ _ _ _ (by decide) (by decide)).1.mpr (by decide)⟩

/-- Padding with a single byte is charged and succeeds, although 32 bytes are declared. -/
theorem short_padding_accepted :
    [(5 : UInt8)].length < Method.padGas.payloadLength ∧
      ((Session.fresh { mode := .committing }).context.requiredGas 30000000
        (callOf .padGas [5])).price = 5 ∧
      (run ⟨Clear.engine, fun _ => .zero⟩ (callOf .padGas [5])
        (.fresh { mode := .committing })).1 = .ok [] ∧
      ¬RefusedForLength ⟨Clear.engine, fun _ => .zero⟩ (.fresh { mode := .committing }) 30000000
        .padGas [5] := by
  have hshort : [(5 : UInt8)].length < Method.padGas.payloadLength := by decide
  refine ⟨hshort, ?_, by rw [run_callOf_padGas], not_refusedForLength_padGas⟩
  rw [requiredGas_callOf hshort.le]
  decide

end CipherCalls
