/-
# Which payloads resolve

For each kind of payload it is said here exactly when it resolves, and to what: the length has to
be the expected one, every handle has to be visible at the current depth, and the remaining bytes
have to make sense.  The length is looked at first (`demand_of_length`).

Metering prices what a payload resolves to, and nothing if it does not resolve; casts are the
exception (`priceMethod_eq_orZero`).
-/
import Mathlib
import CipherCalls.Proofs.Demand
import CipherCalls.Proofs.Slots

namespace CipherCalls

lemma parseWidth_eq_ok_iff {m : Method} {byte : UInt8} {w : Width} :
    parseWidth m byte = .ok w ↔ Width.ofByte? byte = some w := by
  rw [parseWidth]
  cases Width.ofByte? byte <;> simp

lemma expectLength_of_ne {m : Method} {payload : Bytes} {n : Nat} (h : payload.length ≠ n) :
    expectLength m payload n = .error (.invalidLength m payload.length n) := if_neg h

lemma resolveEncryptWidth_of_length {payload : Bytes} (h : payload.length ≠ 33) :
    resolveEncryptWidth payload = .error (.invalidLength .encrypt payload.length 33) := by
  rw [resolveEncryptWidth, expectLength_of_ne h]
  rfl

lemma resolveEncryptWidth_eq_ok_iff {payload : Bytes} {w : Width} :
    resolveEncryptWidth payload = .ok w ↔
      payload.length = 33 ∧ Width.ofByte? (payload.getD 32 0) = some w := by
  constructor
  · intro h
    obtain ⟨_, hlen, hw⟩ := bind_eq_ok h
    exact ⟨expectLength_eq_ok_iff.mp hlen, parseWidth_eq_ok_iff.mp hw⟩
  · rintro ⟨hlen, hw⟩
    rw [resolveEncryptWidth, expectLength_eq_ok_iff.mpr hlen]
    exact parseWidth_eq_ok_iff.mpr hw

namespace Context

variable {c : Context} {payload : Bytes}

lemma resolveTarget_of_length {m : Method} (h : payload.length ≠ 32) :
    c.resolveTarget m payload = .error (.invalidLength m payload.length 32) := by
  rw [resolveTarget, expectLength_of_ne h]
  rfl

lemma resolveCast_of_length (h : payload.length ≠ 33) :
    c.resolveCast payload = .error (.invalidLength .cast payload.length 33) := by
  rw [resolveCast, expectLength_of_ne h]
  rfl

lemma resolveCast_eq_ok_iff {source : Ciphertext} {w : Width} :
    c.resolveCast payload = .ok (source, w) ↔
      payload.length = 33 ∧ c.verified? (.ofTail (firstSlot payload)) = some source ∧
        Width.ofByte? (payload.getD 32 0) = some w := by
  constructor
  · intro h
    obtain ⟨_, hlen, h⟩ := bind_eq_ok h
    obtain ⟨source', hsource, h⟩ := bind_eq_ok h
    obtain ⟨w', hw, h⟩ := bind_eq_ok h
    cases h
    exact ⟨expectLength_eq_ok_iff.mp hlen, resolveHandle_eq_ok_iff.mp hsource,
      parseWidth_eq_ok_iff.mp hw⟩
  · rintro ⟨hlen, hsource, hw⟩
    rw [resolveCast, expectLength_eq_ok_iff.mpr hlen, resolveHandle_eq_ok_iff.mpr hsource,
      parseWidth_eq_ok_iff.mpr hw]
    rfl

variable {op : BinaryOp} {o : Operands}

lemma resolveBinary_of_length (h : payload.length ≠ 65) :
    c.resolveBinary op payload = .error (.invalidLength op.method payload.length 65) := by
  rw [resolveBinary, isScalar, expectLength_of_ne h]
  rfl

lemma resolveBinary_of_scalar (h : payload.length = 65) (hflag : payload.getD 64 0 = 1) :
    c.resolveBinary op payload =
      if op.supportsScalar then
        (c.resolveHandle op.method (firstSlot payload)).map
          (.scalar · (Bytes.low64 (secondSlot payload)))
      else .error (.scalarNotSupported op.method) := by
  rw [resolveBinary, isScalar, expectLength_eq_ok_iff.mpr h, hflag]
  cases op <;> rfl

lemma resolveBinary_of_encrypted (h : payload.length = 65) (hflag : payload.getD 64 0 ≠ 1) :
    c.resolveBinary op payload = (do
      let lhs ← c.resolveHandle op.method (firstSlot payload)
      let rhs ← c.resolveHandle op.method (secondSlot payload)
      if lhs.width = rhs.width then .ok (.encrypted lhs rhs)
      else .error (.widthMismatch op.method lhs.width rhs.width)) := by
  rw [resolveBinary, isScalar, expectLength_eq_ok_iff.mpr h]
  show (if (decide (payload.getD 64 0 = 1)) = true then _ else _ : Except CallError Operands) = _
  rw [if_neg (by simpa using hflag)]
  cases c.resolveHandle op.method (firstSlot payload) with
  | error cause => rfl
  | ok lhs =>
      cases c.resolveHandle op.method (secondSlot payload) with
      | error cause => rfl
      | ok rhs =>
          simp only [ne_eq, ite_not]
          rfl

lemma resolveBinary_eq_scalar_iff {lhs : Ciphertext} {rhs : UInt64} :
    c.resolveBinary op payload = .ok (.scalar lhs rhs) ↔
      payload.length = 65 ∧ payload.getD 64 0 = 1 ∧ op.supportsScalar ∧
        c.verified? (.ofTail (firstSlot payload)) = some lhs ∧
        Bytes.low64 (secondSlot payload) = rhs := by
  by_cases hlen : payload.length = 65
  · by_cases hflag : payload.getD 64 0 = 1
    · rw [resolveBinary_of_scalar hlen hflag, ← resolveHandle_eq_ok_iff (m := op.method)]
      simp only [hlen, hflag, true_and]
      cases op.supportsScalar <;>
        cases c.resolveHandle op.method (firstSlot payload) <;> simp [Except.map]
    · rw [resolveBinary_of_encrypted hlen hflag]
      refine iff_of_false (fun h => ?_) fun h => hflag h.2.1
      obtain ⟨x, -, h⟩ := bind_eq_ok h
      obtain ⟨y, -, h⟩ := bind_eq_ok h
      split at h <;> cases h
  · rw [resolveBinary_of_length hlen]
    simp [hlen]

lemma resolveBinary_eq_encrypted_iff {lhs rhs : Ciphertext} :
    c.resolveBinary op payload = .ok (.encrypted lhs rhs) ↔
      payload.length = 65 ∧ payload.getD 64 0 ≠ 1 ∧
        c.verified? (.ofTail (firstSlot payload)) = some lhs ∧
        c.verified? (.ofTail (secondSlot payload)) = some rhs ∧ lhs.width = rhs.width := by
  by_cases hlen : payload.length = 65
  · by_cases hflag : payload.getD 64 0 = 1
    · rw [resolveBinary_of_scalar hlen hflag]
      refine iff_of_false (fun h => ?_) fun h => h.2.1 hflag
      split at h
      · obtain ⟨_, -, h⟩ := map_eq_ok h
        cases h
      · cases h
    · rw [resolveBinary_of_encrypted hlen hflag]
      constructor
      · intro h
        obtain ⟨x, hx, h⟩ := bind_eq_ok h
        obtain ⟨y, hy, h⟩ := bind_eq_ok h
        split at h <;> cases h
        exact ⟨hlen, hflag, resolveHandle_eq_ok_iff.mp hx, resolveHandle_eq_ok_iff.mp hy, ‹_›⟩
      · rintro ⟨-, -, hx, hy, hw⟩
        rw [resolveHandle_eq_ok_iff.mpr hx, resolveHandle_eq_ok_iff.mpr hy]
        exact if_pos hw
  · rw [resolveBinary_of_length hlen]
    simp [hlen]

/-- What resolves makes a request. -/
lemma request_of_resolveBinary (h : c.resolveBinary op payload = .ok o) :
    ∃ request, op.request o = .ok request := by
  cases o with
  | encrypted lhs rhs => cases op <;> exact ⟨_, rfl⟩
  | scalar lhs rhs =>
      have hscalar := (resolveBinary_eq_scalar_iff.mp h).2.2.1
      cases op with
      | add | sub => exact ⟨_, rfl⟩
      | bitAnd => cases hscalar

/-- What a method with two operands demands. -/
lemma demand_of_resolveBinary {request : Engine.Request} (ho : c.resolveBinary op payload = .ok o)
    (hrequest : op.request o = .ok request) :
    c.demand payload op.method = .ok (.produce request) := by
  have hbind : (c.resolveBinary op payload >>= op.request) = .ok request := by
    rw [ho]
    exact hrequest
  cases op <;> (rw [BinaryOp.method, Context.demand, hbind]; rfl)

/-- Every method but the one for the public key and padding looks at the length of its payload
first. -/
lemma demand_of_length {m : Method} (hkey : m ≠ .publicKey) (hpad : m ≠ .padGas)
    (h : payload.length ≠ m.payloadLength) :
    c.demand payload m = .error (.invalidLength m payload.length m.payloadLength) := by
  cases m with
  | add | sub | bitAnd =>
      rw [demand, resolveBinary_of_length h]
      rfl
  | cast =>
      rw [demand, resolveCast_of_length h]
      rfl
  | decrypt | require =>
      rw [demand, resolveTarget_of_length h]
      rfl
  | encrypt =>
      rw [demand, resolveEncryptWidth_of_length h]
      rfl
  | publicKey => exact absurd rfl hkey
  | padGas => exact absurd rfl hpad

/-- What a word and a width demand to be encrypted. -/
lemma demand_encrypt_append (w : Word) (width : Width) :
    c.demand (w.bytes ++ [width.toByte]) .encrypt =
      .ok (.produce (.encrypt (Bytes.low64 w.bytes) width)) := by
  have hresolved : resolveEncryptWidth (w.bytes ++ [width.toByte]) = .ok width := by
    rw [resolveEncryptWidth_eq_ok_iff, getD_append_singleton w.length_bytes]
    exact ⟨by simp [w.length_bytes], Width.ofByte?_toByte width⟩
  rw [Context.demand, hresolved, firstSlot_append w.length_bytes]
  rfl

/-! ## Prices -/

variable {m : Method} {demand : Demand} {cause : CallError}

/-- Except for casts, metering prices the demand of a payload. -/
theorem priceMethod_eq_orZero (hm : m ≠ .cast) (supplied : UInt64) :
    c.priceMethod supplied payload m =
      orZero m payload ((c.demand payload m).map (c.price supplied payload)) := by
  cases m with
  | add | sub | bitAnd =>
      rw [priceMethod, priceBinary, demand]
      cases ho : c.resolveBinary _ payload with
      | error cause => rfl
      | ok o =>
          obtain ⟨request, hrequest⟩ := request_of_resolveBinary ho
          cases o <;> cases hrequest <;> rfl
  | cast => exact absurd rfl hm
  | decrypt | require =>
      rw [priceMethod, priceTarget, demand]
      cases c.resolveTarget _ payload <;> rfl
  | encrypt =>
      rw [priceMethod, priceEncrypt, demand]
      cases resolveEncryptWidth payload <;> rfl
  | publicKey | padGas => rfl

/-- The price of a call is read off its demand. -/
theorem price_of_demand (h : c.demand payload m = .ok demand) (supplied : UInt64) :
    (c.priceMethod supplied payload m).price = c.price supplied payload demand := by
  by_cases hm : m = .cast
  · -- Metering checks nothing but the length, which is right for a payload that resolves.
    subst hm
    obtain ⟨⟨source, width⟩, ho, rfl⟩ := map_eq_ok h
    obtain ⟨_, hlen, _⟩ := bind_eq_ok ho
    simp only [priceMethod, priceCast, hlen]
    rfl
  · rw [priceMethod_eq_orZero hm, h]
    rfl

/-- The price of a payload that does not resolve: a cast is charged as soon as its length is
right. -/
lemma price_of_demand_error (h : c.demand payload m = .error cause) (supplied : UInt64) :
    (c.priceMethod supplied payload m).price =
      if m = .cast ∧ payload.length = 33 then c.params.gasCosts.cast else 0 := by
  by_cases hm : m = .cast
  · subst hm
    simp only [true_and, priceMethod, priceCast, expectLength]
    split <;> rfl
  · rw [priceMethod_eq_orZero hm, h, if_neg fun h => hm h.1]
    rfl

end Context

end CipherCalls
