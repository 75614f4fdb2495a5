/-
# What a call demands

A call is run in two stages.  First its payload is resolved, which depends on the context alone
and changes nothing; what comes out is a *demand*: a request for a ciphertext, a ciphertext to
reveal, a condition to state, the public key, or nothing.  Then the demand is met.

Metering goes through the same first stage, and prices the demand.  Therefore most properties of a
call are properties of the demand: the main statements are

* `runMethod_eq_meet`: running a method is resolving its payload and meeting the demand;
* `isRejection_of_demand`: what stops the first stage is never an engine error and never a revert.
-/
import Mathlib
import CipherCalls.Dispatch

namespace CipherCalls

section Results

variable {ε α β : Type} {x : Except ε α}

lemma map_eq_ok {f : α → β} {y : β} (h : x.map f = .ok y) : ∃ a, x = .ok a ∧ f a = y := by
  cases x with
  | error => cases h
  | ok a => exact ⟨a, rfl, Except.ok.inj h⟩

lemma bind_eq_ok {f : α → Except ε β} {y : β} (h : x >>= f = .ok y) :
    ∃ a, x = .ok a ∧ f a = .ok y := by
  cases x with
  | error => cases h
  | ok a => exact ⟨a, rfl, h⟩

end Results

/-- What a payload asks for, once it is resolved. -/
inductive Demand where
  /-- A new ciphertext. -/
  | produce (request : Engine.Request)
  /-- The plaintext of a ciphertext. -/
  | reveal (target : Ciphertext)
  /-- One more requirement. -/
  | state (condition : Ciphertext)
  /-- The public key. -/
  | serveKey
  /-- Nothing but a price. -/
  | pad
deriving DecidableEq

/-- The demand of a payload that is sent to a method. -/
def Context.demand (c : Context) (payload : Bytes) : Method → Except CallError Demand
  | .add => (c.resolveBinary .add payload >>= BinaryOp.request .add).map .produce
  | .sub => (c.resolveBinary .sub payload >>= BinaryOp.request .sub).map .produce
  | .bitAnd => (c.resolveBinary .bitAnd payload >>= BinaryOp.request .bitAnd).map .produce
  | .cast => (c.resolveCast payload).map fun o => .produce (.cast o.1 o.2)
  | .decrypt => (c.resolveTarget .decrypt payload).map .reveal
  | .publicKey => .ok .serveKey
  | .encrypt => (resolveEncryptWidth payload).map fun w =>
      .produce (.encrypt (Bytes.low64 (firstSlot payload)) w)
  | .require => (c.resolveTarget .require payload).map .state
  | .padGas => .ok .pad

/-! ## Meeting a demand -/

/-- How the success of a request on behalf of a payload is reported. -/
def Engine.Request.event (payload : Bytes) : Engine.Request → Handle → Event
  | add _ _ => .combined .add (.ofTail (firstSlot payload)) (.ofTail (secondSlot payload))
  | sub _ _ => .combined .sub (.ofTail (firstSlot payload)) (.ofTail (secondSlot payload))
  | bitAnd _ _ => .combined .bitAnd (.ofTail (firstSlot payload)) (.ofTail (secondSlot payload))
  | addScalar _ rhs => .combinedScalar .add (.ofTail (firstSlot payload)) rhs
  | subScalar _ rhs => .combinedScalar .sub (.ofTail (firstSlot payload)) rhs
  | cast _ w => .recast (.ofTail (firstSlot payload)) w
  | encrypt v w => .encrypted v w

/-- The plaintext of a ciphertext is revealed once the requirements are settled. -/
def reveal (b : Backend) (payload : Bytes) (target : Ciphertext) (s : Session) : Outcome Bytes :=
  if s.context.mode = .estimating then (.ok Word.full.bytes, s)
  else
    match settleRequires b s with
    | (.error cause, s) => (.error cause, s)
    | (.ok (), s) =>
      match s.journal.decrypt b.engine target with
      | (.error cause, journal) => (.error (.engine cause), { s with journal })
      | (.ok value, journal) =>
        (.ok (Word.ofUInt64 value).bytes,
          { s with journal }.logCommitted (.decrypted (.ofTail payload)))

/-- A demand is met. -/
def meet (b : Backend) (m : Method) (payload : Bytes) : Demand → Session → Outcome Bytes
  | .produce request, s => reported m payload (produce b request (request.event payload) s)
  | .reveal target, s => reported m payload (reveal b payload target s)
  | .state condition, s => (.ok [], { s with context := s.context.require condition })
  | .serveKey, s => runPublicKey payload s
  | .pad, s => (.ok [], s)

lemma combinedEvent_eq {op : BinaryOp} {o : Operands} {request : Engine.Request}
    (h : op.request o = .ok request) (payload : Bytes) :
    combinedEvent op payload o = request.event payload := by
  cases op <;> cases o <;> cases h <;> rfl

lemma runBinary_eq (b : Backend) (op : BinaryOp) (payload : Bytes) (s : Session) :
    runBinary b op payload s =
      match s.context.resolveBinary op payload >>= op.request with
      | .error cause => (.error cause, s)
      | .ok request => produce b request (request.event payload) s := by
  rw [runBinary]
  cases s.context.resolveBinary op payload with
  | error cause => rfl
  | ok operands =>
      show (match op.request operands with | .error cause => _ | .ok request => _) =
        match op.request operands with | .error cause => _ | .ok request => _
      cases hr : op.request operands with
      | error cause => rfl
      | ok request => simp only [combinedEvent_eq hr]

lemma runDecrypt_eq (b : Backend) (payload : Bytes) (s : Session) :
    runDecrypt b payload s =
      match s.context.resolveTarget .decrypt payload with
      | .error cause => (.error cause, s)
      | .ok target => reveal b payload target s := by
  rw [runDecrypt]
  cases s.context.resolveTarget .decrypt payload with
  | error cause => rfl
  | ok target =>
      simp only [reveal]
      split
      · rfl
      · rcases settleRequires b s with ⟨⟨⟩ | ⟨⟩, s'⟩
        · rfl
        · simp only
          rcases s'.journal.decrypt b.engine target with ⟨⟨⟩ | ⟨⟩, journal⟩ <;> rfl

/-- Running a method is resolving its payload and meeting the demand. -/
theorem runMethod_eq_meet (b : Backend) (payload : Bytes) (s : Session) (m : Method) :
    runMethod b payload s m =
      match s.context.demand payload m with
      | .error cause => (.error cause, s.log (.runFailed m cause payload))
      | .ok demand => meet b m payload demand s := by
  cases m with
  | add | sub | bitAnd =>
      simp only [runMethod, runBinary_eq, Context.demand]
      cases s.context.resolveBinary _ payload >>= BinaryOp.request _ <;> rfl
  | cast =>
      simp only [runMethod, runCast, Context.demand]
      cases s.context.resolveCast payload <;> rfl
  | decrypt =>
      simp only [runMethod, runDecrypt_eq, Context.demand]
      cases s.context.resolveTarget .decrypt payload <;> rfl
  | publicKey => rfl
  | encrypt =>
      simp only [runMethod, runEncrypt, Context.demand]
      cases resolveEncryptWidth payload <;> rfl
  | require =>
      simp only [runMethod, runRequire, Context.demand]
      cases s.context.resolveTarget .require payload <;> rfl
  | padGas => rfl

/-! ## Demands for a single handle -/

lemma expectLength_eq_ok_iff {m : Method} {payload : Bytes} {n : Nat} :
    expectLength m payload n = .ok () ↔ payload.length = n := by
  rw [expectLength]
  split <;> simp [*]

namespace Context

variable {c : Context} {m : Method} {payload : Bytes} {ct : Ciphertext}

lemma resolveHandle_eq_ok_iff {bytes : Bytes} :
    c.resolveHandle m bytes = .ok ct ↔ c.verified? (.ofTail bytes) = some ct := by
  rw [resolveHandle]
  cases c.verified? (.ofTail bytes) <;> simp

lemma resolveTarget_eq_ok_iff :
    c.resolveTarget m payload = .ok ct ↔
      payload.length = 32 ∧ c.verified? (.ofTail payload) = some ct := by
  constructor
  · intro h
    obtain ⟨_, hlen, hct⟩ := bind_eq_ok h
    exact ⟨expectLength_eq_ok_iff.mp hlen, resolveHandle_eq_ok_iff.mp hct⟩
  · rintro ⟨hlen, hct⟩
    rw [resolveTarget, expectLength_eq_ok_iff.mpr hlen]
    exact resolveHandle_eq_ok_iff.mpr hct

/-- Only a decryption asks for a plaintext: that of the ciphertext its payload names. -/
lemma demand_eq_reveal_iff :
    c.demand payload m = .ok (.reveal ct) ↔
      m = .decrypt ∧ payload.length = 32 ∧ c.verified? (.ofTail payload) = some ct := by
  constructor
  · intro h
    cases m with
    | decrypt =>
        obtain ⟨ct', hct, hreveal⟩ := map_eq_ok h
        cases hreveal
        exact ⟨rfl, resolveTarget_eq_ok_iff.mp hct⟩
    | publicKey | padGas => cases h
    | add | sub | bitAnd | cast | encrypt | require =>
        obtain ⟨_, _, hreveal⟩ := map_eq_ok h
        cases hreveal
  · rintro ⟨rfl, hresolved⟩
    rw [demand, resolveTarget_eq_ok_iff.mpr hresolved]
    rfl

/-- Only a requirement states a condition: the ciphertext its payload names. -/
lemma demand_eq_state_iff :
    c.demand payload m = .ok (.state ct) ↔
      m = .require ∧ payload.length = 32 ∧ c.verified? (.ofTail payload) = some ct := by
  constructor
  · intro h
    cases m with
    | require =>
        obtain ⟨ct', hct, hstate⟩ := map_eq_ok h
        cases hstate
        exact ⟨rfl, resolveTarget_eq_ok_iff.mp hct⟩
    | publicKey | padGas => cases h
    | add | sub | bitAnd | cast | encrypt | decrypt =>
        obtain ⟨_, _, hstate⟩ := map_eq_ok h
        cases hstate
  · rintro ⟨rfl, hresolved⟩
    rw [demand, resolveTarget_eq_ok_iff.mpr hresolved]
    rfl

/-- Only a call for the key asks for the key. -/
lemma demand_eq_serveKey_iff : c.demand payload m = .ok .serveKey ↔ m = .publicKey := by
  constructor
  · intro h
    cases m with
    | publicKey => rfl
    | padGas => cases h
    | add | sub | bitAnd | cast | decrypt | encrypt | require =>
        obtain ⟨_, _, hserve⟩ := map_eq_ok h
        cases hserve
  · rintro rfl
    rfl

/-- Only padding asks for nothing. -/
lemma demand_eq_pad_iff : c.demand payload m = .ok .pad ↔ m = .padGas := by
  constructor
  · intro h
    cases m with
    | padGas => rfl
    | publicKey => cases h
    | add | sub | bitAnd | cast | decrypt | encrypt | require =>
        obtain ⟨_, _, hpad⟩ := map_eq_ok h
        cases hpad
  · rintro rfl
    rfl

end Context

/-! ## Rejections -/

/-- Whether a failure is found while the payload is resolved. -/
def CallError.isRejection : CallError → Bool
  | invalidLength .. | invalidWidth .. | unverified .. | widthMismatch .. | scalarNotSupported .. =>
    true
  | _ => false

lemma CallError.isRevert_of_isRejection {cause : CallError} (h : cause.isRejection = true) :
    cause.isRevert = false := by
  cases cause <;> first | rfl | cases h

/-- A computation that fails with rejections only. -/
def OnlyRejects {α : Type} (x : Except CallError α) : Prop :=
  ∀ cause, x = .error cause → cause.isRejection = true

namespace OnlyRejects

variable {α β : Type} {x : Except CallError α}

lemma ok (a : α) : OnlyRejects (.ok a) := by
  rintro _ ⟨⟩

lemma error {cause : CallError} (h : cause.isRejection = true) :
    OnlyRejects (.error cause : Except CallError α) := by
  rintro _ ⟨⟩
  exact h

lemma bind {f : α → Except CallError β} (hx : OnlyRejects x) (hf : ∀ a, OnlyRejects (f a)) :
    OnlyRejects (x >>= f) := by
  cases x with
  | error cause => exact error (hx cause rfl)
  | ok a => exact hf a

lemma map {f : α → β} (hx : OnlyRejects x) : OnlyRejects (x.map f) := by
  cases x with
  | error cause => exact error (hx cause rfl)
  | ok a => exact ok (f a)

end OnlyRejects

lemma onlyRejects_expectLength (m : Method) (payload : Bytes) (n : Nat) :
    OnlyRejects (expectLength m payload n) := by
  rw [expectLength]
  split
  · exact .ok _
  · exact .error rfl

lemma onlyRejects_parseWidth (m : Method) (byte : UInt8) : OnlyRejects (parseWidth m byte) := by
  rw [parseWidth]
  split
  · exact .ok _
  · exact .error rfl

lemma onlyRejects_request (op : BinaryOp) (o : Operands) : OnlyRejects (op.request o) := by
  cases op <;> cases o <;> first | exact .ok _ | exact .error rfl

namespace Context

variable (c : Context) (m : Method) (payload : Bytes)

lemma onlyRejects_resolveHandle (bytes : Bytes) : OnlyRejects (c.resolveHandle m bytes) := by
  rw [resolveHandle]
  split
  · exact .ok _
  · exact .error rfl

lemma onlyRejects_resolveBinary (op : BinaryOp) : OnlyRejects (c.resolveBinary op payload) := by
  rw [resolveBinary]
  refine .bind (.bind (onlyRejects_expectLength _ _ _) fun _ => .ok _) fun scalar => ?_
  cases scalar with
  | true =>
      have hscalar : OnlyRejects (do
          let lhs ← c.resolveHandle op.method (firstSlot payload)
          return Operands.scalar lhs (Bytes.low64 (secondSlot payload))) :=
        .bind (c.onlyRejects_resolveHandle _ _) fun _ => .ok _
      cases op with
      | add => exact hscalar
      | sub => exact hscalar
      | bitAnd => exact .error rfl
  | false =>
      -- The widths are compared only after both handles were found.
      refine .bind (c.onlyRejects_resolveHandle _ _) fun lhs => ?_
      refine .bind (c.onlyRejects_resolveHandle _ _) fun rhs => ?_
      by_cases hw : lhs.width = rhs.width
      · simp only [hw, ne_eq, not_true_eq_false, if_false]
        exact .ok _
      · simp only [hw, ne_eq, not_false_eq_true, if_true]
        exact .bind (.error rfl) fun _ => .ok _

lemma onlyRejects_resolveTarget : OnlyRejects (c.resolveTarget m payload) :=
  .bind (onlyRejects_expectLength _ _ _) fun _ => c.onlyRejects_resolveHandle _ _

/-- What stops a payload from being resolved is a rejection. -/
theorem isRejection_of_demand {cause : CallError} (h : c.demand payload m = .error cause) :
    cause.isRejection = true := by
  refine (?_ : OnlyRejects (c.demand payload m)) cause h
  cases m with
  | add | sub | bitAnd =>
      exact .map (.bind (c.onlyRejects_resolveBinary _ _) fun _ => onlyRejects_request _ _)
  | cast =>
      refine .map (.bind (onlyRejects_expectLength _ _ _) fun _ => ?_)
      refine .bind (c.onlyRejects_resolveHandle _ _) fun _ => ?_
      exact .bind (onlyRejects_parseWidth _ _) fun _ => .ok _
  | decrypt | require => exact .map (c.onlyRejects_resolveTarget _ _)
  | publicKey | padGas => exact .ok _
  | encrypt =>
      exact .map (.bind (onlyRejects_expectLength _ _ _) fun _ => onlyRejects_parseWidth _ _)

end Context

/-! ## Prices -/

namespace Context

/-- The price of a demand, when some gas was supplied. -/
def price (c : Context) (supplied : UInt64) (payload : Bytes) : Demand → UInt64
  | .produce (.cast _ _) => c.params.gasCosts.cast
  | .produce (.encrypt _ w) => c.params.gasCosts.encrypt.get w
  | .produce (.bitAnd lhs _) => c.params.gasCosts.bitwise.get lhs.width
  | .produce request => c.params.gasCosts.addSub.get request.width
  | .reveal target => c.params.gasCosts.decrypt.get target.width
  | .state condition => c.params.gasCosts.require.get condition.width
  | .serveKey => c.params.gasCosts.publicKey
  | .pad => c.pricePadding supplied payload

end Context

end CipherCalls
