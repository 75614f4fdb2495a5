/-
# Calls with guarded accesses

Metering and running are restated here with guarded accesses to the input, the payload, the digests
of the signatures and the key: wherever a call looks into a byte string, it does so by a slice or a
byte that may be a trap.  This includes the slots that are read once more for the report of a
success, after the operands were resolved.

The main statement is that no trap is met, and that guarding makes no difference otherwise.  What
stands behind it is that a payload with the wrong length fails before it is looked into, so that a
payload which resolved has its length wherever it is looked into later.
-/
import Mathlib
import CipherCalls.Dispatch
import CipherCalls.Proofs.Access
import CipherCalls.Proofs.Resolution

namespace CipherCalls.Guarded

/-- A payload that is resolved with guarded accesses. -/
abbrev Resolving (α : Type) := ExceptT CallError (Except Trap) α

/-- A result that is found without any access. -/
def settled {α : Type} (x : Except CallError α) : Resolving α := ExceptT.mk (.ok x)

/-! ## Resolving -/

/-- Whether the flag behind two words says that the second one is a plain number. -/
def isScalar (m : Method) (payload : Bytes) : Resolving Bool := do
  settled (expectLength m payload 65)
  return (← byte payload 64) = 1

/-- The ciphertext whose handle ends a byte string. -/
def resolveHandle (c : Context) (m : Method) (bytes : Bytes) : Resolving Ciphertext := do
  let handle ← readHandle bytes
  match c.verified? handle with
  | some ct => return ct
  | none => throw (CallError.unverified m handle)

/-- The operands of a method with two operands. -/
def resolveBinary (c : Context) (op : BinaryOp) (payload : Bytes) : Resolving Operands := do
  if ← isScalar op.method payload then
    if !op.supportsScalar then throw (CallError.scalarNotSupported op.method)
    let lhs ← resolveHandle c op.method (← slice payload 0 32)
    return .scalar lhs (← readNumber (← slice payload 32 64))
  let lhs ← resolveHandle c op.method (← slice payload 0 32)
  let rhs ← resolveHandle c op.method (← slice payload 32 64)
  if lhs.width ≠ rhs.width then throw (CallError.widthMismatch op.method lhs.width rhs.width)
  return .encrypted lhs rhs

/-- The ciphertext and the new width of a cast. -/
def resolveCast (c : Context) (payload : Bytes) : Resolving (Ciphertext × Width) := do
  settled (expectLength .cast payload 33)
  let source ← resolveHandle c .cast (← slice payload 0 32)
  let width ← settled (parseWidth .cast (← byte payload 32))
  return (source, width)

/-- The ciphertext of a method whose only argument is a handle. -/
def resolveTarget (c : Context) (m : Method) (payload : Bytes) : Resolving Ciphertext := do
  settled (expectLength m payload 32)
  resolveHandle c m payload

/-- The width in the payload of an encryption. -/
def resolveEncryptWidth (payload : Bytes) : Resolving Width := do
  settled (expectLength .encrypt payload 33)
  settled (parseWidth .encrypt (← byte payload 32))

/-! ## Metering -/

/-- The price of a payload that is resolved with guarded accesses. -/
def orZero (m : Method) (payload : Bytes) (priced : Resolving UInt64) : Except Trap Metered :=
  (CipherCalls.orZero m payload ·) <$> priced.run

/-- The price of a method with two operands. -/
def priceBinary (c : Context) (op : BinaryOp) (prices : WidthPrices) (payload : Bytes) :
    Except Trap Metered :=
  orZero op.method payload ((prices.get ·.width) <$> resolveBinary c op payload)

/-- The price of a cast. -/
def priceCast (c : Context) (payload : Bytes) : Except Trap Metered :=
  orZero .cast payload ((fun _ => c.params.gasCosts.cast) <$>
    settled (expectLength .cast payload 33))

/-- The price of a method whose only argument is a handle. -/
def priceTarget (c : Context) (m : Method) (prices : WidthPrices) (payload : Bytes) :
    Except Trap Metered :=
  orZero m payload ((prices.get ·.width) <$> resolveTarget c m payload)

/-- The price of an encryption. -/
def priceEncrypt (c : Context) (payload : Bytes) : Except Trap Metered :=
  orZero .encrypt payload (c.params.gasCosts.encrypt.get <$> resolveEncryptWidth payload)

/-- The price of padding. -/
def pricePadding (c : Context) (supplied : UInt64) (payload : Bytes) : Except Trap UInt64 := do
  let target ← readNumber payload
  let consumed := c.gasLimit.toNat - supplied.toNat
  return UInt64.ofNat (target.toNat - consumed)

/-- The price of a method on a payload of any length. -/
def priceMethod (c : Context) (supplied : UInt64) (payload : Bytes) :
    Method → Except Trap Metered
  | .add => priceBinary c .add c.params.gasCosts.addSub payload
  | .sub => priceBinary c .sub c.params.gasCosts.addSub payload
  | .bitAnd => priceBinary c .bitAnd c.params.gasCosts.bitwise payload
  | .cast => priceCast c payload
  | .decrypt => priceTarget c .decrypt c.params.gasCosts.decrypt payload
  | .publicKey => .ok ⟨c.params.gasCosts.publicKey, []⟩
  | .encrypt => priceEncrypt c payload
  | .require => priceTarget c .require c.params.gasCosts.require payload
  | .padGas => do return ⟨← pricePadding c supplied payload, []⟩

/-! ## Running -/

/-- The success of a session that commits is reported; otherwise no report is made up at all. -/
def logCommitted (s : Session) (event : Except Trap Event) : Except Trap Session :=
  if s.context.mode = .committing then s.log <$> event else .ok s

/-- The ciphertext a request asks for is registered, and its handle is returned. -/
def produce (b : Backend) (request : Engine.Request) (success : Handle → Except Trap Event)
    (s : Session) : Except Trap (Outcome Bytes) :=
  match obtain b request s with
  | (.error cause, s) => .ok (.error (.engine cause), s)
  | (.ok c, s) => do
    let s ← logCommitted { s with context := s.context.register c } (success c.handle)
    return (.ok c.handle.bytes, s)

/-- How the success of an operation on operands from a payload is reported. -/
def combinedEvent (op : BinaryOp) (payload : Bytes) (o : Operands) (result : Handle) :
    Except Trap Event := do
  let lhs ← readHandle (← slice payload 0 32)
  match o with
  | .encrypted _ _ => return .combined op lhs (← readHandle (← slice payload 32 64)) result
  | .scalar _ rhs => return .combinedScalar op lhs rhs result

/-- How the success of a cast is reported. -/
def recastEvent (payload : Bytes) (width : Width) (result : Handle) : Except Trap Event := do
  return .recast (← readHandle (← slice payload 0 32)) width result

/-- An operation on two operands. -/
def runBinary (b : Backend) (op : BinaryOp) (payload : Bytes) (s : Session) :
    Except Trap (Outcome Bytes) := do
  match ← (resolveBinary s.context op payload).run with
  | .error cause => return (.error cause, s)
  | .ok operands =>
    match op.request operands with
    | .error cause => return (.error cause, s)
    | .ok request => produce b request (combinedEvent op payload operands) s

/-- A change of width. -/
def runCast (b : Backend) (payload : Bytes) (s : Session) : Except Trap (Outcome Bytes) := do
  match ← (resolveCast s.context payload).run with
  | .error cause => return (.error cause, s)
  | .ok (source, width) => produce b (.cast source width) (recastEvent payload width) s

/-- The encryption of a plain number. -/
def runEncrypt (b : Backend) (payload : Bytes) (s : Session) : Except Trap (Outcome Bytes) := do
  match ← (resolveEncryptWidth payload).run with
  | .error cause => return (.error cause, s)
  | .ok width =>
    let value ← readNumber (← slice payload 0 32)
    produce b (.encrypt value width) (fun h => .ok (.encrypted value width h)) s

/-- The plaintext of a ciphertext is revealed, unless a requirement forbids it. -/
def runDecrypt (b : Backend) (payload : Bytes) (s : Session) : Except Trap (Outcome Bytes) := do
  match ← (resolveTarget s.context .decrypt payload).run with
  | .error cause => return (.error cause, s)
  | .ok target =>
    if s.context.mode = .estimating then return (.ok Word.full.bytes, s)
    match settleRequires b s with
    | (.error cause, s) => return (.error cause, s)
    | (.ok (), s) =>
      let (answer, journal) := s.journal.decrypt b.engine target
      let s := { s with journal }
      match answer with
      | .error cause => return (.error (.engine cause), s)
      | .ok value =>
        let s ← logCommitted s (Event.decrypted <$> readHandle payload)
        return (.ok (← writeNumber value).bytes, s)

/-- A requirement is stated. -/
def runRequire (payload : Bytes) (s : Session) : Except Trap (Outcome Bytes) := do
  match ← (resolveTarget s.context .require payload).run with
  | .error cause => return (.error cause, s)
  | .ok condition => return (.ok [], { s with context := s.context.require condition })

/-- The public key is served if it is the one on record. -/
def runPublicKey (payload : Bytes) (s : Session) : Except Trap (Outcome Bytes) := do
  match s.context.publicKey with
  | none => return (.error .keyMissing, s.log .keyMissing)
  | some key =>
    if s.context.recordedHash ≠ some key.hash then
      return (.error .keyMismatch, s.log (.keyMismatch key.hash))
    let wrapped : Bool := payload.head? = some 1
    let output ← if wrapped then wrapBytes key.bytes else pure key.bytes
    let s ← logCommitted s (.ok (.keyServed output.length wrapped))
    return (.ok output, s)

/-- A method is run on a payload of any length. -/
def runMethod (b : Backend) (payload : Bytes) (s : Session) :
    Method → Except Trap (Outcome Bytes)
  | .add => reported .add payload <$> runBinary b .add payload s
  | .sub => reported .sub payload <$> runBinary b .sub payload s
  | .bitAnd => reported .bitAnd payload <$> runBinary b .bitAnd payload s
  | .cast => reported .cast payload <$> runCast b payload s
  | .decrypt => reported .decrypt payload <$> runDecrypt b payload s
  | .publicKey => runPublicKey payload s
  | .encrypt => reported .encrypt payload <$> runEncrypt b payload s
  | .require => reported .require payload <$> runRequire payload s
  | .padGas => .ok (.ok [], s)

/-! ## Dispatch -/

/-- Every method with its selector, which is read from the digest of its signature. -/
def table : Except Trap (List (UInt32 × Method)) :=
  Method.all.mapM fun m => do
    return (← readSelector (Keccak.digest (Bytes.ofString m.signature)).bytes, m)

/-- The method an input calls. -/
def dispatch (input : Bytes) : Except Trap (Except CallError Method) := do
  match part? input 0 4 with
  | none => return .error (.missingSelector input.length)
  | some head =>
    let selector ← readSelector head
    match (← table).find? (·.1 = selector) with
    | some entry => return .ok entry.2
    | none => return .error (.unknownSelector selector)

/-- The payload of a call: what follows the selector, cut to the declared length.  It is empty if
there is no selector. -/
def payload (m : Method) (input : Bytes) : Bytes :=
  (part? input 4 (min input.length (4 + m.payloadLength))).getD []

/-- The price of a call when some gas was supplied. -/
def requiredGas (c : Context) (supplied : UInt64) (input : Bytes) : Except Trap Metered := do
  match ← dispatch input with
  | .ok m => priceMethod c supplied (payload m input) m
  | .error cause => return ⟨0, [.meteringUndispatched cause input]⟩

/-- A call is executed. -/
def run (b : Backend) (input : Bytes) (s : Session) : Except Trap (Outcome Bytes) := do
  match ← dispatch input with
  | .ok m => runMethod b (payload m input) s m
  | .error cause => return (.error cause, s.log (.runUndispatched cause input))

/-! ## Resolving meets no trap -/

section ComesTo

variable {α β : Type}

/-- Guarded accesses meet no trap and come to a result. -/
def ComesTo (x : Resolving α) (y : Except CallError α) : Prop := x.run = .ok y

lemma comesTo_settled (y : Except CallError α) : ComesTo (settled y) y := rfl

/-- Of two stages, the second one matters only after the first one has succeeded. -/
lemma ComesTo.bind {x : Resolving α} {y : Except CallError α} {f : α → Resolving β}
    {g : α → Except CallError β} (h : ComesTo x y)
    (hf : ∀ a, y = .ok a → ComesTo (f a) (g a)) : ComesTo (x >>= f) (y >>= g) := by
  have hx : x = ExceptT.mk (.ok y) := h
  subst hx
  cases y with
  | error cause => rfl
  | ok a => exact hf a rfl

/-- An access that is no trap is passed. -/
lemma ComesTo.access {x : Except Trap α} {a : α} {f : α → Resolving β} {y : Except CallError β}
    (h : x = .ok a) (hf : ComesTo (f a) y) : ComesTo (liftM x >>= f) y := by
  subst h
  exact hf

lemma ComesTo.map {x : Resolving α} {y : Except CallError α} (h : ComesTo x y) (f : α → β) :
    ComesTo (f <$> x) (y.map f) := by
  have hx : x = ExceptT.mk (.ok y) := h
  subst hx
  cases y <;> rfl

end ComesTo

section Resolving

variable {c : Context} {m : Method} {op : BinaryOp} {payload bytes : Bytes} {n : Nat}

lemma isScalar_comesTo : ComesTo (isScalar m payload) (CipherCalls.isScalar m payload) := by
  refine (comesTo_settled _).bind fun _ hlen => ?_
  rw [expectLength_eq_ok_iff] at hlen
  exact .access (byte_of_lt (by omega)) rfl

lemma resolveHandle_comesTo :
    ComesTo (resolveHandle c m bytes) (c.resolveHandle m bytes) := by
  refine .access (readHandle_eq bytes) ?_
  rw [Context.resolveHandle]
  cases c.verified? (.ofTail bytes) <;> rfl

lemma resolveBinary_comesTo :
    ComesTo (resolveBinary c op payload) (c.resolveBinary op payload) := by
  refine isScalar_comesTo.bind fun scalar hscalar => ?_
  obtain ⟨_, hlen, -⟩ := bind_eq_ok hscalar
  rw [expectLength_eq_ok_iff] at hlen
  have hfirst : slice payload 0 32 = .ok (firstSlot payload) := slice_firstSlot (by omega)
  have hsecond : slice payload 32 64 = .ok (secondSlot payload) := slice_secondSlot (by omega)
  cases scalar with
  | true =>
      cases hop : op.supportsScalar with
      | false => rfl
      | true =>
          exact .access hfirst (resolveHandle_comesTo.bind fun lhs _ =>
            .access hsecond (.access (readNumber_eq _) rfl))
  | false =>
      refine .access hfirst (resolveHandle_comesTo.bind fun lhs _ =>
        .access hsecond (resolveHandle_comesTo.bind fun rhs _ => ?_))
      by_cases hwidth : lhs.width ≠ rhs.width
      · rw [if_pos hwidth, if_pos hwidth]
        rfl
      · rw [if_neg hwidth, if_neg hwidth]
        rfl

lemma resolveCast_comesTo : ComesTo (resolveCast c payload) (c.resolveCast payload) := by
  refine (comesTo_settled _).bind fun _ hlen => ?_
  rw [expectLength_eq_ok_iff] at hlen
  exact .access (slice_firstSlot (by omega)) (resolveHandle_comesTo.bind fun source _ =>
    .access (byte_of_lt (by omega)) ((comesTo_settled _).bind fun width _ => rfl))

lemma resolveTarget_comesTo : ComesTo (resolveTarget c m payload) (c.resolveTarget m payload) :=
  (comesTo_settled _).bind fun _ _ => resolveHandle_comesTo

lemma resolveEncryptWidth_comesTo :
    ComesTo (resolveEncryptWidth payload) (CipherCalls.resolveEncryptWidth payload) := by
  refine (comesTo_settled _).bind fun _ hlen => ?_
  rw [expectLength_eq_ok_iff] at hlen
  exact .access (byte_of_lt (by omega)) (comesTo_settled _)

end Resolving

/-! ## Metering meets no trap -/

section Metering

variable {c : Context} {m : Method} {payload : Bytes}

lemma orZero_eq {priced : Resolving UInt64} {y : Except CallError UInt64}
    (h : ComesTo priced y) : orZero m payload priced = .ok (CipherCalls.orZero m payload y) := by
  have hpriced : priced = ExceptT.mk (.ok y) := h
  subst hpriced
  rfl

lemma priceTarget_eq (prices : WidthPrices) :
    priceTarget c m prices payload = .ok (c.priceTarget m prices payload) :=
  orZero_eq (resolveTarget_comesTo.map _)

lemma pricePadding_eq (supplied : UInt64) :
    pricePadding c supplied payload = .ok (c.pricePadding supplied payload) := by
  rw [pricePadding, readNumber_eq]
  rfl

lemma priceMethod_eq (c : Context) (supplied : UInt64) (payload : Bytes) (m : Method) :
    priceMethod c supplied payload m = .ok (c.priceMethod supplied payload m) := by
  cases m with
  | add | sub | bitAnd => exact orZero_eq (resolveBinary_comesTo.map _)
  | cast => exact orZero_eq ((comesTo_settled _).map _)
  | decrypt | require => exact priceTarget_eq _
  | publicKey => rfl
  | encrypt => exact orZero_eq (resolveEncryptWidth_comesTo.map _)
  | padGas =>
      rw [priceMethod, pricePadding_eq]
      rfl

end Metering

/-! ## Running meets no trap -/

section Running

variable {b : Backend} {op : BinaryOp} {payload : Bytes} {s : Session}

lemma logCommitted_eq {event : Except Trap Event} {e : Event} (h : event = .ok e) :
    logCommitted s event = .ok (s.logCommitted e) := by
  subst h
  rw [logCommitted, Session.logCommitted]
  split <;> rfl

lemma produce_eq {request : Engine.Request} {success : Handle → Except Trap Event}
    {event : Handle → Event} (h : ∀ result, success result = .ok (event result)) :
    produce b request success s = .ok (CipherCalls.produce b request event s) := by
  rw [produce, CipherCalls.produce]
  rcases obtain b request s with ⟨cause | c, s'⟩
  · rfl
  · simp only [logCommitted_eq (h c.handle)]
    rfl

lemma combinedEvent_eq (h : payload.length = 65) (o : Operands) (result : Handle) :
    combinedEvent op payload o result = .ok (CipherCalls.combinedEvent op payload o result) := by
  rw [combinedEvent, slice_firstSlot (by omega), slice_secondSlot (by omega)]
  cases o with
  | encrypted lhs rhs =>
      show (readHandle _ >>= fun lhs => readHandle _ >>= fun rhs => _) = _
      rw [readHandle_eq, readHandle_eq]
      rfl
  | scalar lhs rhs =>
      show (readHandle _ >>= fun lhs => _) = _
      rw [readHandle_eq]
      rfl

lemma runBinary_eq : runBinary b op payload s = .ok (CipherCalls.runBinary b op payload s) := by
  have hresolved : (resolveBinary s.context op payload).run = _ := resolveBinary_comesTo
  rw [runBinary, hresolved, CipherCalls.runBinary]
  cases ho : s.context.resolveBinary op payload with
  | error cause => rfl
  | ok operands =>
      -- A payload that resolved has its 65 bytes, so that the slots are there to be read again.
      have hlen : payload.length = 65 := by
        by_contra hne
        rw [Context.resolveBinary_of_length hne] at ho
        cases ho
      show (match op.request operands with | .error cause => _ | .ok request => _) =
        Except.ok (match op.request operands with | .error cause => _ | .ok request => _)
      cases op.request operands with
      | error cause => rfl
      | ok request => exact produce_eq (combinedEvent_eq hlen operands)

lemma runCast_eq : runCast b payload s = .ok (CipherCalls.runCast b payload s) := by
  have hresolved : (resolveCast s.context payload).run = _ := resolveCast_comesTo
  rw [runCast, hresolved, CipherCalls.runCast]
  cases ho : s.context.resolveCast payload with
  | error cause => rfl
  | ok o =>
      obtain ⟨source, width⟩ := o
      have hlen := (Context.resolveCast_eq_ok_iff.mp ho).1
      refine produce_eq fun result => ?_
      rw [recastEvent, slice_firstSlot (by omega)]
      show (readHandle _ >>= fun source => _) = _
      rw [readHandle_eq]
      rfl

lemma runEncrypt_eq : runEncrypt b payload s = .ok (CipherCalls.runEncrypt b payload s) := by
  have hresolved : (resolveEncryptWidth payload).run = _ := resolveEncryptWidth_comesTo
  rw [runEncrypt, hresolved, CipherCalls.runEncrypt]
  cases ho : CipherCalls.resolveEncryptWidth payload with
  | error cause => rfl
  | ok width =>
      have hlen := (resolveEncryptWidth_eq_ok_iff.mp ho).1
      show (slice payload 0 32 >>= fun word => readNumber word >>= fun value => _) = _
      rw [slice_firstSlot (by omega)]
      show (readNumber _ >>= fun value => _) = _
      rw [readNumber_eq]
      exact produce_eq fun result => rfl

lemma runDecrypt_eq : runDecrypt b payload s = .ok (CipherCalls.runDecrypt b payload s) := by
  have hresolved : (resolveTarget s.context .decrypt payload).run = _ := resolveTarget_comesTo
  rw [runDecrypt, hresolved, CipherCalls.runDecrypt]
  cases s.context.resolveTarget .decrypt payload with
  | error cause => rfl
  | ok target =>
      show (if s.context.mode = .estimating then _ else _) =
        Except.ok (if s.context.mode = .estimating then _ else _)
      by_cases hmode : s.context.mode = .estimating
      · rw [if_pos hmode, if_pos hmode]
        rfl
      · rw [if_neg hmode, if_neg hmode]
        rcases settleRequires b s with ⟨cause | _, s'⟩
        · rfl
        · have hread : Event.decrypted <$> readHandle payload =
              .ok (.decrypted (.ofTail payload)) := by
            rw [readHandle_eq]
            rfl
          simp only [Journal.decrypt]
          cases b.engine.decrypt s'.journal.calls target with
          | error cause => rfl
          | ok value =>
              simp only [logCommitted_eq hread, writeNumber_eq]
              rfl

lemma runRequire_eq : runRequire payload s = .ok (CipherCalls.runRequire payload s) := by
  have hresolved : (resolveTarget s.context .require payload).run = _ := resolveTarget_comesTo
  rw [runRequire, hresolved, CipherCalls.runRequire]
  cases s.context.resolveTarget .require payload <;> rfl

lemma runPublicKey_eq : runPublicKey payload s = .ok (CipherCalls.runPublicKey payload s) := by
  rw [runPublicKey, CipherCalls.runPublicKey]
  cases s.context.publicKey with
  | none => rfl
  | some key =>
      by_cases hhash : s.context.recordedHash ≠ some key.hash
      · simp only [if_pos hhash]
        rfl
      · simp only [if_neg hhash, decide_eq_true_eq]
        by_cases hflag : payload.head? = some 1
        · simp only [if_pos hflag, wrapBytes_eq]
          show (logCommitted s (.ok _) >>= fun s => _) = _
          rw [logCommitted_eq rfl]
          rfl
        · simp only [if_neg hflag]
          show (logCommitted s (.ok _) >>= fun s => _) = _
          rw [logCommitted_eq rfl]
          rfl

lemma runMethod_eq (b : Backend) (payload : Bytes) (s : Session) (m : Method) :
    runMethod b payload s m = .ok (CipherCalls.runMethod b payload s m) := by
  cases m with
  | add | sub | bitAnd =>
      rw [runMethod, runBinary_eq]
      rfl
  | cast =>
      rw [runMethod, runCast_eq]
      rfl
  | decrypt =>
      rw [runMethod, runDecrypt_eq]
      rfl
  | publicKey => exact runPublicKey_eq
  | encrypt =>
      rw [runMethod, runEncrypt_eq]
      rfl
  | require =>
      rw [runMethod, runRequire_eq]
      rfl
  | padGas => rfl

end Running

/-! ## Dispatch meets no trap -/

section Dispatch

lemma table_eq : table = .ok Method.table := by
  have hmap : ∀ ms : List Method,
      (ms.mapM fun m => do
        return (← readSelector (Keccak.digest (Bytes.ofString m.signature)).bytes, m)) =
      (.ok (ms.map fun m => (m.selector, m)) : Except Trap (List (UInt32 × Method))) := by
    intro ms
    induction ms with
    | nil => rfl
    | cons m ms ih =>
        rw [List.mapM_cons, ih, readSelector_eq (by rw [Word.length_bytes]; decide)]
        rfl
  exact hmap Method.all

lemma dispatch_eq (input : Bytes) : dispatch input = .ok (CipherCalls.dispatch input) := by
  rw [dispatch, CipherCalls.dispatch]
  by_cases hlen : input.length < 4
  · rw [if_pos hlen, part?_eq_none (by omega)]
    rfl
  · have hhead : readSelector (input.take 4) =
        .ok (UInt32.ofNat (Bytes.toNatBE (input.take 4))) := by
      rw [readSelector_eq (by rw [List.length_take]; omega), List.take_take, min_self]
    rw [if_neg hlen, part?_of_le (by omega) (by omega)]
    simp only [Nat.sub_zero, List.drop_zero, hhead, table_eq, bind, Except.bind, Method.ofSelector?]
    cases Method.table.find? _ <;> rfl

/-- The payload is what it is without a guard, also if the input ends within the selector. -/
lemma payload_eq (m : Method) (input : Bytes) : payload m input = m.payload input := by
  rw [payload, Method.payload]
  by_cases hlen : input.length < 4
  · rw [part?_eq_none (by omega), List.drop_of_length_le hlen.le, List.take_nil]
    rfl
  · rw [part?_of_le (by omega) (min_le_left _ _), Option.getD_some, List.take_eq_take_iff,
      List.length_drop]
    omega

end Dispatch

/-! ## The main statement -/

/-- **No call looks outside of a byte string.**  With guarded accesses, every input has a price and
is run, in every session and with every engine: no slice, byte, copy or difference is a trap.  What
comes out is the price and the outcome without guards.

The same holds of every method on a payload of any length that was not cut to the declared one, of
the readers of handles and numbers on strings of any length, of the payload of an input that is
shorter than a selector, and of the key in whole words. -/
theorem no_trap (b : Backend) (s : Session) :
    (∀ input, run b input s = .ok (CipherCalls.run b input s)) ∧
    (∀ supplied input, requiredGas s.context supplied input =
      .ok (s.context.requiredGas supplied input)) ∧
    (∀ m payload, runMethod b payload s m = .ok (CipherCalls.runMethod b payload s m)) ∧
    (∀ m supplied payload, priceMethod s.context supplied payload m =
      .ok (s.context.priceMethod supplied payload m)) ∧
    (∀ bs, readHandle bs = .ok (.ofTail bs) ∧ readNumber bs = .ok (Bytes.low64 bs)) ∧
    (∀ m input, payload m input = m.payload input) ∧
    ∀ blob, wrapBytes blob = .ok (CipherCalls.wrapBytes blob) := by
  refine ⟨fun input => ?_, fun supplied input => ?_, fun m payload => runMethod_eq b payload s m,
    fun m supplied payload => priceMethod_eq _ supplied payload m,
    fun bs => ⟨readHandle_eq bs, readNumber_eq bs⟩, payload_eq, wrapBytes_eq⟩
  · rw [run, dispatch_eq, CipherCalls.run]
    cases CipherCalls.dispatch input with
    | error cause => rfl
    | ok m =>
        show runMethod b (payload m input) s m = _
        rw [payload_eq, runMethod_eq]
  · rw [requiredGas, dispatch_eq, Context.requiredGas]
    cases CipherCalls.dispatch input with
    | error cause => rfl
    | ok m =>
        show priceMethod s.context supplied (payload m input) m = _
        rw [payload_eq, priceMethod_eq]

end CipherCalls.Guarded
