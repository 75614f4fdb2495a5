/-
# What a call delivers

A call is put together as a selector with the parts of a payload behind it, and taken apart by
position.  What is delivered to the method is what was put in: the method of the selector is run on
the first bytes of the payload, however the payload was cut into parts and whatever follows its
declared length, and a method with operands finds the handles, the numbers and the width that the
encoder was given.

`Context.operandsOf` says what a handle, a word and a flag mean as operands, without a payload, and
`operate` and `recast` what is run on such meanings.
-/
import Mathlib
import CipherCalls.Proofs.Expression

namespace CipherCalls

/-! ## Inputs that no method takes -/

/-- The number at the beginning of an input fits into a selector. -/
lemma toNat_ofNat_toNatBE_take (input : Bytes) :
    (UInt32.ofNat (Bytes.toNatBE (input.take 4))).toNat = Bytes.toNatBE (input.take 4) := by
  have hlen : (input.take 4).length ≤ 4 := List.length_take_le 4 input
  have hlt : Bytes.toNatBE (input.take 4) < 256 ^ 4 :=
    (Bytes.toNatBE_lt _).trans_le (Nat.pow_le_pow_right (by decide) hlen)
  rw [UInt32.toNat_ofNat']
  exact Nat.mod_eq_of_lt hlt

/-- The first four bytes of an input are the bytes of the selector that they denote. -/
lemma selectorBytes_ofNat_take {input : Bytes} (h : 4 ≤ input.length) :
    selectorBytes (UInt32.ofNat (Bytes.toNatBE (input.take 4))) = input.take 4 := by
  have hlen : (input.take 4).length = 4 := List.length_take_of_le h
  rw [selectorBytes, toNat_ofNat_toNatBE_take]
  nth_rewrite 1 [← hlen]
  exact Bytes.ofNatBE_toNatBE _

lemma Method.ofSelector?_eq_none {selector : UInt32} (h : ∀ m : Method, m.selector ≠ selector) :
    ofSelector? selector = none := by
  rw [ofSelector?, Option.map_eq_none_iff, List.find?_eq_none]
  intro entry hentry
  obtain ⟨m, -, rfl⟩ := List.mem_map.mp hentry
  simpa using h m

section Undispatched

variable {input : Bytes}

lemma dispatch_of_short (h : input.length < 4) :
    dispatch input = .error (.missingSelector input.length) := by
  rw [dispatch, if_pos h]

lemma dispatch_of_unlisted (hlen : 4 ≤ input.length)
    (h : ∀ m : Method, input.take 4 ≠ selectorBytes m.selector) :
    dispatch input = .error (.unknownSelector (UInt32.ofNat (Bytes.toNatBE (input.take 4)))) := by
  have hunlisted (m : Method) : m.selector ≠ UInt32.ofNat (Bytes.toNatBE (input.take 4)) := by
    intro hm
    refine h m ?_
    rw [hm, selectorBytes_ofNat_take hlen]
  rw [dispatch, if_neg (Nat.not_lt.mpr hlen)]
  simp only [Method.ofSelector?_eq_none hunlisted]

/-- An input without a method leaves a report and nothing else. -/
lemma run_of_undispatched {cause : CallError} (h : dispatch input = .error cause) (b : Backend)
    (s : Session) : run b input s = (.error cause, s.log (.runUndispatched cause input)) := by
  rw [run, h]

end Undispatched

/-! ## Payloads of any length -/

section EncodeCall

variable (m : Method) (parts : List Bytes)

/-- Metering a call with the selector of a method prices the method on what follows. -/
theorem requiredGas_encodeCall (c : Context) (supplied : UInt64) :
    c.requiredGas supplied (encodeCall m.signature parts) =
      c.priceMethod supplied (parts.flatten.take m.payloadLength) m := by
  rw [Context.requiredGas, dispatch_encodeCall]
  simp only [payload_encodeCall]

/-- Bytes behind a call are one more part of it. -/
lemma encodeCall_append (signature : String) (parts : List Bytes) (extra : Bytes) :
    encodeCall signature parts ++ extra = encodeCall signature (parts ++ [extra]) := by
  simp [encodeCall]

variable {m parts} in
/-- A part behind the declared length is cut off. -/
lemma take_flatten_append {extra : Bytes} (h : m.payloadLength ≤ parts.flatten.length) :
    (parts ++ [extra]).flatten.take m.payloadLength = parts.flatten.take m.payloadLength := by
  rw [List.flatten_append, List.flatten_singleton, List.take_append_of_le_length h]

end EncodeCall

/-! ## Operands -/

/-- The number at the end of a word is that of the word, modulo `2 ^ 64`. -/
lemma Word.low64_bytes (w : Word) : Bytes.low64 w.bytes = UInt64.ofNat w.toNat := by
  apply UInt64.toNat_inj.mp
  rw [Bytes.toNat_low64, UInt64.toNat_ofNat']
  rfl

namespace Context

/-- The ciphertext of a handle on behalf of a method. -/
def lookUp (c : Context) (m : Method) (h : Handle) : Except CallError Ciphertext :=
  match c.verified? h with
  | some ct => .ok ct
  | none => .error (.unverified m h)

/-- The operands that a handle and a word mean.  A flag tells whether the word is a number, which
is reduced modulo `2 ^ 64`, or a handle. -/
def operandsOf (c : Context) (op : BinaryOp) (lhs : Handle) (rhs : Word) :
    Bool → Except CallError Operands
  | true =>
    if op.supportsScalar then
      (c.lookUp op.method lhs).map (.scalar · (UInt64.ofNat rhs.toNat))
    else .error (.scalarNotSupported op.method)
  | false => do
    let x ← c.lookUp op.method lhs
    let y ← c.lookUp op.method ⟨rhs⟩
    if x.width = y.width then .ok (.encrypted x y)
    else .error (.widthMismatch op.method x.width y.width)

variable (c : Context)

/-- A handle is looked up under its own bytes. -/
lemma resolveHandle_bytes (m : Method) (h : Handle) : c.resolveHandle m h.bytes = c.lookUp m h := by
  rw [resolveHandle, Handle.ofTail_bytes]
  rfl

/-- The same for a handle that is passed as a word. -/
lemma resolveHandle_word (m : Method) (w : Word) : c.resolveHandle m w.bytes = c.lookUp m ⟨w⟩ :=
  c.resolveHandle_bytes m ⟨w⟩

/-- The operands of a method are those that were encoded. -/
lemma resolveBinary_binaryCall (op : BinaryOp) (lhs : Handle) (rhs : Word) (scalar : Bool) :
    c.resolveBinary op (op.method.payload (binaryCall op.method.signature lhs rhs scalar)) =
      c.operandsOf op lhs rhs scalar := by
  have hpayload := payload_flaggedCall op lhs rhs (if scalar then 1 else 0)
  have hlhs : lhs.bytes.length = 32 := lhs.length_bytes
  have hlen : (lhs.bytes ++ (rhs.bytes ++ [if scalar then (1 : UInt8) else 0])).length = 65 := by
    simp [rhs.length_bytes]
  rw [binaryCall, ← flaggedCall, hpayload]
  cases scalar with
  | true =>
      rw [resolveBinary_of_scalar hlen (getD_flag lhs rhs _), firstSlot_append hlhs,
        secondSlot_append hlhs rhs.length_bytes, resolveHandle_bytes, Word.low64_bytes]
      rfl
  | false =>
      rw [resolveBinary_of_encrypted hlen (by rw [getD_flag]; decide), firstSlot_append hlhs,
        secondSlot_append hlhs rhs.length_bytes, resolveHandle_bytes, resolveHandle_word]
      rfl

/-- A cast finds the handle and the width that were encoded. -/
lemma resolveCast_widthCall (word : Word) (w : Width) :
    c.resolveCast (Method.cast.payload (widthCall Method.cast.signature word w)) =
      (c.lookUp .cast ⟨word⟩).map (·, w) := by
  have hlen : (word.bytes ++ [w.toByte]).length = 33 := by simp [word.length_bytes]
  have hwidth : parseWidth .cast w.toByte = .ok w := parseWidth_eq_ok_iff.mpr w.ofByte?_toByte
  rw [payload_widthCall rfl, resolveCast, expectLength_eq_ok_iff.mpr hlen,
    firstSlot_append word.length_bytes, resolveHandle_word,
    getD_append_singleton word.length_bytes, hwidth]
  cases c.lookUp .cast ⟨word⟩ <;> rfl

end Context

/-- An encryption finds the word and the width that were encoded. -/
lemma encrypt_widthCall (word : Word) (w : Width) :
    firstSlot (Method.encrypt.payload (widthCall Method.encrypt.signature word w)) = word.bytes ∧
      resolveEncryptWidth (Method.encrypt.payload (widthCall Method.encrypt.signature word w)) =
        .ok w := by
  rw [payload_widthCall rfl, firstSlot_append word.length_bytes, resolveEncryptWidth_eq_ok_iff,
    getD_append_singleton word.length_bytes]
  exact ⟨rfl, by simp [word.length_bytes], w.ofByte?_toByte⟩

/-! ## What calls with operands mean -/

/-- The prices of an operation. -/
def BinaryOp.prices (g : GasCosts) : BinaryOp → WidthPrices
  | .add | .sub => g.addSub
  | .bitAnd => g.bitwise

/-- An operation on what a handle, a word and a flag mean. -/
def operate (b : Backend) (op : BinaryOp) (lhs : Handle) (rhs : Word) (scalar : Bool)
    (s : Session) : Outcome Bytes :=
  match s.context.operandsOf op lhs rhs scalar with
  | .error cause => (.error cause, s)
  | .ok operands =>
    match op.request operands with
    | .error cause => (.error cause, s)
    | .ok request =>
      produce b request
        (if scalar then .combinedScalar op lhs (UInt64.ofNat rhs.toNat)
          else .combined op lhs ⟨rhs⟩) s

/-- The ciphertext of a handle at another width. -/
def recast (b : Backend) (h : Handle) (w : Width) (s : Session) : Outcome Bytes :=
  match s.context.lookUp .cast h with
  | .error cause => (.error cause, s)
  | .ok source => produce b (.cast source w) (.recast h w) s

section Meaning

variable (b : Backend) (s : Session) (op : BinaryOp) (lhs : Handle) (rhs word : Word)
  (scalar : Bool) (w : Width) (supplied : UInt64)

/-- The flag as a byte. -/
def flagByte (scalar : Bool) : UInt8 := if scalar then 1 else 0

lemma payload_binaryCall :
    op.method.payload (binaryCall op.method.signature lhs rhs scalar) =
      lhs.bytes ++ (rhs.bytes ++ [flagByte scalar]) :=
  payload_flaggedCall op lhs rhs (flagByte scalar)

/-- What is reported of a success names what was encoded. -/
lemma combinedEvent_binaryCall {operands : Operands}
    (h : s.context.operandsOf op lhs rhs scalar = .ok operands) :
    combinedEvent op (lhs.bytes ++ (rhs.bytes ++ [flagByte scalar])) operands =
      if scalar then .combinedScalar op lhs (UInt64.ofNat rhs.toNat)
      else .combined op lhs ⟨rhs⟩ := by
  have hlhs : lhs.bytes.length = 32 := lhs.length_bytes
  have hsecond : Handle.ofTail rhs.bytes = ⟨rhs⟩ := Handle.ofTail_bytes ⟨rhs⟩
  funext result
  cases scalar with
  | true =>
      rw [Context.operandsOf] at h
      split at h
      case isTrue =>
        obtain ⟨x, -, rfl⟩ := map_eq_ok h
        simp only [combinedEvent, firstSlot_append hlhs, Handle.ofTail_bytes, if_true]
      case isFalse => cases h
  | false =>
      obtain ⟨x, -, h⟩ := bind_eq_ok h
      obtain ⟨y, -, h⟩ := bind_eq_ok h
      split at h
      case isTrue =>
        cases h
        simp only [combinedEvent, firstSlot_append hlhs, secondSlot_append hlhs rhs.length_bytes,
          Handle.ofTail_bytes, hsecond]
        rfl
      case isFalse => cases h

/-- A call with two operands is the operation on what they mean. -/
lemma runBinary_binaryCall :
    runBinary b op (lhs.bytes ++ (rhs.bytes ++ [flagByte scalar])) s =
      operate b op lhs rhs scalar s := by
  have hoperands := s.context.resolveBinary_binaryCall op lhs rhs scalar
  rw [payload_binaryCall] at hoperands
  rw [runBinary, operate, hoperands]
  cases h : s.context.operandsOf op lhs rhs scalar with
  | error cause => rfl
  | ok operands =>
      cases hrequest : op.request operands with
      | error cause => simp only [hrequest]
      | ok request => simp only [hrequest, combinedEvent_binaryCall s op lhs rhs scalar h]

/-- A call with two operands runs its method on them and the flag. -/
lemma run_binaryCall :
    run b (binaryCall op.method.signature lhs rhs scalar) s =
      reported op.method (lhs.bytes ++ (rhs.bytes ++ [flagByte scalar]))
        (operate b op lhs rhs scalar s) := by
  rw [← runBinary_binaryCall, ← payload_binaryCall, binaryCall, run_encodeCall,
    ← payload_encodeCall]
  cases op <;> rfl

lemma requiredGas_binaryCall (c : Context) :
    c.requiredGas supplied (binaryCall op.method.signature lhs rhs scalar) =
      orZero op.method (lhs.bytes ++ (rhs.bytes ++ [flagByte scalar]))
        ((c.operandsOf op lhs rhs scalar).map fun o =>
          (op.prices c.params.gasCosts).get o.width) := by
  rw [← c.resolveBinary_binaryCall, ← payload_binaryCall, binaryCall, requiredGas_encodeCall,
    ← payload_encodeCall]
  cases op <;> rfl

section WidthCall

variable {m : Method} (hm : m.payloadLength = 33)
include hm

/-- A call with a word and a width runs its method on the bytes of both. -/
lemma run_widthCall :
    run b (widthCall m.signature word w) s = runMethod b (word.bytes ++ [w.toByte]) s m := by
  rw [← payload_widthCall hm, widthCall, run_encodeCall, ← payload_encodeCall]

lemma requiredGas_widthCall (c : Context) :
    c.requiredGas supplied (widthCall m.signature word w) =
      c.priceMethod supplied (word.bytes ++ [w.toByte]) m := by
  rw [← payload_widthCall hm, widthCall, requiredGas_encodeCall, ← payload_encodeCall]

end WidthCall

lemma run_castCall :
    run b (widthCall Method.cast.signature word w) s =
      reported .cast (word.bytes ++ [w.toByte]) (recast b ⟨word⟩ w s) := by
  have hsource := s.context.resolveCast_widthCall word w
  have hhandle : Handle.ofTail word.bytes = ⟨word⟩ := Handle.ofTail_bytes ⟨word⟩
  rw [payload_widthCall rfl] at hsource
  rw [run_widthCall b s word w rfl, runMethod, runCast, hsource, recast,
    firstSlot_append word.length_bytes, hhandle]
  cases s.context.lookUp .cast ⟨word⟩ <;> rfl

/-- The price of a cast is the same for all widths. -/
lemma requiredGas_castCall (c : Context) :
    c.requiredGas supplied (widthCall Method.cast.signature word w) =
      ⟨c.params.gasCosts.cast, []⟩ := by
  have hlen : (word.bytes ++ [w.toByte]).length = 33 := by simp [word.length_bytes]
  rw [requiredGas_widthCall word w supplied rfl, Context.priceMethod, Context.priceCast,
    expectLength_eq_ok_iff.mpr hlen]
  rfl

lemma run_encryptCall :
    run b (widthCall Method.encrypt.signature word w) s =
      reported .encrypt (word.bytes ++ [w.toByte])
        (produce b (.encrypt (UInt64.ofNat word.toNat) w)
          (.encrypted (UInt64.ofNat word.toNat) w) s) := by
  obtain ⟨-, hwidth⟩ := encrypt_widthCall word w
  rw [payload_widthCall rfl] at hwidth
  rw [run_widthCall b s word w rfl, runMethod, runEncrypt, hwidth]
  simp only [firstSlot_append word.length_bytes, Word.low64_bytes]

lemma requiredGas_encryptCall (c : Context) :
    c.requiredGas supplied (widthCall Method.encrypt.signature word w) =
      ⟨c.params.gasCosts.encrypt.get w, []⟩ := by
  obtain ⟨-, hwidth⟩ := encrypt_widthCall word w
  rw [payload_widthCall rfl] at hwidth
  rw [requiredGas_widthCall word w supplied rfl, Context.priceMethod, Context.priceEncrypt, hwidth]
  rfl

end Meaning

/-! ## The main statement -/

/-- **A call delivers what was encoded.**

* A call with the signature of a method is run and metered as the method alone is, on the first
  bytes of its parts, up to the declared length.  What follows behind that length changes nothing.
* A call with two operands is resolved to the operands that its handle, its word and its flag mean,
  and these reach the run and the metering: what is run is the operation on them, and the price is
  that of their width.
* In the same way a cast is one of the ciphertext of its word to its width, and an encryption one of
  the number of its word, modulo `2 ^ 64`, with its width.
* An input that is too short for a selector, or begins with four bytes that are the selector of no
  method, is refused for that reason.  Nothing changes but for a report. -/
theorem calls_delivered (b : Backend) (s : Session) (supplied : UInt64) :
    (∀ (m : Method) (parts : List Bytes),
      run b (encodeCall m.signature parts) s =
          runMethod b (parts.flatten.take m.payloadLength) s m ∧
        s.context.requiredGas supplied (encodeCall m.signature parts) =
          s.context.priceMethod supplied (parts.flatten.take m.payloadLength) m) ∧
    (∀ (m : Method) (parts : List Bytes) (extra : Bytes),
      m.payloadLength ≤ parts.flatten.length →
      run b (encodeCall m.signature parts ++ extra) s = run b (encodeCall m.signature parts) s ∧
        s.context.requiredGas supplied (encodeCall m.signature parts ++ extra) =
          s.context.requiredGas supplied (encodeCall m.signature parts)) ∧
    (∀ (op : BinaryOp) (lhs : Handle) (rhs : Word) (scalar : Bool),
      s.context.resolveBinary op
          (op.method.payload (binaryCall op.method.signature lhs rhs scalar)) =
        s.context.operandsOf op lhs rhs scalar ∧
      run b (binaryCall op.method.signature lhs rhs scalar) s =
        reported op.method (lhs.bytes ++ (rhs.bytes ++ [flagByte scalar]))
          (operate b op lhs rhs scalar s) ∧
      s.context.requiredGas supplied (binaryCall op.method.signature lhs rhs scalar) =
        orZero op.method (lhs.bytes ++ (rhs.bytes ++ [flagByte scalar]))
          ((s.context.operandsOf op lhs rhs scalar).map fun o =>
            (op.prices s.context.params.gasCosts).get o.width)) ∧
    (∀ (word : Word) (w : Width),
      s.context.resolveCast (Method.cast.payload (widthCall Method.cast.signature word w)) =
        (s.context.lookUp .cast ⟨word⟩).map (·, w) ∧
      resolveEncryptWidth (Method.encrypt.payload (widthCall Method.encrypt.signature word w)) =
        .ok w ∧
      Bytes.low64 (firstSlot
          (Method.encrypt.payload (widthCall Method.encrypt.signature word w))) =
        UInt64.ofNat word.toNat ∧
      run b (widthCall Method.cast.signature word w) s =
        reported .cast (word.bytes ++ [w.toByte]) (recast b ⟨word⟩ w s) ∧
      s.context.requiredGas supplied (widthCall Method.cast.signature word w) =
        ⟨s.context.params.gasCosts.cast, []⟩ ∧
      run b (widthCall Method.encrypt.signature word w) s =
        reported .encrypt (word.bytes ++ [w.toByte])
          (produce b (.encrypt (UInt64.ofNat word.toNat) w)
            (.encrypted (UInt64.ofNat word.toNat) w) s) ∧
      s.context.requiredGas supplied (widthCall Method.encrypt.signature word w) =
        ⟨s.context.params.gasCosts.encrypt.get w, []⟩) ∧
    (∀ input : Bytes, input.length < 4 →
      run b input s = (.error (.missingSelector input.length),
        s.log (.runUndispatched (.missingSelector input.length) input))) ∧
    ∀ input : Bytes, 4 ≤ input.length →
      (∀ m : Method, input.take 4 ≠ selectorBytes m.selector) →
      ∃ selector : UInt32, selector.toNat = Bytes.toNatBE (input.take 4) ∧
        run b input s = (.error (.unknownSelector selector),
          s.log (.runUndispatched (.unknownSelector selector) input)) := by
  refine ⟨?parts, ?extra, ?operands, ?width, ?short, ?unlisted⟩
  case parts =>
    exact fun m parts => ⟨run_encodeCall m parts b s, requiredGas_encodeCall m parts _ supplied⟩
  case extra =>
    intro m parts extra hlen
    rw [encodeCall_append, run_encodeCall, run_encodeCall, requiredGas_encodeCall,
      requiredGas_encodeCall, take_flatten_append hlen]
    exact ⟨rfl, rfl⟩
  case operands =>
    intro op lhs rhs scalar
    exact ⟨s.context.resolveBinary_binaryCall op lhs rhs scalar,
      run_binaryCall b s op lhs rhs scalar, requiredGas_binaryCall op lhs rhs scalar supplied _⟩
  case width =>
    intro word w
    obtain ⟨hslot, hresolved⟩ := encrypt_widthCall word w
    refine ⟨s.context.resolveCast_widthCall word w, hresolved, ?_, run_castCall b s word w,
      requiredGas_castCall word w supplied _, run_encryptCall b s word w,
      requiredGas_encryptCall word w supplied _⟩
    rw [hslot, Word.low64_bytes]
  case short => exact fun input hlen => run_of_undispatched (dispatch_of_short hlen) b s
  case unlisted =>
    intro input hlen hunlisted
    exact ⟨_, toNat_ofNat_toNatBE_take input,
      run_of_undispatched (dispatch_of_unlisted hlen hunlisted) b s⟩

/-- Seven is encrypted with three bytes too many as it is without them.  A single byte is too short
for a selector, and `0xDEADBEEF` is the selector of no method. -/
theorem delivered_or_undispatched :
    run ⟨Clear.engine, fun _ => .zero⟩
        (widthCall Method.encrypt.signature (.ofNat 7) .euint8 ++ [1, 2, 3]) withheldSession =
      run ⟨Clear.engine, fun _ => .zero⟩
        (widthCall Method.encrypt.signature (.ofNat 7) .euint8) withheldSession ∧
    (run ⟨Clear.engine, fun _ => .zero⟩ [7] withheldSession).1 = .error (.missingSelector 1) ∧
    (run ⟨Clear.engine, fun _ => .zero⟩ [0xDE, 0xAD, 0xBE, 0xEF] withheldSession).1 =
      .error (.unknownSelector 0xDEADBEEF) := by
  obtain ⟨-, hextra, -, -, hshort, hunlisted⟩ :=
    calls_delivered ⟨Clear.engine, fun _ => .zero⟩ withheldSession 0
  have hunknown :
      [0xDE, 0xAD, 0xBE, 0xEF] ∉ (Method.all.map Method.selector).map selectorBytes := by
    rw [Method.map_selector_all]
    decide
  have hnone (m : Method) : [0xDE, 0xAD, 0xBE, 0xEF] ≠ selectorBytes m.selector := by
    intro h
    rw [h] at hunknown
    exact hunknown (List.mem_map_of_mem (List.mem_map_of_mem m.mem_all))
  obtain ⟨selector, hselector, hrun⟩ :=
    hunlisted [0xDE, 0xAD, 0xBE, 0xEF] (by decide) hnone
  obtain rfl : selector = 0xDEADBEEF := UInt32.toNat_inj.mp hselector
  refine ⟨(hextra .encrypt [(Word.ofNat 7).bytes, [Width.euint8.toByte]] [1, 2, 3] ?_).1, ?_, ?_⟩
  · simp [Word.length_bytes, Method.payloadLength]
  · rw [hshort [7] (by decide)]
    rfl
  · rw [hrun]

end CipherCalls
