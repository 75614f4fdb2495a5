/-
# Events

What happens during a call is reported by events.  An event is a failure or, when the host
commits, a success.  Each kind of event has a fixed message and fixed fields.
-/
import CipherCalls.CallError

namespace CipherCalls

/-- The operation of a method with two operands. -/
inductive BinaryOp where
  | add
  | sub
  | bitAnd
deriving DecidableEq, Repr

namespace BinaryOp

/-- The method that carries out an operation. -/
def method : BinaryOp → Method
  | add => .add
  | sub => .sub
  | bitAnd => .bitAnd

/-- Whether the right operand may be a plain number. -/
def supportsScalar : BinaryOp → Bool
  | add | sub => true
  | bitAnd => false

end BinaryOp

/-- Something worth reporting. -/
inductive Event where
  /-- Metering found no method for an input. -/
  | meteringUndispatched (cause : CallError) (input : Bytes)
  /-- Metering could not price a payload. -/
  | meteringFailed (method : Method) (cause : CallError) (payload : Bytes)
  /-- No method could be run for an input. -/
  | runUndispatched (cause : CallError) (input : Bytes)
  /-- A method failed on a payload. -/
  | runFailed (method : Method) (cause : CallError) (payload : Bytes)
  /-- Two ciphertexts were combined. -/
  | combined (op : BinaryOp) (lhs rhs result : Handle)
  /-- A ciphertext and a plain number were combined. -/
  | combinedScalar (op : BinaryOp) (lhs : Handle) (scalar : UInt64) (result : Handle)
  /-- A ciphertext was given another width. -/
  | recast (source : Handle) (width : Width) (result : Handle)
  /-- A plain number was encrypted. -/
  | encrypted (value : UInt64) (width : Width) (result : Handle)
  /-- A ciphertext was decrypted. -/
  | decrypted (target : Handle)
  /-- The engine refused to combine two pending requirements. -/
  | conjunctionFailed (cause : EngineError)
  /-- Of some pending requirements, not all hold. -/
  | requireUnmet (count : Nat)
  /-- Some pending requirements could not be evaluated. -/
  | requireFailed (count : Nat) (cause : EngineError)
  /-- There is no public key to serve. -/
  | keyMissing
  /-- The public key has not the digest on record. -/
  | keyMismatch (hash : Word)
  /-- The public key was served. -/
  | keyServed (length : Nat) (wrapped : Bool)
deriving DecidableEq

/-- How grave an event is. -/
inductive Level where
  | error
  | info
deriving DecidableEq

/-- The name of a level. -/
def Level.text : Level → String
  | .error => "ERROR"
  | .info => "INFO"

/-- The value of a field. -/
inductive FieldValue where
  | text (s : String)
  | number (n : Nat)
  | flag (b : Bool)
deriving DecidableEq

namespace Event

/-- Successes inform; everything else is an error. -/
def level : Event → Level
  | combined .. | combinedScalar .. | recast .. | encrypted .. | decrypted .. | keyServed .. =>
    .info
  | _ => .error

/-- The message of an event. -/
def message : Event → String
  | meteringUndispatched .. => "required gas dispatch failed"
  | meteringFailed .. => "required gas failed"
  | runUndispatched .. => "run dispatch failed"
  | runFailed .. => "run failed"
  | combined .. | combinedScalar .. | recast .. | encrypted .. => "success"
  | decrypted .. => "decrypt success"
  | conjunctionFailed .. => "optimistic require bitand failed"
  | requireUnmet .. => "optimistic require evaluated to false"
  | requireFailed .. => "optimistic require evaluation failed"
  | keyMissing => "fhePubKey: no public key configured"
  | keyMismatch .. => "fhePubKey: public key hash does not match stored value"
  | keyServed .. => "fhePubKey success"

/-- The fields of an event, besides its message. -/
def fields : Event → List (String × FieldValue)
  | meteringUndispatched cause input | runUndispatched cause input =>
    [("err", .text cause.message), ("input", .text (Bytes.hex input))]
  | meteringFailed method cause payload | runFailed method cause payload =>
    [("method", .text method.name), ("err", .text cause.message),
      ("input", .text (Bytes.hex payload)), ("len", .number payload.length)]
  | combined op lhs rhs result =>
    [("method", .text op.method.name), ("lhs", .text lhs.text), ("rhs", .text rhs.text),
      ("result", .text result.text)]
  | combinedScalar op lhs scalar result =>
    [("method", .text op.method.name), ("lhs", .text lhs.text),
      ("scalar", .number scalar.toNat), ("result", .text result.text)]
  | recast source width result =>
    [("method", .text Method.cast.name), ("source", .text source.text), ("to", .text width.text),
      ("result", .text result.text)]
  | encrypted value width result =>
    [("method", .text Method.encrypt.name), ("value", .number value.toNat),
      ("to", .text width.text), ("result", .text result.text)]
  | decrypted target => [("handle", .text target.text)]
  | conjunctionFailed cause => [("err", .text cause.message)]
  | requireUnmet count => [("count", .number count)]
  | requireFailed count cause => [("count", .number count), ("err", .text cause.message)]
  | keyMissing => []
  | keyMismatch hash => [("expected", .text hash.hex)]
  | keyServed length wrapped => [("len", .number length), ("wrap", .flag wrapped)]

end Event

end CipherCalls
