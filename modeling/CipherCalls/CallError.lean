/-
# Why a call fails

Every failure has a cause, and the text shown for it is computed from the cause.  Two causes are
*reverts*: legitimate outcomes of a program whose condition was not met.
-/
import CipherCalls.Engine.Basic
import CipherCalls.Method

namespace CipherCalls

/-- The cause of a failure. -/
inductive CallError where
  /-- The input is too short to hold a selector. -/
  | missingSelector (length : Nat)
  /-- No method has the selector. -/
  | unknownSelector (selector : UInt32)
  /-- The payload has the wrong length. -/
  | invalidLength (method : Method) (length expected : Nat)
  /-- A byte of the payload should stand for a width and does not. -/
  | invalidWidth (method : Method) (byte : UInt8)
  /-- A handle is not visible at the current depth. -/
  | unverified (method : Method) (handle : Handle)
  /-- The operands have different widths. -/
  | widthMismatch (method : Method) (lhs rhs : Width)
  /-- The method takes no plain number. -/
  | scalarNotSupported (method : Method)
  /-- A pending requirement does not hold. -/
  | reverted
  /-- The pending requirements could not be evaluated. -/
  | requireEvaluation (cause : EngineError)
  /-- The public key is not the one the host recorded. -/
  | keyMismatch
  /-- There is no public key. -/
  | keyMissing
  /-- The engine failed. -/
  | engine (cause : EngineError)
deriving DecidableEq

namespace CallError

/-- The text of a failure. -/
def message : CallError → String
  | missingSelector length =>
    s!"input must contain at least 4 bytes for method signature, got {length}"
  | unknownSelector selector => "precompile method not found: " ++ selectorText selector
  | invalidLength method length expected =>
    s!"{method.name}: input length {length}, expected {expected}"
  | invalidWidth method byte =>
    s!"{method.name}: invalid ciphertext type byte 0x" ++ Bytes.hex [byte]
  | unverified method handle => s!"{method.name}: unverified ciphertext handle {handle.text}"
  | widthMismatch method lhs rhs =>
    s!"{method.name}: operand type mismatch, lhs {lhs.text} rhs {rhs.text}"
  | scalarNotSupported method => s!"{method.name}: scalar operand not supported"
  | reverted => "execution reverted"
  | requireEvaluation cause =>
    s!"execution reverted: optimistic require evaluation failed: {cause.message}"
  | keyMismatch => "public key hash does not match stored value"
  | keyMissing => "public key not configured"
  | engine cause => cause.message

/-- Whether the failure is an outcome of the program rather than a violation of the protocol. -/
def isRevert : CallError → Bool
  | reverted | requireEvaluation _ => true
  | _ => false

end CallError

end CipherCalls
