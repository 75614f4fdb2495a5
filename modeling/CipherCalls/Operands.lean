/-
# Operands

Before anything is priced or executed, the payload of a call is resolved: its length is checked,
handles are looked up at the current depth, and bytes are read as widths.  The first violation
found is the one reported.

The payload of a method with two operands has 65 bytes: a handle, a word and a flag.  The flag 1
says that the word is a plain number; otherwise it is a second handle.
-/
import CipherCalls.Context

namespace CipherCalls

/-- The operands of a method with two operands. -/
inductive Operands where
  /-- Two ciphertexts of one width. -/
  | encrypted (lhs rhs : Ciphertext)
  /-- A ciphertext and a plain number. -/
  | scalar (lhs : Ciphertext) (rhs : UInt64)
deriving DecidableEq

namespace Operands

/-- The left operand, which is a ciphertext in either case. -/
def lhs : Operands → Ciphertext
  | encrypted lhs _ => lhs
  | scalar lhs _ => lhs

/-- The width of the result. -/
def width (o : Operands) : Width := o.lhs.width

end Operands

/-- What the engine is asked for on behalf of an operation and its operands. -/
def BinaryOp.request : BinaryOp → Operands → Except CallError Engine.Request
  | .add, .encrypted lhs rhs => .ok (.add lhs rhs)
  | .sub, .encrypted lhs rhs => .ok (.sub lhs rhs)
  | .bitAnd, .encrypted lhs rhs => .ok (.bitAnd lhs rhs)
  | .add, .scalar lhs rhs => .ok (.addScalar lhs rhs)
  | .sub, .scalar lhs rhs => .ok (.subScalar lhs rhs)
  | .bitAnd, .scalar _ _ => .error (.scalarNotSupported .bitAnd)

/-! ## The parts of a payload -/

/-- The first word of a payload. -/
def firstSlot (payload : Bytes) : Bytes := payload.take 32

/-- The second word of a payload. -/
def secondSlot (payload : Bytes) : Bytes := (payload.drop 32).take 32

/-- The length of a payload is the expected one. -/
def expectLength (m : Method) (payload : Bytes) (expected : Nat) : Except CallError Unit :=
  if payload.length = expected then .ok ()
  else .error (.invalidLength m payload.length expected)

/-- Whether the flag behind two words says that the second one is a plain number. -/
def isScalar (m : Method) (payload : Bytes) : Except CallError Bool := do
  expectLength m payload 65
  return payload.getD 64 0 = 1

/-- The width a byte stands for. -/
def parseWidth (m : Method) (byte : UInt8) : Except CallError Width :=
  match Width.ofByte? byte with
  | some w => .ok w
  | none => .error (.invalidWidth m byte)

namespace Context

/-- The ciphertext whose handle ends a byte string. -/
def resolveHandle (c : Context) (m : Method) (bytes : Bytes) : Except CallError Ciphertext :=
  match c.verified? (.ofTail bytes) with
  | some ct => .ok ct
  | none => .error (.unverified m (.ofTail bytes))

/-! ## Whole payloads -/

/-- The operands of a method with two operands. -/
def resolveBinary (c : Context) (op : BinaryOp) (payload : Bytes) : Except CallError Operands := do
  if ← isScalar op.method payload then
    if !op.supportsScalar then throw (.scalarNotSupported op.method)
    let lhs ← c.resolveHandle op.method (firstSlot payload)
    return .scalar lhs (Bytes.low64 (secondSlot payload))
  let lhs ← c.resolveHandle op.method (firstSlot payload)
  let rhs ← c.resolveHandle op.method (secondSlot payload)
  if lhs.width ≠ rhs.width then throw (.widthMismatch op.method lhs.width rhs.width)
  return .encrypted lhs rhs

/-- The ciphertext and the new width of a cast. -/
def resolveCast (c : Context) (payload : Bytes) : Except CallError (Ciphertext × Width) := do
  expectLength .cast payload 33
  let source ← c.resolveHandle .cast (firstSlot payload)
  let width ← parseWidth .cast (payload.getD 32 0)
  return (source, width)

/-- The ciphertext of a method whose only argument is a handle. -/
def resolveTarget (c : Context) (m : Method) (payload : Bytes) : Except CallError Ciphertext := do
  expectLength m payload 32
  c.resolveHandle m payload

end Context

/-- The width in the payload of an encryption. -/
def resolveEncryptWidth (payload : Bytes) : Except CallError Width := do
  expectLength .encrypt payload 33
  parseWidth .encrypt (payload.getD 32 0)

end CipherCalls
