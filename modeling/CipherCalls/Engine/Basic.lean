/-
# Engines

The arithmetic on ciphertexts is done by an engine, of which only its answers are known.  An
engine is asked either for a new ciphertext (a `Request`) or for the plaintext of a ciphertext.
Its answer may depend on everything it was asked before, so an engine here is a function of the
list of earlier questions and of the present one.  This covers engines that start to fail after a
while; an engine is *steady* when its answers depend on the present question only.
-/
import CipherCalls.Ciphertext

namespace CipherCalls

/-- Why an engine gives no answer. -/
inductive EngineError where
  /-- Two operands should have the same width. -/
  | widthMismatch (lhs rhs : Width)
  /-- The operation does not exist for a width. -/
  | unsupported (operation : String) (width : Width)
  /-- A byte stands for no width. -/
  | invalidWidth (byte : UInt8)
  /-- A payload cannot be understood. -/
  | malformed (reason : String)
  /-- Anything else. -/
  | other (reason : String)
deriving DecidableEq

/-- The text of an engine error. -/
def EngineError.message : EngineError → String
  | .widthMismatch lhs rhs => s!"operand type mismatch: {lhs.text} vs {rhs.text}"
  | .unsupported operation width => s!"{operation} is not supported for {width.text}"
  | .invalidWidth byte => "invalid ciphertext type byte 0x" ++ Bytes.hex [byte]
  | .malformed reason => s!"malformed ciphertext payload: {reason}"
  | .other reason => s!"engine failure: {reason}"

namespace Engine

/-- A question that is answered by a new ciphertext. -/
inductive Request where
  | add (lhs rhs : Ciphertext)
  | sub (lhs rhs : Ciphertext)
  | addScalar (lhs : Ciphertext) (rhs : UInt64)
  | subScalar (lhs : Ciphertext) (rhs : UInt64)
  | bitAnd (lhs rhs : Ciphertext)
  | cast (source : Ciphertext) (width : Width)
  | encrypt (value : UInt64) (width : Width)
deriving DecidableEq

namespace Request

/-- The operation a request asks for. -/
def operation : Request → String
  | add .. => "add"
  | sub .. => "sub"
  | addScalar .. => "scalar_add"
  | subScalar .. => "scalar_sub"
  | bitAnd .. => "bitand"
  | cast .. => "cast_to"
  | encrypt .. => "trivial_encrypt"

/-- The width of the ciphertext a request asks for: that of the left operand, or the one it
names. -/
def width : Request → Width
  | add lhs _ | sub lhs _ | addScalar lhs _ | subScalar lhs _ | bitAnd lhs _ => lhs.width
  | cast _ width | encrypt _ width => width

/-- The width a refusal of the request speaks of: that of the first ciphertext it mentions, or
the one it names. -/
def subject : Request → Width
  | add lhs _ | sub lhs _ | addScalar lhs _ | subScalar lhs _ | bitAnd lhs _ => lhs.width
  | cast source _ => source.width
  | encrypt _ width => width

end Request

/-- Any question put to an engine. -/
inductive Call where
  | produce (request : Request)
  | decrypt (target : Ciphertext)
deriving DecidableEq

namespace Call

/-- The operation a question asks for. -/
def operation : Call → String
  | produce request => request.operation
  | decrypt _ => "decrypt"

/-- The width a refusal of the question speaks of. -/
def subject : Call → Width
  | produce request => request.subject
  | decrypt target => target.width

end Call

end Engine

/-- An engine, given by its answers.  The list holds what it was asked before, oldest first. -/
structure Engine where
  produce : List Engine.Call → Engine.Request → Except EngineError Ciphertext
  decrypt : List Engine.Call → Ciphertext → Except EngineError UInt64

namespace Engine

/-- The answers of the engine do not depend on what it was asked before. -/
def Steady (e : Engine) : Prop :=
  ∀ past past', e.produce past = e.produce past' ∧ e.decrypt past = e.decrypt past'

end Engine

end CipherCalls
