/-
# Execution

Running a method takes a session to a result and a new session.  While estimating, methods that
produce a ciphertext register a stand-in of the right width instead of asking the engine, and
decryption reveals nothing.  Otherwise a plaintext is revealed only after all pending requirements
have been found to hold.

Every failure is reported.  Successes are reported only when the host commits.
-/
import CipherCalls.Encoding
import CipherCalls.Operands

namespace CipherCalls

/-- What running a method gives: a result, and the session after it. -/
abbrev Outcome (α : Type) := Except CallError α × Session

/-- A failure of a method is reported. -/
def reported {α : Type} (m : Method) (payload : Bytes) : Outcome α → Outcome α
  | (.error cause, s) => (.error cause, s.log (.runFailed m cause payload))
  | (.ok a, s) => (.ok a, s)

/-! ## Producing ciphertexts -/

/-- The ciphertext a request asks for; while estimating, a stand-in of its width. -/
def obtain (b : Backend) (request : Engine.Request) (s : Session) :
    Except EngineError Ciphertext × Session :=
  if s.context.mode = .estimating then
    let (c, journal) := s.journal.draw b.standIn request.width
    (.ok c, { s with journal })
  else
    let (answer, journal) := s.journal.produce b.engine request
    (answer, { s with journal })

/-- The ciphertext a request asks for is registered, and its handle is returned.  The success is
reported by an event that mentions the handle. -/
def produce (b : Backend) (request : Engine.Request) (success : Handle → Event) (s : Session) :
    Outcome Bytes :=
  match obtain b request s with
  | (.error cause, s) => (.error (.engine cause), s)
  | (.ok c, s) =>
    (.ok c.handle.bytes, { s with context := s.context.register c }.logCommitted (success c.handle))

/-- How the success of an operation on operands from a payload is reported. -/
def combinedEvent (op : BinaryOp) (payload : Bytes) (o : Operands) (result : Handle) : Event :=
  let lhs := Handle.ofTail (firstSlot payload)
  match o with
  | .encrypted _ _ => .combined op lhs (.ofTail (secondSlot payload)) result
  | .scalar _ rhs => .combinedScalar op lhs rhs result

/-- An operation on two operands. -/
def runBinary (b : Backend) (op : BinaryOp) (payload : Bytes) (s : Session) : Outcome Bytes :=
  match s.context.resolveBinary op payload with
  | .error cause => (.error cause, s)
  | .ok operands =>
    match op.request operands with
    | .error cause => (.error cause, s)
    | .ok request => produce b request (combinedEvent op payload operands) s

/-- A change of width. -/
def runCast (b : Backend) (payload : Bytes) (s : Session) : Outcome Bytes :=
  match s.context.resolveCast payload with
  | .error cause => (.error cause, s)
  | .ok (source, width) =>
    produce b (.cast source width) (.recast (.ofTail (firstSlot payload)) width) s

/-- The encryption of a plain number. -/
def runEncrypt (b : Backend) (payload : Bytes) (s : Session) : Outcome Bytes :=
  match resolveEncryptWidth payload with
  | .error cause => (.error cause, s)
  | .ok width =>
    let value := Bytes.low64 (firstSlot payload)
    produce b (.encrypt value width) (.encrypted value width) s

/-! ## Requirements and decryption -/

/-- The pending requirements are used up and must all hold. -/
def settleRequires (b : Backend) (s : Session) : Outcome Unit :=
  let requires := s.context.vault.requires
  let (result, left, journal) := requires.evaluate b.engine s.journal
  let s : Session :=
    ⟨{ s.context with vault := { s.context.vault with requires := left } }, journal⟩
  match result with
  | .ok true => (.ok (), s)
  | .ok false => (.error .reverted, s.log (.requireUnmet requires.size))
  | .error cause =>
    (.error (.requireEvaluation cause), s.log (.requireFailed requires.size cause))

/-- The plaintext of a ciphertext is revealed, unless a requirement forbids it.  While estimating
only the size of the answer matters. -/
def runDecrypt (b : Backend) (payload : Bytes) (s : Session) : Outcome Bytes :=
  match s.context.resolveTarget .decrypt payload with
  | .error cause => (.error cause, s)
  | .ok target =>
    if s.context.mode = .estimating then (.ok Word.full.bytes, s)
    else
      match settleRequires b s with
      | (.error cause, s) => (.error cause, s)
      | (.ok (), s) =>
        let (answer, journal) := s.journal.decrypt b.engine target
        let s := { s with journal }
        match answer with
        | .error cause => (.error (.engine cause), s)
        | .ok value =>
          (.ok (Word.ofUInt64 value).bytes, s.logCommitted (.decrypted (.ofTail payload)))

/-- A requirement is stated.  Nothing is computed, so that all modes agree. -/
def runRequire (payload : Bytes) (s : Session) : Outcome Bytes :=
  match s.context.resolveTarget .require payload with
  | .error cause => (.error cause, s)
  | .ok condition => (.ok [], { s with context := s.context.require condition })

/-! ## The public key -/

/-- The public key is served if it is the one on record.  A first byte 1 asks for it behind an
offset word. -/
def runPublicKey (payload : Bytes) (s : Session) : Outcome Bytes :=
  match s.context.publicKey with
  | none => (.error .keyMissing, s.log .keyMissing)
  | some key =>
    if s.context.recordedHash ≠ some key.hash then
      (.error .keyMismatch, s.log (.keyMismatch key.hash))
    else
      let wrapped : Bool := payload.head? = some 1
      let output := if wrapped then wrapBytes key.bytes else key.bytes
      (.ok output, s.logCommitted (.keyServed output.length wrapped))

/-! ## All methods -/

/-- A method is run on a payload. -/
def runMethod (b : Backend) (payload : Bytes) (s : Session) : Method → Outcome Bytes
  | .add => reported .add payload (runBinary b .add payload s)
  | .sub => reported .sub payload (runBinary b .sub payload s)
  | .bitAnd => reported .bitAnd payload (runBinary b .bitAnd payload s)
  | .cast => reported .cast payload (runCast b payload s)
  | .decrypt => reported .decrypt payload (runDecrypt b payload s)
  | .publicKey => runPublicKey payload s
  | .encrypt => reported .encrypt payload (runEncrypt b payload s)
  | .require => reported .require payload (runRequire payload s)
  | .padGas => (.ok [], s)

end CipherCalls
