/-
# Reports

What an invocation of the program prints is a function of its arguments and of the files it
reads.  The command `call` prints one line for every call, in compact JSON: the price, and the
output or the error.  A call that fails does not stop the others; a call that is no hexadecimal
text ends the report.
-/
import CipherCalls.CommandLine.Arguments
import CipherCalls.Dispatch
import CipherCalls.Engine.Clear
import CipherCalls.Stored.Params

namespace CipherCalls.CommandLine

/-- What the program prints, and how it ends. -/
structure Report where
  lines : List String
  /-- What was wrong, if something was. -/
  complaint : Option String := none
deriving DecidableEq

/-- The exit code: 1 if there is a complaint. -/
def Report.code (r : Report) : Nat := if r.complaint.isSome then 1 else 0

/-- The lines of the command `selectors`. -/
def selectorLines : List String :=
  Method.all.map fun m => selectorText m.selector ++ "  " ++ m.signature

/-- A hexadecimal text without the marks `0x` in front of it. -/
def stripMarks : List Char → List Char
  | '0' :: 'x' :: s => stripMarks s
  | s => s

/-- The input a call stands for. -/
def decodeCall? (call : String) : Option Bytes := Bytes.ofHex? (stripMarks call.toList)

/-- The line for a call. -/
def callLine (price : UInt64) (result : Except CallError Bytes) : String :=
  Json.Lexemes.compact <|
    match result with
    | .ok output =>
      .object [("gas", .ofNat price.toNat), ("output", .ofText ("0x" ++ Bytes.hex output))]
    | .error cause =>
      .object [("error", .ofText cause.message), ("gas", .ofNat price.toNat),
        ("revert", .ofBool cause.isRevert)]

/-- One call is priced, with all gas supplied, and run. -/
def step (b : Backend) (input : Bytes) (s : Session) : String × Session :=
  let metered := s.context.requiredGas s.context.gasLimit input
  let (result, s) := run b input (s.logAll metered.events)
  (callLine metered.price result, s)

/-- Calls are priced and run, one after the other. -/
def reportCalls (b : Backend) : List String → Session → Report
  | [], _ => ⟨[], none⟩
  | call :: calls, s =>
    match decodeCall? call with
    | none => ⟨[], some s!"decoding call {call}"⟩
    | some input =>
      let (line, s) := step b input s
      let rest := reportCalls b calls s
      ⟨line :: rest.lines, rest.complaint⟩

/-- The parameters to use. -/
def loadParams (read : String → Option Bytes) : Option String → Except String Params
  | none => .ok .default
  | some path => (Params.ofFile (read path)).mapError fun _ => s!"loading params from {path}"

/-- The public key to use. -/
def loadKey (read : String → Option Bytes) : Option String → Except String (Option PublicKey)
  | none => .ok none
  | some path =>
    match read path with
    | some bs => .ok (some ⟨bs⟩)
    | none => .error s!"loading public key from {path}"

/-- The session in which calls are run: a fresh one, with the digest of the key on record. -/
def freshSession (params : Params) (key : Option PublicKey) (options : CallOptions) : Session where
  context :=
    { mode := options.mode, depth := options.depth, gasLimit := options.gasLimit, params,
      publicKey := key, recordedHash := key.map PublicKey.hash }

/-- What an invocation prints, given what is in the files it reads and the payloads for
stand-ins. -/
def Invocation.report (i : Invocation) (read : String → Option Bytes) (standIn : Nat → Word) :
    Report :=
  match i.command with
  | .selectors => ⟨selectorLines, none⟩
  | .call options =>
    match loadParams read i.paramsPath with
    | .error complaint => ⟨[], some complaint⟩
    | .ok params =>
      match loadKey read i.keyPath with
      | .error complaint => ⟨[], some complaint⟩
      | .ok key =>
        reportCalls ⟨Clear.engine, standIn⟩ options.calls (freshSession params key options)

end CipherCalls.CommandLine
