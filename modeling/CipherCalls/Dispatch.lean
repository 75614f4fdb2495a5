/-
# Dispatch

The entry points for a host: `requiredGas` gives the price of a call and `run` executes it.  Both
take the input as it was sent, find the method by the selector in front, and hand on the payload.
-/
import CipherCalls.Metering
import CipherCalls.Execution

namespace CipherCalls

/-- The method an input calls. -/
def dispatch (input : Bytes) : Except CallError Method :=
  if input.length < 4 then .error (.missingSelector input.length)
  else
    let selector := UInt32.ofNat (Bytes.toNatBE (input.take 4))
    match Method.ofSelector? selector with
    | some m => .ok m
    | none => .error (.unknownSelector selector)

/-- The price of a call when some gas was supplied.  The price 0 means that the call cannot
proceed. -/
def Context.requiredGas (c : Context) (supplied : UInt64) (input : Bytes) : Metered :=
  match dispatch input with
  | .ok m => c.priceMethod supplied (m.payload input) m
  | .error cause => ⟨0, [.meteringUndispatched cause input]⟩

/-- A call is executed. -/
def run (b : Backend) (input : Bytes) (s : Session) : Outcome Bytes :=
  match dispatch input with
  | .ok m => runMethod b (m.payload input) s m
  | .error cause => (.error cause, s.log (.runUndispatched cause input))

end CipherCalls
