/-
# Engines that give out

An engine that answers as another one does until a chosen operation has been asked for a number of
times, and refuses that operation from then on.
-/
import CipherCalls.Engine.Basic

namespace CipherCalls.Engine

/-- Which operation is refused, after how many answers, and with what error. -/
structure Outage where
  operation : String
  after : Nat
  refusal : Call → EngineError

namespace Outage

/-- Whether the outage refuses a question asked after some others. -/
def refuses (o : Outage) (past : List Call) (call : Call) : Bool :=
  call.operation = o.operation ∧ o.after ≤ (past.filter (·.operation = o.operation)).length

end Outage

/-- The engine with an outage. -/
def failing (e : Engine) (o : Outage) : Engine where
  produce past request :=
    if o.refuses past (.produce request) then .error (o.refusal (.produce request))
    else e.produce past request
  decrypt past target :=
    if o.refuses past (.decrypt target) then .error (o.refusal (.decrypt target))
    else e.decrypt past target

end CipherCalls.Engine
