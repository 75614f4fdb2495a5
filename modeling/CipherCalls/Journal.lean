/-
# The journal

Whatever reaches the world outside a call is written into a journal: the questions put to the
engine, the events reported, and how many stand-ins were drawn.  Since an engine may remember what
it was asked, the journal is also what its next answer depends on.
-/
import CipherCalls.Event

namespace CipherCalls

/-- What a call relies on: an engine, and payloads for stand-ins, the first of which is drawn
first. -/
structure Backend where
  engine : Engine
  standIn : Nat → Word

/-- What has reached the outside so far. -/
structure Journal where
  /-- The questions put to the engine, oldest first. -/
  calls : List Engine.Call := []
  /-- The events reported, oldest first. -/
  events : List Event := []
  /-- The number of stand-ins drawn. -/
  drawn : Nat := 0
deriving DecidableEq

namespace Journal

/-- An event is reported. -/
def log (j : Journal) (e : Event) : Journal := { j with events := j.events ++ [e] }

/-- The engine is asked for a ciphertext. -/
def produce (j : Journal) (e : Engine) (request : Engine.Request) :
    Except EngineError Ciphertext × Journal :=
  (e.produce j.calls request, { j with calls := j.calls ++ [.produce request] })

/-- The engine is asked for a plaintext. -/
def decrypt (j : Journal) (e : Engine) (target : Ciphertext) :
    Except EngineError UInt64 × Journal :=
  (e.decrypt j.calls target, { j with calls := j.calls ++ [.decrypt target] })

/-- A stand-in of a given width is drawn. -/
def draw (j : Journal) (standIn : Nat → Word) (w : Width) : Ciphertext × Journal :=
  (⟨w, (standIn j.drawn).bytes⟩, { j with drawn := j.drawn + 1 })

end Journal

end CipherCalls
