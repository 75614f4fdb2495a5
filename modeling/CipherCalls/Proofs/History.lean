/-
# Histories of a session

Between the calls of a session the host works on the registry and changes the settings of the
session.  A *step* is either a call or one of these operations, and a history is a list of steps.
-/
import Mathlib
import CipherCalls.Proofs.Effect

namespace CipherCalls

/-! ## What a host does to a context -/

namespace Context

/-- The context moves to another depth. -/
def setDepth (c : Context) (d : Nat) : Context := { c with depth := d }

/-- A handle is made visible at one more depth, if it is known. -/
def delegate (c : Context) (h : Handle) (d : Nat) : Context :=
  { c with
    vault := { c.vault with registry := (c.vault.registry.delegate? h d).getD c.vault.registry } }

/-- A depth is retired. -/
def retire (c : Context) (d : Nat) : Context :=
  { c with vault := { c.vault with registry := c.vault.registry.retire d } }

/-- What calls have left behind is handed over to a context with other settings. -/
def handOver (c settings : Context) : Context := { settings with vault := c.vault }

end Context

/-! ## Steps -/

/-- A step of a session. -/
inductive Step where
  /-- An input is run. -/
  | run (input : Bytes)
  /-- The price of an input is computed. -/
  | meter (supplied : UInt64) (input : Bytes)
  /-- A ciphertext is made visible at the current depth. -/
  | register (c : Ciphertext)
  | delegate (h : Handle) (d : Nat)
  | retire (d : Nat)
  | setDepth (d : Nat)
  | handOver (settings : Context)
  /-- The pending requirements are checked without a decryption. -/
  | settle

/-- The session after a step. -/
def Step.apply (b : Backend) (s : Session) : Step → Session
  | run input => (CipherCalls.run b input s).2
  | meter supplied input => s.logAll (s.context.requiredGas supplied input).events
  | register c => { s with context := s.context.register c }
  | delegate h d => { s with context := s.context.delegate h d }
  | retire d => { s with context := s.context.retire d }
  | setDepth d => { s with context := s.context.setDepth d }
  | handOver settings => { s with context := s.context.handOver settings }
  | settle => (settleRequires b s).2

namespace Session

/-- A session with given settings in which nothing has happened yet. -/
def fresh (settings : Context) : Session := ⟨{ settings with vault := {} }, {}⟩

/-- The session after a history. -/
def after (b : Backend) (s : Session) (steps : List Step) : Session := steps.foldl (Step.apply b) s

lemma after_cons (b : Backend) (s : Session) (x : Step) (steps : List Step) :
    s.after b (x :: steps) = (x.apply b s).after b steps := rfl

lemma after_append (b : Backend) (s : Session) (before later : List Step) :
    s.after b (before ++ later) = (s.after b before).after b later :=
  List.foldl_append

lemma after_append_singleton (b : Backend) (s : Session) (steps : List Step) (x : Step) :
    s.after b (steps ++ [x]) = x.apply b (s.after b steps) :=
  after_append b s steps [x]

/-- Reports are added to the journal, and that is all. -/
lemma logAll_eq (s : Session) (es : List Event) :
    s.logAll es = { s with journal := { s.journal with events := s.journal.events ++ es } } := by
  induction es generalizing s with
  | nil => simp [logAll]
  | cons e es ih =>
      refine (ih (s.log e)).trans ?_
      simp [log, Journal.log]

@[simp] lemma context_logAll (s : Session) (es : List Event) :
    (s.logAll es).context = s.context := by
  rw [logAll_eq]

@[simp] lemma calls_logAll (s : Session) (es : List Event) :
    (s.logAll es).journal.calls = s.journal.calls := by
  rw [logAll_eq]

end Session

end CipherCalls
