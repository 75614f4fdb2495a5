/-
# Contexts and sessions

A context is what a host provides for a call: the settings of the call, the public key, and the
vault with everything that calls leave behind.  A session is a context together with the journal
of what has happened so far.
-/
import CipherCalls.Mode
import CipherCalls.Params
import CipherCalls.PublicKey
import CipherCalls.Registry
import CipherCalls.Requires

namespace CipherCalls

/-- What calls leave behind for later calls. -/
structure Vault where
  registry : Registry := .empty
  requires : Requires := .empty

/-- Everything a call can see. -/
structure Context where
  mode : Mode
  depth : Nat := 1
  gasLimit : UInt64 := 30000000
  params : Params := .default
  publicKey : Option PublicKey := none
  /-- The digest of the public key that the host has on record. -/
  recordedHash : Option Word := none
  vault : Vault := {}

namespace Context

/-- The ciphertext of a handle that is visible at the current depth. -/
def verified? (c : Context) (h : Handle) : Option Ciphertext :=
  c.vault.registry.get? h c.depth

/-- A ciphertext is made visible at the current depth. -/
def register (c : Context) (ct : Ciphertext) : Context :=
  { c with vault := { c.vault with registry := c.vault.registry.register ct c.depth } }

/-- A requirement is stated. -/
def require (c : Context) (condition : Ciphertext) : Context :=
  { c with vault := { c.vault with requires := c.vault.requires.push condition } }

end Context

/-- A context and the journal so far. -/
structure Session where
  context : Context
  journal : Journal := {}

namespace Session

/-- An event is reported. -/
def log (s : Session) (e : Event) : Session := { s with journal := s.journal.log e }

/-- An event is reported if the host commits. -/
def logCommitted (s : Session) (e : Event) : Session :=
  if s.context.mode = .committing then s.log e else s

/-- The events of metering are reported. -/
def logAll (s : Session) (es : List Event) : Session := es.foldl Session.log s

end Session

end CipherCalls
