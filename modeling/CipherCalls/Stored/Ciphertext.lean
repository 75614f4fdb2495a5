/-
# Stored ciphertexts

Widths, modes, handles and ciphertexts as JSON.  Widths and modes are names, a handle is the list
of its 32 bytes, and a ciphertext is a record of its width and its payload.
-/
import CipherCalls.Ciphertext
import CipherCalls.Json.Record
import CipherCalls.Json.Written
import CipherCalls.Mode

namespace CipherCalls

open Json

/-- Reads a byte. -/
def readByte : Reader UInt8 := fun s => (natural UInt8.size s).map (·.map UInt8.ofNat)

/-- Bytes as a list of numbers. -/
def writeBytes (bs : Bytes) : Lexemes := .list (bs.map fun b => .ofNat b.toNat)

namespace Width

/-- Reads a width. -/
def read : Reader Width := choice (all.map fun w => (w.name, w))

/-- A width as JSON. -/
def write (w : Width) : Lexemes := .ofText w.name

end Width

namespace Mode

/-- Reads a mode. -/
def read : Reader Mode := choice (all.map fun m => (m.name, m))

/-- A mode as JSON. -/
def write (m : Mode) : Lexemes := .ofText m.name

end Mode

namespace Handle

/-- Reads a handle. -/
def read : Reader Handle := fun s =>
  (exactList 32 readByte s).map (·.map Handle.ofTail)

/-- A handle as JSON. -/
def write (h : Handle) : Lexemes := writeBytes h.bytes

end Handle

namespace Ciphertext

/-- A ciphertext has two fields, and both have to be there. -/
def shape : Shape Ciphertext where
  fields :=
    [.ofReader "fhe_type" Width.read fun w c => { c with width := w },
      .ofReader "payload" (list readByte) fun p c => { c with payload := p }]
  start := ⟨.euint4, []⟩
  complete := true

/-- Reads a ciphertext. -/
def read : Reader Ciphertext := shape.read

/-- A ciphertext as JSON. -/
def write (c : Ciphertext) : Lexemes :=
  .object [("fhe_type", c.width.write), ("payload", writeBytes c.payload)]

end Ciphertext

end CipherCalls
