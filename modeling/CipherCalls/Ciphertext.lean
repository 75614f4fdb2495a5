/-
# Ciphertexts and their handles

A ciphertext is an opaque payload together with the width of the integer it hides.  Outside of the
engine it is only ever named by its handle, the digest of its serialized form.
-/
import CipherCalls.Keccak.Digest
import CipherCalls.Width

namespace CipherCalls

/-- The name of a ciphertext, derived from its content. -/
structure Handle where
  word : Word
deriving DecidableEq

namespace Handle

/-- The bytes of a handle, as calls carry them. -/
def bytes (h : Handle) : Bytes := h.word.bytes

/-- A byte string as a handle, if it has the right length. -/
def ofBytes? (bs : Bytes) : Option Handle := (Word.ofBytes? bs).map Handle.mk

/-- The handle read from the end of a byte string of any length. -/
def ofTail (bs : Bytes) : Handle := ⟨.ofTail bs⟩

/-- The handle of zeros. -/
def zero : Handle := ⟨.zero⟩

/-- A handle as messages show it. -/
def text (h : Handle) : String := "0x" ++ h.word.hex

/-- A handle as a developer wants to see it. -/
def inspect (h : Handle) : String := s!"Handle({h.text})"

@[simp] theorem length_bytes (h : Handle) : h.bytes.length = 32 := h.word.length_bytes

end Handle

/-- An encrypted integer: its width, and what only the engine understands. -/
structure Ciphertext where
  width : Width
  payload : Bytes
deriving DecidableEq

namespace Ciphertext

/-- The byte of the width followed by the payload. -/
def serialized (c : Ciphertext) : Bytes := c.width.toByte :: c.payload

/-- The digest of the serialized form. -/
def handle (c : Ciphertext) : Handle := ⟨Keccak.digest c.serialized⟩

/-- A ciphertext is determined by its serialized form. -/
theorem serialized_injective {c d : Ciphertext} (h : c.serialized = d.serialized) : c = d := by
  obtain ⟨v, p⟩ := c
  obtain ⟨w, q⟩ := d
  obtain ⟨hb, rfl⟩ := List.cons.inj h
  have hw : some v = some w := by
    rw [← Width.ofByte?_toByte v, ← Width.ofByte?_toByte w]
    exact congrArg Width.ofByte? hb
  cases Option.some.inj hw
  rfl

end Ciphertext

end CipherCalls
