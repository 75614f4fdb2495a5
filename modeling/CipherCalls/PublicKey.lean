/-
# The public key

The public key is a byte string that callers may fetch.  The host keeps its digest, so that a key
that was tampered with is noticed.
-/
import CipherCalls.Keccak.Digest

namespace CipherCalls

/-- The key under which integers are encrypted. -/
structure PublicKey where
  bytes : Bytes
deriving DecidableEq

namespace PublicKey

/-- The digest of the key. -/
def hash (k : PublicKey) : Word := Keccak.digest k.bytes

/-- A key as a developer wants to see it. -/
def inspect (k : PublicKey) : String :=
  s!"PublicKey \x7b len: {k.bytes.length}, hash: \"{k.hash.hex}\" \x7d"

end PublicKey

end CipherCalls
