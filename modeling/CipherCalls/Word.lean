/-
# Words

Operands and results of a call travel in words of 32 bytes, read as big-endian numbers.  A byte
string of any length is read either as a whole word (`Word.ofTail`) or as a 64-bit number
(`low64`).  Both look at the end of the string: what is missing in front counts as zero, and what
is too much in front is dropped.
-/
import CipherCalls.Bytes

namespace CipherCalls

/-- A string of exactly 32 bytes. -/
structure Word where
  bytes : Bytes
  length_bytes : bytes.length = 32
deriving DecidableEq

namespace Word

/-- The number of bytes in a word. -/
def size : Nat := 32

theorem ext {v w : Word} (h : v.bytes = w.bytes) : v = w := by
  cases v; cases w; cases h; rfl

/-- A byte string as a word, if it has the length of one. -/
def ofBytes? (bs : Bytes) : Option Word :=
  if h : bs.length = 32 then some ⟨bs, h⟩ else none

/-- The last 32 bytes of a string; a shorter string is completed by zero bytes in front. -/
def ofTail (bs : Bytes) : Word where
  bytes := List.replicate (32 - bs.length) 0 ++ bs.drop (bs.length - 32)
  length_bytes := by simp; omega

/-- The word whose number is `n`, reduced modulo `2 ^ 256`. -/
def ofNat (n : Nat) : Word := ⟨Bytes.ofNatBE 32 n, by simp⟩

/-- The word holding a 64-bit number. -/
def ofUInt64 (v : UInt64) : Word where
  bytes := List.replicate 24 0 ++ Bytes.ofNatBE 8 v.toNat
  length_bytes := by simp

/-- The largest word: all its bits are set. -/
def full : Word := ⟨List.replicate 32 0xFF, by simp⟩

/-- The word of zeros. -/
def zero : Word := ⟨List.replicate 32 0, by simp⟩

/-- The number a word denotes. -/
def toNat (w : Word) : Nat := Bytes.toNatBE w.bytes

/-- The digits of a word, without any mark in front. -/
def hex (w : Word) : String := Bytes.hex w.bytes

end Word

namespace Bytes

/-- The number held by the last eight bytes of a string, or by all of a shorter one. -/
def low64 (bs : Bytes) : UInt64 := UInt64.ofNat (toNatBE (bs.drop (bs.length - 8)))

/-- A byte string completed by zero bytes to a whole number of words. -/
def padToWords (bs : Bytes) : Bytes :=
  bs ++ List.replicate ((32 - bs.length % 32) % 32) 0

theorem length_padToWords_mod (bs : Bytes) : (padToWords bs).length % 32 = 0 := by
  simp only [padToWords, List.length_append, List.length_replicate]
  omega

end Bytes

end CipherCalls
