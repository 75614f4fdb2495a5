/-
# Byte strings

Call data, ciphertext payloads and hashes are all strings of bytes.  This file fixes how a byte
string is read as a number, in both byte orders, how a number is written with a given number of
bytes, and how a byte string is shown in hexadecimal.
-/

namespace CipherCalls

/-- A string of bytes. -/
abbrev Bytes := List UInt8

namespace Bytes

/-! ## Numbers -/

/-- The number a byte string denotes when its first byte is the least significant one. -/
def toNatLE : Bytes → Nat
  | [] => 0
  | b :: bs => b.toNat + 256 * toNatLE bs

/-- The number a byte string denotes when its last byte is the least significant one. -/
def toNatBE (bs : Bytes) : Nat := toNatLE bs.reverse

/-- The `k` low bytes of `n`, least significant byte first. -/
def ofNatLE : Nat → Nat → Bytes
  | 0, _ => []
  | k + 1, n => UInt8.ofNat n :: ofNatLE k (n / 256)

/-- The `k` low bytes of `n`, least significant byte last. -/
def ofNatBE (k n : Nat) : Bytes := (ofNatLE k n).reverse

@[simp] theorem length_ofNatLE (k n : Nat) : (ofNatLE k n).length = k := by
  induction k generalizing n with
  | zero => rfl
  | succ k ih => simp [ofNatLE, ih]

@[simp] theorem length_ofNatBE (k n : Nat) : (ofNatBE k n).length = k := by
  simp [ofNatBE]

/-! ## Hexadecimal text -/

/-- The two hexadecimal digits of a byte, the high one first. -/
def hexOfByte (b : UInt8) : List Char :=
  [Nat.digitChar (b.toNat / 16), Nat.digitChar (b.toNat % 16)]

/-- A byte string in lower-case hexadecimal, two digits a byte. -/
def hex (bs : Bytes) : String := String.ofList (bs.flatMap hexOfByte)

/-- The value of a hexadecimal digit of either case. -/
def hexDigit? (c : Char) : Option Nat :=
  if '0' ≤ c ∧ c ≤ '9' then some (c.toNat - '0'.toNat)
  else if 'a' ≤ c ∧ c ≤ 'f' then some (c.toNat - 'a'.toNat + 10)
  else if 'A' ≤ c ∧ c ≤ 'F' then some (c.toNat - 'A'.toNat + 10)
  else none

/-- The bytes written by pairs of hexadecimal digits; nothing else is accepted, and an odd digit
at the end is refused too. -/
def ofHex? : List Char → Option Bytes
  | [] => some []
  | [_] => none
  | c :: d :: rest =>
    match hexDigit? c, hexDigit? d, ofHex? rest with
    | some hi, some lo, some bs => some (UInt8.ofNat (16 * hi + lo) :: bs)
    | _, _, _ => none

/-- The bytes of a text in UTF-8. -/
def ofString (s : String) : Bytes := s.toUTF8.data.toList

/-- The text a byte string encodes in UTF-8, if it encodes one. -/
def toString? (bs : Bytes) : Option String := String.fromUTF8? ⟨bs.toArray⟩

end Bytes

end CipherCalls
