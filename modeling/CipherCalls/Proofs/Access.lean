/-
# Accesses to byte strings

Slots, flags and selectors are taken from byte strings by position.  In the rest of the library
what lies outside of a string is empty or zero.  Here an access to it is a *trap* instead: a slice
whose ends do not lie in the string in this order, a byte behind the end, a copy into a part of
another length, a difference below zero.

The readers and writers of words are restated with guarded accesses, and meet no trap, whatever the
length of the string.
-/
import Mathlib
import CipherCalls.Encoding
import CipherCalls.Proofs.WordCodec

namespace CipherCalls

/-- An access that goes wrong. -/
inductive Trap where
  /-- The ends of a slice do not lie in the string in this order. -/
  | slice (start stop length : Nat)
  /-- A byte is taken from behind the end of the string. -/
  | byte (position length : Nat)
  /-- What is copied does not have the length of the part that it replaces. -/
  | copy (room length : Nat)
  /-- More is subtracted than there is. -/
  | underflow (a b : Nat)
deriving DecidableEq

namespace Guarded

/-! ## Single accesses -/

/-- The bytes of a string from one position up to another. -/
def slice (bs : Bytes) (start stop : Nat) : Except Trap Bytes :=
  if start ≤ stop ∧ stop ≤ bs.length then .ok ((bs.drop start).take (stop - start))
  else .error (.slice start stop bs.length)

/-- The bytes of a string from one position up to another, if they are there. -/
def part? (bs : Bytes) (start stop : Nat) : Option Bytes := (slice bs start stop).toOption

/-- The byte at a position. -/
def byte (bs : Bytes) (position : Nat) : Except Trap UInt8 :=
  match bs[position]? with
  | some b => .ok b
  | none => .error (.byte position bs.length)

/-- A difference of numbers. -/
def sub (a b : Nat) : Except Trap Nat := if b ≤ a then .ok (a - b) else .error (.underflow a b)

lemma length_overwritten {target source : Bytes} {start : Nat}
    (h : start + source.length = target.length) :
    (target.take start ++ source).length = target.length := by
  rw [List.length_append, List.length_take]
  omega

/-- The end of a string, from a position on, is replaced by another string.  The length stays. -/
def overwrite (target : Bytes) (start : Nat) (source : Bytes) :
    Except Trap { out : Bytes // out.length = target.length } :=
  if h : start + source.length = target.length then
    .ok ⟨target.take start ++ source, length_overwritten h⟩
  else if start ≤ target.length then .error (.copy (target.length - start) source.length)
  else .error (.slice start target.length target.length)

section Accesses

variable {bs : Bytes} {start stop position a b : Nat}

lemma slice_of_le (h : start ≤ stop) (hstop : stop ≤ bs.length) :
    slice bs start stop = .ok ((bs.drop start).take (stop - start)) := if_pos ⟨h, hstop⟩

lemma part?_of_le (h : start ≤ stop) (hstop : stop ≤ bs.length) :
    part? bs start stop = some ((bs.drop start).take (stop - start)) := by
  rw [part?, slice_of_le h hstop]
  rfl

lemma part?_eq_none (h : stop < start ∨ bs.length < stop) : part? bs start stop = none := by
  rw [part?, slice, if_neg (by omega)]
  rfl

/-- A slice up to the end takes everything from its start on. -/
lemma slice_to_end (h : start ≤ bs.length) : slice bs start bs.length = .ok (bs.drop start) := by
  rw [slice_of_le h le_rfl, List.take_of_length_le (by rw [List.length_drop])]

/-- The first word is there if the string is long enough. -/
lemma slice_firstSlot (h : 32 ≤ bs.length) : slice bs 0 32 = .ok (firstSlot bs) :=
  slice_of_le (by omega) h

lemma slice_secondSlot (h : 64 ≤ bs.length) : slice bs 32 64 = .ok (secondSlot bs) :=
  slice_of_le (by omega) h

lemma byte_of_lt (h : position < bs.length) : byte bs position = .ok (bs.getD position 0) := by
  rw [byte, List.getElem?_eq_getElem h, List.getD_eq_getElem _ _ h]

lemma sub_of_le (h : b ≤ a) : sub a b = .ok (a - b) := if_pos h

lemma overwrite_of_length {target source : Bytes}
    (h : start + source.length = target.length) :
    overwrite target start source = .ok ⟨target.take start ++ source, length_overwritten h⟩ :=
  dif_pos h

-- A word cannot be taken from three bytes.
example : slice [1, 2, 3] 0 32 = .error (.slice 0 32 3) := rfl

end Accesses

/-! ## Readers and writers of words -/

/-- The handle at the end of a byte string of any length. -/
def readHandle (bs : Bytes) : Except Trap Handle := do
  let n := min bs.length 32
  let room ← sub 32 n
  let start ← sub bs.length n
  let out ← overwrite Word.zero.bytes room (← slice bs start bs.length)
  return ⟨⟨out.1, out.2.trans Word.zero.length_bytes⟩⟩

/-- The 64-bit number at the end of a byte string of any length. -/
def readNumber (bs : Bytes) : Except Trap UInt64 := do
  let tail ← slice bs (bs.length - 8) bs.length
  let room ← sub 8 tail.length
  let out ← overwrite (List.replicate 8 0) room tail
  return UInt64.ofNat (Bytes.toNatBE out.1)

/-- The word of a 64-bit number. -/
def writeNumber (v : UInt64) : Except Trap Word := do
  let room ← sub 32 8
  let out ← overwrite Word.zero.bytes room (Bytes.ofNatBE 8 v.toNat)
  return ⟨out.1, out.2.trans Word.zero.length_bytes⟩

/-- A byte string, cut or completed by zeros to a length. -/
def resize (bs : Bytes) (size : Nat) : Bytes := bs.take size ++ List.replicate (size - bs.length) 0

/-- A byte string completed by zeros to a whole number of words. -/
def padToWords (bs : Bytes) : Except Trap Bytes := do
  let surplus := bs.length % 32
  if surplus ≠ 0 then return resize bs (← sub (bs.length + 32) surplus)
  return bs

/-- The offset 32 in a word, then the byte string, completed to whole words. -/
def wrapBytes (blob : Bytes) : Except Trap Bytes := do
  padToWords ((← writeNumber 32).bytes ++ blob)

/-- The selector in the first four bytes of a string. -/
def readSelector (bs : Bytes) : Except Trap UInt32 := do
  return UInt32.ofNat (Bytes.toNatBE [← byte bs 0, ← byte bs 1, ← byte bs 2, ← byte bs 3])

lemma readHandle_eq (bs : Bytes) : readHandle bs = .ok (.ofTail bs) := by
  have hroom : sub 32 (min bs.length 32) = .ok (32 - bs.length) := by
    rw [sub_of_le (min_le_right _ _)]
    congr 1
    omega
  have hstart : sub bs.length (min bs.length 32) = .ok (bs.length - 32) := by
    rw [sub_of_le (min_le_left _ _)]
    congr 1
    omega
  have hfits : 32 - bs.length + (bs.drop (bs.length - 32)).length = Word.zero.bytes.length := by
    rw [Word.length_bytes, List.length_drop]
    omega
  have hzeros : Word.zero.bytes.take (32 - bs.length) = List.replicate (32 - bs.length) 0 := by
    rw [Word.zero, List.take_replicate, min_eq_left (Nat.sub_le _ _)]
  simp only [readHandle, hroom, hstart, slice_to_end (Nat.sub_le _ _), bind, Except.bind,
    overwrite_of_length hfits, pure, Except.pure, hzeros]
  rfl

lemma readNumber_eq (bs : Bytes) : readNumber bs = .ok (Bytes.low64 bs) := by
  have hlen : (bs.drop (bs.length - 8)).length ≤ 8 := by
    rw [List.length_drop]
    omega
  have hfits : 8 - (bs.drop (bs.length - 8)).length + (bs.drop (bs.length - 8)).length =
      (List.replicate 8 (0 : UInt8)).length := by
    rw [List.length_replicate]
    omega
  simp only [readNumber, slice_to_end (Nat.sub_le _ _), bind, Except.bind, sub_of_le hlen,
    overwrite_of_length hfits, pure, Except.pure, List.take_replicate,
    Bytes.toNatBE_replicate_zero_append]
  rfl

lemma writeNumber_eq (v : UInt64) : writeNumber v = .ok (.ofUInt64 v) := by
  have hfits : 24 + (Bytes.ofNatBE 8 v.toNat).length = Word.zero.bytes.length := by
    rw [Bytes.length_ofNatBE, Word.length_bytes]
  simp only [writeNumber, sub_of_le (show 8 ≤ 32 by decide), bind, Except.bind, Nat.reduceSub,
    overwrite_of_length hfits, pure, Except.pure]
  rfl

lemma padToWords_eq (bs : Bytes) : padToWords bs = .ok (Bytes.padToWords bs) := by
  rw [padToWords]
  by_cases h : bs.length % 32 = 0
  · have hzeros : (32 - bs.length % 32) % 32 = 0 := by rw [h]
    rw [if_neg (not_not_intro h), Bytes.padToWords, hzeros, List.replicate_zero, List.append_nil]
    rfl
  · have hle : bs.length % 32 ≤ bs.length + 32 := by omega
    have hsize : bs.length + 32 - bs.length % 32 - bs.length = (32 - bs.length % 32) % 32 := by
      omega
    rw [if_pos h, sub_of_le hle]
    show Except.ok (resize bs _) = _
    rw [resize, hsize, List.take_of_length_le (by omega), Bytes.padToWords]

lemma wrapBytes_eq (blob : Bytes) : wrapBytes blob = .ok (CipherCalls.wrapBytes blob) := by
  rw [wrapBytes, writeNumber_eq]
  exact padToWords_eq _

lemma readSelector_eq {bs : Bytes} (h : 4 ≤ bs.length) :
    readSelector bs = .ok (UInt32.ofNat (Bytes.toNatBE (bs.take 4))) := by
  obtain ⟨a, b, c, d, rest, rfl⟩ : ∃ a b c d rest, bs = a :: b :: c :: d :: rest := by
    match bs, h with
    | a :: b :: c :: d :: rest, _ => exact ⟨a, b, c, d, rest, rfl⟩
  rfl

end Guarded

end CipherCalls
