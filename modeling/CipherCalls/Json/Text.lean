/-
# Quoted text

A text value stands between quotes.  Quotes, backslashes and control characters inside it are
written by escapes.  The escape of a code unit may name half of a character, in which case the
other half has to follow.  Values that nobody asked for are skipped more leniently: halves need
not match there (`skipQuoted`).
-/
import CipherCalls.Bytes
import CipherCalls.Json.Reader

namespace CipherCalls.Json

/-! ## Reading -/

/-- Reads the four digits of a code unit.  A text that has not even four bytes left ends too
early. -/
def codeUnit : Reader Nat
  | a :: b :: c :: d :: s =>
    match Bytes.hexDigit? a, Bytes.hexDigit? b, Bytes.hexDigit? c, Bytes.hexDigit? d with
    | some a, some b, some c, some d =>
      .ok (Reading.leaving (16 * (16 * (16 * a + b) + c) + d) s).relax.relax.relax
    | _, _, _, _ => .error .malformed
  | s => .error (if (String.ofList s).utf8ByteSize < 4 then .truncated else .malformed)

/-- The character written by a backslash and one more character. -/
def shortEscape? (c : Char) : Option Char :=
  if c = '"' ∨ c = '\\' ∨ c = '/' then some c
  else if c = 'b' then some '\x08'
  else if c = 'f' then some '\x0c'
  else if c = 'n' then some '\n'
  else if c = 'r' then some '\r'
  else if c = 't' then some '\t'
  else none

/-- Reads the second half of a character whose first half was read. -/
def lowHalf (high : Nat) : Reader Char
  | [] => .error .truncated
  | b :: s =>
    if b ≠ '\\' then .error .malformed
    else
      match s with
      | [] => .error .truncated
      | u :: s =>
        if u ≠ 'u' then .error .malformed
        else
          match codeUnit s with
          | .error f => .error f
          | .ok low =>
            if 0xDC00 ≤ low.value ∧ low.value ≤ 0xDFFF then
              let c := 0x10000 + (high - 0xD800) * 0x400 + (low.value - 0xDC00)
              .ok (low.map fun _ => Char.ofNat c).relax.relax
            else .error .malformed

/-- Reads the character written by what follows a backslash. -/
def escape : Reader Char
  | [] => .error .truncated
  | c :: s =>
    if c = 'u' then
      match codeUnit s with
      | .error f => .error f
      | .ok x =>
        if 0xDC00 ≤ x.value ∧ x.value ≤ 0xDFFF then .error .malformed
        else if 0xD800 ≤ x.value ∧ x.value ≤ 0xDBFF then
          (lowHalf x.value x.rest).map fun y => (x.followedBy y).relax
        else .ok (x.map Char.ofNat).relax
    else
      match shortEscape? c with
      | some d => .ok (.leaving d s)
      | none => .error .malformed

/-- Reads the characters up to the closing quote. -/
def quoted : (s : List Char) → Except Fault (Reading (List Char) s.length)
  | [] => .error .truncated
  | c :: s =>
    if c = '"' then .ok (.leaving [] s)
    else if c = '\\' then
      match escape s with
      | .error f => .error f
      | .ok e =>
        match quoted e.rest with
        | .error f => .error f
        | .ok x => .ok (e.followedBy (x.map (e.value :: ·))).relax
    else if c.toNat < 0x20 then .error .malformed
    else
      match quoted s with
      | .error f => .error f
      | .ok x => .ok (x.map (c :: ·)).relax
termination_by s => s.length
decreasing_by
  · exact Nat.lt_succ_of_lt e.short
  · exact Nat.lt_succ_self _

/-- Reads a key of an object.  Anything but a text between quotes is a fault of the text here,
whatever it is and wherever it ends. -/
def key : Reader (List Char) := fun s =>
  match mark? s with
  | none => .error .truncated
  | some x =>
    if x.value = '"' then (quoted x.rest).map x.followedBy else .error .malformed

/-- Passes over what follows a backslash. -/
def skipEscape : Reader Unit
  | [] => .error .truncated
  | c :: s =>
    if c = 'u' then (codeUnit s).map fun x => (x.map fun _ => ()).relax
    else if (shortEscape? c).isSome then .ok (.leaving () s)
    else .error .malformed

/-- Passes over the characters up to the closing quote. -/
def skipQuoted : (s : List Char) → Except Fault (Reading Unit s.length)
  | [] => .error .truncated
  | c :: s =>
    if c = '"' then .ok (.leaving () s)
    else if c = '\\' then
      match skipEscape s with
      | .error f => .error f
      | .ok e => (skipQuoted e.rest).map fun x => (e.followedBy x).relax
    else if c.toNat < 0x20 then .error .malformed
    else (skipQuoted s).map Reading.relax
termination_by s => s.length
decreasing_by
  · exact Nat.lt_succ_of_lt e.short
  · exact Nat.lt_succ_self _

/-! ## Writing -/

/-- A character as it stands between quotes. -/
def quoteChar (c : Char) : List Char :=
  if c = '"' then ['\\', '"']
  else if c = '\\' then ['\\', '\\']
  else if c = '\x08' then ['\\', 'b']
  else if c = '\x0c' then ['\\', 'f']
  else if c = '\n' then ['\\', 'n']
  else if c = '\r' then ['\\', 'r']
  else if c = '\t' then ['\\', 't']
  else if c.toNat < 0x20 then ['\\', 'u', '0', '0'] ++ Bytes.hexOfByte (UInt8.ofNat c.toNat)
  else [c]

/-- A text between quotes. -/
def quote (s : String) : List Char := '"' :: (s.toList.flatMap quoteChar ++ ['"'])

end CipherCalls.Json
