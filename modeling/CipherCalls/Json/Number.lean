/-
# Numbers

A number has an optional sign, a whole part without superfluous zeros, an optional fraction and an
optional exponent.  Only natural numbers below a bound are ever wanted.  Any other number is
refused as being of the wrong kind, except one too large for a double-precision number, which
counts as a fault of the text.  Nothing else is checked of numbers that nobody asked for.
-/
import CipherCalls.Json.Reader

namespace CipherCalls.Json

/-! ## The text of a number -/

/-- A number as it is written. -/
structure NumberText where
  negative : Bool
  whole : List Char
  /-- The digits behind the point; none if there is no point. -/
  fraction : List Char
  exponent : Option Int

/-- The number written by digits. -/
def digitsValue (ds : List Char) : Nat := ds.foldl (fun n d => 10 * n + (d.toNat - '0'.toNat)) 0

theorem length_dropWhile_le {α : Type} (p : α → Bool) (l : List α) :
    (l.dropWhile p).length ≤ l.length := by
  induction l with
  | nil => simp
  | cons a l ih =>
    rw [List.dropWhile_cons]
    split
    · exact Nat.le_succ_of_le ih
    · exact Nat.le_refl _

/-- Reads all digits in front of a text. -/
def digits (s : List Char) : Reading (List Char) (s.length + 1) :=
  ⟨s.takeWhile Char.isDigit, s.dropWhile Char.isDigit,
    Nat.lt_succ_of_le (length_dropWhile_le _ s)⟩

/-- Reads the digits of a whole part.  A zero in front is the only digit.  A text that ends before
the first digit has the fault `early`. -/
def wholePart (early : Fault) : Reader (List Char)
  | [] => .error early
  | c :: s =>
    if c = '0' then
      match s with
      | [] => .ok (.leaving [c] [])
      | d :: s => if d.isDigit then .error .malformed else .ok (.leaving [c] (d :: s))
    else if c.isDigit then .ok ((digits s).map (c :: ·))
    else .error .malformed

/-- Reads digits of which there must be at least one. -/
def someDigits (early : Fault) (s : List Char) :
    Except Fault (Reading (List Char) (s.length + 1)) :=
  let ds := digits s
  if ds.value = [] then .error (if s = [] then early else .malformed) else .ok ds

/-- Reads a fraction, if there is one. -/
def fraction (early : Fault) : (s : List Char) → Except Fault (Reading (List Char) (s.length + 1))
  | [] => .ok (.leaving [] [])
  | c :: s =>
    if c = '.' then (someDigits early s).map Reading.relax else .ok (.leaving [] (c :: s))

/-- Reads a sign, if there is one, and tells whether it is a minus. -/
def sign : (s : List Char) → Reading Bool (s.length + 1)
  | [] => .leaving false []
  | c :: s =>
    if c = '+' ∨ c = '-' then (Reading.leaving (decide (c = '-')) s).relax
    else .leaving false (c :: s)

/-- Reads an exponent, if there is one. -/
def exponent (early : Fault) : (s : List Char) → Except Fault (Reading (Option Int) (s.length + 1))
  | [] => .ok (.leaving none [])
  | c :: s =>
    if c = 'e' ∨ c = 'E' then
      let minus := sign s
      (someDigits early minus.rest).map fun ds =>
        let size : Int := digitsValue ds.value
        (minus.before (ds.map fun _ => some (if minus.value then -size else size))).relax
    else .ok (.leaving none (c :: s))

/-- Reads what follows the sign of a number. -/
def unsigned (early : Fault) (negative : Bool) : Reader NumberText := fun s => do
  let w ← wholePart early s
  let f ← fraction early w.rest
  let e ← exponent early f.rest
  return w.before (f.before (e.map fun power => ⟨negative, w.value, f.value, power⟩))

/-- Reads a number.  A text that ends where a digit has to stand has the fault `early`. -/
def number (early : Fault) : Reader NumberText
  | [] => .error early
  | c :: s =>
    if c = '-' then (unsigned early true s).map Reading.relax else unsigned early false (c :: s)

/-! ## The value of a number -/

/-- Digits are appended to a number as long as it fits into 64 bits; what is returned besides is
how many of them were left over. -/
def appendDigits (n : Nat) : List Char → Nat × Nat
  | [] => (n, 0)
  | d :: ds =>
    let next := 10 * n + (d.toNat - '0'.toNat)
    if next < UInt64.size then appendDigits next ds else (n, ds.length + 1)

/-- A natural number rounded to 53 significant bits, ties going to the even neighbour. -/
def roundToDouble (n : Nat) : Nat :=
  let unit := 1 <<< (n.log2 - 52)
  let low := n / unit
  let twice := 2 * (n % unit)
  if unit < twice ∨ (unit = twice ∧ low % 2 = 1) then (low + 1) * unit else low * unit

namespace NumberText

/-- Whether the number is too large for a double-precision number.  It is taken as its leading
digits, as many as fit into 64 bits, times a power of ten. -/
def tooLarge (t : NumberText) : Bool :=
  let (n, dropped) := appendDigits 0 t.whole
  let (n, ignored) := appendDigits n t.fraction
  let power : Int := dropped - (t.fraction.length - ignored : Nat) + t.exponent.getD 0
  n ≠ 0 && 0 ≤ power &&
    (308 < power ||
      1 <<< 1024 ≤ roundToDouble (roundToDouble n * roundToDouble (Nat.pow 10 power.toNat)))

/-- The number, if it is written as a natural number. -/
def natural? (t : NumberText) : Option Nat :=
  if t.negative = false ∧ t.fraction = [] ∧ t.exponent = none then some (digitsValue t.whole)
  else none

end NumberText

/-- Reads a number of which it is known that it fits into a double-precision number. -/
def boundedNumber : Reader NumberText := fun s =>
  match number .truncated s with
  | .error f => .error f
  | .ok t => if t.value.tooLarge then .error .malformed else .ok t

end CipherCalls.Json
