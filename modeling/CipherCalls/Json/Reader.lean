/-
# Reading JSON from a text

Stored documents are JSON texts.  They are read from left to right straight into the value they
stand for, so that the first fault in the text is the one reported, be it a fault of the text or a
value of the wrong kind.

A reader takes the text and returns a value together with the rest of the text.  The rest is
shorter than the text, which is part of what is returned; this is what makes loops over members
and elements come to an end.
-/

namespace CipherCalls.Json

/-- What is wrong with a text. -/
inductive Fault where
  /-- The text is not JSON. -/
  | malformed
  /-- The text is JSON so far, but not of the kind that is wanted. -/
  | mismatched
  /-- The text ends too early. -/
  | truncated
deriving DecidableEq, Repr

/-- A value read from a text, and the rest of the text, which has fewer than `n` characters. -/
structure Reading (α : Type) (n : Nat) where
  value : α
  rest : List Char
  short : rest.length < n

namespace Reading

variable {α β : Type} {n : Nat}

/-- A value behind which a text is left. -/
def leaving (a : α) (s : List Char) : Reading α (s.length + 1) := ⟨a, s, Nat.lt_succ_self _⟩

/-- The value is replaced. -/
def map (f : α → β) (x : Reading α n) : Reading β n := ⟨f x.value, x.rest, x.short⟩

/-- The bound is relaxed by one. -/
def relax (x : Reading α n) : Reading α (n + 1) := ⟨x.value, x.rest, Nat.lt_succ_of_lt x.short⟩

/-- A value is read, and from the rest of the text another one, for which nothing may have been
needed.  The second value is kept. -/
def before (x : Reading β n) (y : Reading α (x.rest.length + 1)) : Reading α n :=
  ⟨y.value, y.rest, Nat.lt_of_lt_of_le y.short x.short⟩

/-- A value is read, and from the rest of the text another one.  The second value is kept. -/
def followedBy (x : Reading β n) (y : Reading α x.rest.length) : Reading α n := x.before y.relax

end Reading

/-- Reads a value from the front of a text. -/
abbrev Reader (α : Type) := (s : List Char) → Except Fault (Reading α s.length)

/-- The characters that may stand between the parts of a text. -/
def isBlank (c : Char) : Bool := c = ' ' || c = '\n' || c = '\t' || c = '\r'

/-- The first character that is not blank, and what follows it. -/
def mark? : (s : List Char) → Option (Reading Char s.length)
  | [] => none
  | c :: s =>
    if isBlank c then (mark? s).map Reading.relax else some (.leaving c s)

/-- Reads a given character. -/
def expect (c : Char) : Reader Unit := fun s =>
  match mark? s with
  | none => .error .truncated
  | some x => if x.value = c then .ok (x.map fun _ => ()) else .error .malformed

/-- Reads given characters, without blanks in front of them. -/
def word : List Char → (s : List Char) → Except Fault (Reading Unit (s.length + 1))
  | [], s => .ok (.leaving () s)
  | _ :: _, [] => .error .truncated
  | w :: ws, c :: s =>
    if c = w then (word ws s).map Reading.relax else .error .malformed

/-- A whole text is read: after the value there may only be blanks. -/
def document {α : Type} (r : Reader α) (s : List Char) : Except Fault α :=
  match r s with
  | .error f => .error f
  | .ok x => if (mark? x.rest).isSome then .error .malformed else .ok x.value

end CipherCalls.Json
