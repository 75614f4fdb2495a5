/-
# Values of a wanted kind

Readers for the kinds of values that stored documents are made of: natural numbers, names out of a
fixed choice, and lists.  A value of another kind is looked at just far enough to see what it is,
so that a fault in its text is reported rather than its kind.
-/
import CipherCalls.Json.Number
import CipherCalls.Json.Text

namespace CipherCalls.Json

/-- The fault of a value of an unwanted kind, given its first character. -/
def misfit (c : Char) (s : List Char) : Fault :=
  if c = 'n' then ofRest (word ['u', 'l', 'l'] s)
  else if c = 't' then ofRest (word ['r', 'u', 'e'] s)
  else if c = 'f' then ofRest (word ['a', 'l', 's', 'e'] s)
  else if c = '"' then ofRest (quoted s)
  else if c = '-' ∨ c.isDigit then ofRest (boundedNumber (c :: s))
  else if c = '[' ∨ c = '\x7b' then .mismatched
  else .malformed
where
  /-- A value that could be read is of the wrong kind. -/
  ofRest {α : Type} : Except Fault α → Fault
    | .error f => f
    | .ok _ => .mismatched

/-- Reads a natural number below a bound. -/
def natural (bound : Nat) : Reader Nat := fun s =>
  match mark? s with
  | none => .error .truncated
  | some x =>
    if x.value = '-' ∨ x.value.isDigit then
      match boundedNumber (x.value :: x.rest) with
      | .error f => .error f
      | .ok t =>
        match t.value.natural? with
        | none => .error .mismatched
        | some n =>
          if n < bound then .ok (x.before (t.map fun _ => n)) else .error .mismatched
    else .error (misfit x.value x.rest)

/-- Reads the word `null`. -/
def null : Reader Unit := fun s =>
  match mark? s with
  | none => .error .truncated
  | some x =>
    if x.value = 'n' then (word ['u', 'l', 'l'] x.rest).map x.before
    else .error (misfit x.value x.rest)

/-! ## Names out of a choice -/

/-- The thing with a given name. -/
def choose {α : Type} (choices : List (String × α)) (name : List Char) : Except Fault α :=
  match choices.find? (·.1.toList = name) with
  | some choice => .ok choice.2
  | none => .error .mismatched

/-- Reads the name of a thing.  A name may also stand as the only key of an object, with the value
`null`. -/
def choice {α : Type} (choices : List (String × α)) : Reader α := fun s =>
  match mark? s with
  | none => .error .truncated
  | some x =>
    if x.value = '"' then do
      let name ← quoted x.rest
      let a ← choose choices name.value
      return x.followedBy (name.map fun _ => a)
    else if x.value = '\x7b' then do
      let name ← key x.rest
      let a ← choose choices name.value
      let colon ← expect ':' name.rest
      let nothing ← null colon.rest
      let close ← expect '\x7d' nothing.rest
      return x.followedBy (name.followedBy (colon.followedBy
        (nothing.followedBy (close.map fun _ => a))))
    else .error .malformed

/-! ## Lists -/

/-- Whether a list goes on: reads up to the next element, or past the closing bracket.  The comma
in front of an element is wanted unless it is the first one. -/
def goesOn (first : Bool) (s : List Char) : Except Fault (Reading Bool (s.length + 1)) :=
  match mark? s with
  | none => .error .truncated
  | some x =>
    if x.value = ']' then .ok (x.map fun _ => false).relax
    else if first then .ok (.leaving true s)
    else if x.value = ',' then
      match mark? x.rest with
      | none => .error .truncated
      | some y =>
        if y.value = ']' then .error .malformed else .ok (x.map fun _ => true).relax
    else .error .malformed

/-- Reads the elements of a list up to the closing bracket. -/
def elements {α : Type} (element : Reader α) (first : Bool) (s : List Char) :
    Except Fault (Reading (List α) (s.length + 1)) :=
  match goesOn first s with
  | .error f => .error f
  | .ok go =>
    if go.value then
      match element go.rest with
      | .error f => .error f
      | .ok a =>
        match elements element false a.rest with
        | .error f => .error f
        | .ok as => .ok (go.followedBy (a.before (as.map (a.value :: ·))))
    else .ok (go.map fun _ => [])
termination_by s.length
decreasing_by
  have := go.short
  have := a.short
  omega

/-- Reads a given number of elements and the closing bracket. -/
def exactElements {α : Type} (element : Reader α) :
    Nat → Bool → (s : List Char) → Except Fault (Reading (List α) (s.length + 1))
  | 0, _, s => do
    let close ← expect ']' s
    return (close.map fun _ => []).relax
  | n + 1, first, s =>
    match goesOn first s with
    | .error f => .error f
    | .ok go =>
      if go.value then
        match element go.rest with
        | .error f => .error f
        | .ok a =>
          (exactElements element n false a.rest).map fun as =>
            go.followedBy (a.before (as.map (a.value :: ·)))
      else .error .mismatched

/-- Reads a list in brackets, given how what follows the opening one is read. -/
def bracketed {α : Type}
    (inside : (s : List Char) → Except Fault (Reading α (s.length + 1))) : Reader α := fun s =>
  match mark? s with
  | none => .error .truncated
  | some x =>
    if x.value = '[' then (inside x.rest).map x.before
    else .error (misfit x.value x.rest)

/-- Reads a list of any length. -/
def list {α : Type} (element : Reader α) : Reader (List α) := bracketed (elements element true)

/-- Reads a list of a given length. -/
def exactList {α : Type} (n : Nat) (element : Reader α) : Reader (List α) :=
  bracketed (exactElements element n true)

end CipherCalls.Json
