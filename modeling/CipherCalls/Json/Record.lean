/-
# Records

A record is written as an object, with its fields in any order, or as the list of its fields in
their own order.  In an object every field may occur once, and members with other keys are passed
over.  Some records must be complete; in others, fields that are left out keep a value given
beforehand.
-/
import CipherCalls.Json.Skip
import CipherCalls.Json.Value

namespace CipherCalls.Json

/-- A field: its name, and how its value is read and put into the record. -/
structure Field (α : Type) where
  name : String
  read : Reader (α → α)

/-- A field whose value is read by a reader and put into the record by a function. -/
def Field.ofReader {α β : Type} (name : String) (r : Reader β) (put : β → α → α) : Field α :=
  ⟨name, fun s => (r s).map (·.map put)⟩

/-- A kind of record. -/
structure Shape (α : Type) where
  /-- The fields, in their own order. -/
  fields : List (Field α)
  /-- The record before any field is read. -/
  start : α
  /-- Whether every field has to be there. -/
  complete : Bool

/-- A record of which some fields have been read. -/
structure Draft (α : Type) where
  value : α
  seen : List String

/-- Reads the key of the next member, or the closing bracket.  The comma in front of a member is
wanted unless it is the first one. -/
def nextKey (first : Bool) : Reader (Option (List Char)) := fun s =>
  match mark? s with
  | none => .error .truncated
  | some x =>
    if x.value = '\x7d' then .ok (x.map fun _ => none)
    else if first then (key s).map (·.map some)
    else if x.value = ',' then (key x.rest).map fun name => x.followedBy (name.map some)
    else .error .malformed

namespace Shape

variable {α : Type}

/-- The field with a given key. -/
def field? (shape : Shape α) (key : List Char) : Option (Field α) :=
  shape.fields.find? (·.name.toList = key)

/-- Reads the members of an object up to the closing bracket. -/
def members (shape : Shape α) (draft : Draft α) (first : Bool) (s : List Char) :
    Except Fault (Reading (Draft α) s.length) :=
  match nextKey first s with
  | .error f => .error f
  | .ok key =>
    match key.value with
    | none => .ok (key.map fun _ => draft)
    | some name =>
      match shape.field? name with
      | none =>
        match expect ':' key.rest with
        | .error f => .error f
        | .ok colon =>
          match skip colon.rest with
          | .error f => .error f
          | .ok v =>
            (members shape draft false v.rest).map fun more =>
              key.followedBy (colon.followedBy (v.followedBy more))
      | some field =>
        if field.name ∈ draft.seen then .error .mismatched
        else
          match expect ':' key.rest with
          | .error f => .error f
          | .ok colon =>
            match field.read colon.rest with
            | .error f => .error f
            | .ok v =>
              let draft : Draft α := ⟨v.value draft.value, field.name :: draft.seen⟩
              (members shape draft false v.rest).map fun more =>
                key.followedBy (colon.followedBy (v.followedBy more))
termination_by s.length
decreasing_by
  · have := key.short; have := colon.short; have := v.short; omega
  · have := key.short; have := colon.short; have := v.short; omega

/-- Whether a draft may stand as it is. -/
def accepts (shape : Shape α) (draft : Draft α) : Bool :=
  !shape.complete || shape.fields.all (·.name ∈ draft.seen)

/-- Reads the fields of a record from a list, in their own order, and the closing bracket. -/
def inOrder (shape : Shape α) :
    List (Field α) → Bool → α → (s : List Char) → Except Fault (Reading α (s.length + 1))
  | [], _, a, s => do
    let close ← expect ']' s
    return (close.map fun _ => a).relax
  | field :: fields, first, a, s =>
    match goesOn first s with
    | .error f => .error f
    | .ok go =>
      if go.value then
        match field.read go.rest with
        | .error f => .error f
        | .ok v =>
          (inOrder shape fields false (v.value a) v.rest).map fun more =>
            go.followedBy (v.before more)
      else if shape.complete then .error .mismatched
      else .ok (go.map fun _ => a)

/-- Reads a record. -/
def read (shape : Shape α) : Reader α := fun s =>
  match mark? s with
  | none => .error .truncated
  | some x =>
    if x.value = '[' then
      (inOrder shape shape.fields true shape.start x.rest).map x.before
    else if x.value = '\x7b' then
      match shape.members ⟨shape.start, []⟩ true x.rest with
      | .error f => .error f
      | .ok draft =>
        if shape.accepts draft.value then .ok (x.followedBy (draft.map Draft.value))
        else .error .mismatched
    else .error (misfit x.value x.rest)

end Shape

end CipherCalls.Json
