/-
# Values nobody asked for

A member whose key is not known is passed over.  Its value has to be JSON, but nothing else is
asked of it: it may be nested to any depth.  The brackets that are open are kept in a list, and
the three functions below stand for the three places in a text: before a value, before a key, and
behind a value.
-/
import CipherCalls.Json.Number
import CipherCalls.Json.Text

namespace CipherCalls.Json

/-- A bracket that is open. -/
inductive Bracket where
  | list
  | object
deriving DecidableEq

/-- The character that closes a bracket. -/
def Bracket.close : Bracket → Char
  | .list => ']'
  | .object => '}'

/-- Passes over a value other than a list or an object, given its first character. -/
def skipScalar (c : Char) (s : List Char) : Except Fault (Reading Unit (s.length + 1)) :=
  if c = 'n' then word ['u', 'l', 'l'] s
  else if c = 't' then word ['r', 'u', 'e'] s
  else if c = 'f' then word ['a', 'l', 's', 'e'] s
  else if c = '"' then (skipQuoted s).map Reading.relax
  else if c = '-' ∨ c.isDigit then (number .malformed (c :: s)).map fun x => x.map fun _ => ()
  else .error .malformed

mutual

/-- Passes over a value and over everything up to where the brackets around it are closed. -/
def skipValue (nest : List Bracket) (s : List Char) : Except Fault (List Char) :=
  match mark? s with
  | none => .error .truncated
  | some x =>
    if x.value = '[' then
      match mark? x.rest with
      | none => .error .truncated
      | some y =>
        if y.value = ']' then skipRest nest y.rest else skipValue (.list :: nest) x.rest
    else if x.value = '\x7b' then
      match mark? x.rest with
      | none => .error .truncated
      | some y => if y.value = '\x7d' then skipRest nest y.rest else skipMember nest x.rest
    else
      match skipScalar x.value x.rest with
      | .error f => .error f
      | .ok y => skipRest nest y.rest
termination_by s.length
decreasing_by
  · have := x.short; have := y.short; omega
  · have := x.short; omega
  · have := x.short; have := y.short; omega
  · have := x.short; omega
  · have := x.short; have := y.short; omega

/-- Passes over a key with its value, in an object inside other brackets, and over everything up
to where all of them are closed. -/
def skipMember (nest : List Bracket) (s : List Char) : Except Fault (List Char) :=
  match mark? s with
  | none => .error .truncated
  | some x =>
    if x.value = '"' then
      match skipQuoted x.rest with
      | .error f => .error f
      | .ok key =>
        match expect ':' key.rest with
        | .error f => .error f
        | .ok colon => skipValue (.object :: nest) colon.rest
    else .error .malformed
termination_by s.length
decreasing_by
  have := x.short; have := key.short; have := colon.short; omega

/-- Passes over what follows a value up to where the brackets around it are closed. -/
def skipRest (nest : List Bracket) (s : List Char) : Except Fault (List Char) :=
  match nest with
  | [] => .ok s
  | b :: outer =>
    match mark? s with
    | none => .error .truncated
    | some x =>
      if x.value = ',' then
        match b with
        | .list => skipValue (.list :: outer) x.rest
        | .object => skipMember outer x.rest
      else if x.value = b.close then skipRest outer x.rest
      else .error .malformed
termination_by s.length
decreasing_by
  · have := x.short; omega
  · have := x.short; omega
  · have := x.short; omega

end

/-! ## What is left -/

/-- What is left of a text behind a value, or behind a member, is shorter than the text, and what is
left behind the rest of some brackets is not longer. -/
structure Shortens (s : List Char) : Prop where
  value : ∀ nest r, skipValue nest s = .ok r → r.length < s.length
  member : ∀ nest r, skipMember nest s = .ok r → r.length < s.length
  rest : ∀ nest r, skipRest nest s = .ok r → r.length ≤ s.length

section Short

variable {nest : List Bracket} {s r : List Char}
  (ih : ∀ t : List Char, t.length < s.length → Shortens t)

include ih

/-- Behind an opening bracket stands the closing one, or something that is passed over inside. -/
theorem short_of_opened {close : Char} {t : List Char} {inner : Except Fault (List Char)}
    (ht : t.length < s.length) (y : Reading Char t.length)
    (hinner : inner = .ok r → r.length < t.length)
    (h : (if y.value = close then skipRest nest y.rest else inner) = .ok r) :
    r.length < s.length := by
  have hys := y.short
  by_cases hclose : y.value = close
  case pos =>
    rw [if_pos hclose] at h
    have hr := (ih y.rest (by omega)).rest nest r h
    omega
  case neg =>
    rw [if_neg hclose] at h
    have hr := hinner h
    omega

/-- Behind a value: its first character is used up, and what follows is shorter. -/
theorem skipValue_short (h : skipValue nest s = .ok r) : r.length < s.length := by
  rw [skipValue] at h
  cases hx : mark? s with
  | none => simp [hx] at h
  | some x =>
    have hxs := x.short
    have hbelow := ih x.rest hxs
    simp only [hx] at h
    by_cases hlist : x.value = '['
    case pos =>
      rw [if_pos hlist] at h
      cases hy : mark? x.rest with
      | none => simp [hy] at h
      | some y =>
        simp only [hy] at h
        exact short_of_opened ih hxs y (hbelow.value (.list :: nest) r) h
    case neg =>
      rw [if_neg hlist] at h
      by_cases hobject : x.value = '\x7b'
      case pos =>
        rw [if_pos hobject] at h
        cases hy : mark? x.rest with
        | none => simp [hy] at h
        | some y =>
          simp only [hy] at h
          exact short_of_opened ih hxs y (hbelow.member nest r) h
      case neg =>
        rw [if_neg hobject] at h
        cases hy : skipScalar x.value x.rest with
        | error f => simp [hy] at h
        | ok y =>
          have hys := y.short
          simp only [hy] at h
          have hr := (ih y.rest (by omega)).rest nest r h
          omega

/-- Behind a member: the key and the colon are used up, and the value is passed over. -/
theorem skipMember_short (h : skipMember nest s = .ok r) : r.length < s.length := by
  rw [skipMember] at h
  cases hx : mark? s with
  | none => simp [hx] at h
  | some x =>
    have hxs := x.short
    simp only [hx] at h
    by_cases hquote : x.value = '"'
    case pos =>
      rw [if_pos hquote] at h
      cases hkey : skipQuoted x.rest with
      | error f => simp [hkey] at h
      | ok key =>
        have hks := key.short
        simp only [hkey] at h
        cases hcolon : expect ':' key.rest with
        | error f => simp [hcolon] at h
        | ok colon =>
          have hcs := colon.short
          simp only [hcolon] at h
          have hr := (ih colon.rest (by omega)).value (.object :: nest) r h
          omega
    case neg => simp [hquote] at h

/-- Behind the rest of some brackets: nothing is used up if none is open. -/
theorem skipRest_short (h : skipRest nest s = .ok r) : r.length ≤ s.length := by
  rw [skipRest.eq_def] at h
  cases nest with
  | nil =>
    cases h
    exact Nat.le_refl _
  | cons b outer =>
    cases hx : mark? s with
    | none => simp [hx] at h
    | some x =>
      have hxs := x.short
      have hbelow := ih x.rest hxs
      simp only [hx] at h
      by_cases hcomma : x.value = ','
      case pos =>
        rw [if_pos hcomma] at h
        cases b with
        | list =>
          have hr := hbelow.value (.list :: outer) r h
          omega
        | object =>
          have hr := hbelow.member outer r h
          omega
      case neg =>
        rw [if_neg hcomma] at h
        by_cases hclose : x.value = b.close
        case pos =>
          rw [if_pos hclose] at h
          have hr := hbelow.rest outer r h
          omega
        case neg => simp [hclose] at h

end Short

/-- The induction is on the length of the text. -/
theorem shortens (s : List Char) : Shortens s :=
  have ih (t : List Char) (_ : t.length < s.length) : Shortens t := shortens t
  ⟨fun _ _ => skipValue_short ih, fun _ _ => skipMember_short ih, fun _ _ => skipRest_short ih⟩
termination_by s.length

/-- Passes over any value. -/
def skip : Reader Unit := fun s =>
  match h : skipValue [] s with
  | .error f => .error f
  | .ok r => .ok ⟨(), r, (shortens s).value [] r h⟩

end CipherCalls.Json
