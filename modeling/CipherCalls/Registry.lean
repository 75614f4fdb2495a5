/-
# The registry

The registry maps handles to ciphertexts.  A handle is visible at some call depths only: an entry
is created at one depth, may be delegated to others, and disappears when the last depth at which
it is visible is retired.  Nothing but the set of depths of an entry ever changes.

Every handle has at most one entry, which is part of the type.  That the handle of an entry is the
handle of its ciphertext is a property of the registries built from the empty one,
`ContentAddressed`.
-/
import CipherCalls.Ciphertext

namespace CipherCalls

/-- A ciphertext under its handle, with the depths at which it is visible. -/
structure Entry where
  handle : Handle
  ciphertext : Ciphertext
  depths : List Nat
deriving DecidableEq

namespace Entry

/-- The entry made visible at one more depth. -/
def grant (e : Entry) (d : Nat) : Entry := { e with depths := e.depths.insert d }

/-- The entry without a depth, unless no depth is left. -/
def retire? (d : Nat) (e : Entry) : Option Entry :=
  let depths := e.depths.filter (· ≠ d)
  if depths = [] then none else some { e with depths }

end Entry

/-- A finite map from handles to entries. -/
structure Registry where
  entries : List Entry
  nodup : (entries.map Entry.handle).Nodup

namespace Registry

/-- The registry without entries. -/
def empty : Registry := ⟨[], by simp⟩

/-- The entry of a handle. -/
def find? (r : Registry) (h : Handle) : Option Entry := r.entries.find? (·.handle = h)

/-- The ciphertext of a handle that is visible at a depth. -/
def get? (r : Registry) (h : Handle) (d : Nat) : Option Ciphertext :=
  ((r.find? h).filter (d ∈ ·.depths)).map Entry.ciphertext

/-- The width of the ciphertext of a handle that is visible at a depth. -/
def width? (r : Registry) (h : Handle) (d : Nat) : Option Width :=
  ((r.find? h).filter (d ∈ ·.depths)).map fun e => e.ciphertext.width

/-- A width is looked up as the ciphertext is. -/
theorem width?_eq (r : Registry) (h : Handle) (d : Nat) :
    r.width? h d = (r.get? h d).map Ciphertext.width := by
  rw [width?, get?, Option.map_map]
  rfl

/-- Whether a handle is visible at a depth. -/
def contains (r : Registry) (h : Handle) (d : Nat) : Bool := (r.width? h d).isSome

/-- The number of entries. -/
def size (r : Registry) : Nat := r.entries.length

/-- Whether there is no entry. -/
def isEmpty (r : Registry) : Bool := r.entries.isEmpty

/-- Every entry stands under the handle of its ciphertext. -/
def ContentAddressed (r : Registry) : Prop := ∀ e ∈ r.entries, e.handle = e.ciphertext.handle

/-! ## Granting a depth -/

/-- Changing the depths of entries does not change their handles. -/
theorem map_handle_grant (entries : List Entry) (h : Handle) (d : Nat) :
    (entries.map fun e => if e.handle = h then e.grant d else e).map Entry.handle =
      entries.map Entry.handle := by
  induction entries with
  | nil => rfl
  | cons e es ih =>
    by_cases he : e.handle = h <;> simpa [he, Entry.grant] using ih

/-- The entry of a handle, if there is one, is made visible at a depth. -/
def grant (r : Registry) (h : Handle) (d : Nat) : Registry where
  entries := r.entries.map fun e => if e.handle = h then e.grant d else e
  nodup := by rw [map_handle_grant]; exact r.nodup

/-- A known handle is made visible at a depth; an unknown one cannot be. -/
def delegate? (r : Registry) (h : Handle) (d : Nat) : Option Registry :=
  if (r.find? h).isSome then some (r.grant h d) else none

/-! ## Registering a ciphertext -/

theorem handle_ne_of_find?_eq_none {r : Registry} {h : Handle} (hr : r.find? h = none) :
    ∀ e ∈ r.entries, e.handle ≠ h := by
  intro e he
  simpa using List.find?_eq_none.mp hr e he

/-- A ciphertext is made visible at a depth under its handle.  An entry that is there already is
kept and only gains the depth. -/
def register (r : Registry) (c : Ciphertext) (d : Nat) : Registry :=
  let handle := c.handle
  match hr : r.find? handle with
  | some _ => r.grant handle d
  | none =>
    { entries := r.entries ++ [⟨handle, c, [d]⟩]
      nodup := by
        rw [List.map_append, List.nodup_append]
        refine ⟨r.nodup, by simp, ?_⟩
        intro a ha b hb
        obtain ⟨e, he, rfl⟩ := List.mem_map.mp ha
        rw [List.mem_singleton.mp hb]
        exact handle_ne_of_find?_eq_none hr e he }

/-! ## Retiring a depth -/

/-- Retiring a depth removes entries and keeps the handles of the others in their order. -/
theorem sublist_handle_retire (entries : List Entry) (d : Nat) :
    ((entries.filterMap (Entry.retire? d)).map Entry.handle).Sublist
      (entries.map Entry.handle) := by
  induction entries with
  | nil => simp
  | cons e es ih =>
    rw [List.filterMap_cons]
    by_cases hd : e.depths.filter (· ≠ d) = []
    · simp only [Entry.retire?, hd, if_true]
      exact ih.cons _
    · simp only [Entry.retire?, hd, if_false]
      exact ih.cons_cons _

/-- A depth is removed from every entry, and entries left without any depth are dropped. -/
def retire (r : Registry) (d : Nat) : Registry where
  entries := r.entries.filterMap (Entry.retire? d)
  nodup := r.nodup.sublist (sublist_handle_retire r.entries d)

end Registry

end CipherCalls
