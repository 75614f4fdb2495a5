/-
# Pending requirements

A requirement is a ciphertext that has to hide a number other than zero.  Requirements are only
collected when they are stated; they are checked all at once before the next plaintext is
revealed.  The check combines them by bitwise conjunction from left to right and decrypts the
result, and it uses the list up whatever comes of it.
-/
import CipherCalls.Journal

namespace CipherCalls

/-- The requirements stated and not yet checked, oldest first. -/
structure Requires where
  conditions : List Ciphertext := []
deriving DecidableEq

namespace Requires

/-- No requirement. -/
def empty : Requires := {}

/-- One more requirement. -/
def push (r : Requires) (c : Ciphertext) : Requires := ⟨r.conditions ++ [c]⟩

/-- The number of requirements. -/
def size (r : Requires) : Nat := r.conditions.length

/-- Whether there is no requirement. -/
def isEmpty (r : Requires) : Bool := r.conditions.isEmpty

/-- The requirements, and the empty list left in their place. -/
def take (r : Requires) : List Ciphertext × Requires := (r.conditions, empty)

end Requires

/-- The conjunction of a ciphertext with others, from left to right.  The first refusal of the
engine ends it. -/
def conjoin (e : Engine) (first : Ciphertext) :
    List Ciphertext → Journal → Except EngineError Ciphertext × Journal
  | [], j => (.ok first, j)
  | next :: rest, j =>
    match j.produce e (.bitAnd first next) with
    | (.ok both, j) => conjoin e both rest j
    | (.error cause, j) => (.error cause, j.log (.conjunctionFailed cause))

/-- Whether all conditions hold.  Without conditions the engine is not asked at all. -/
def evaluateConditions (e : Engine) (conditions : List Ciphertext) (j : Journal) :
    Except EngineError Bool × Journal :=
  match conditions with
  | [] => (.ok true, j)
  | first :: rest =>
    match conjoin e first rest j with
    | (.error cause, j) => (.error cause, j)
    | (.ok all, j) =>
      match j.decrypt e all with
      | (.error cause, j) => (.error cause, j)
      | (.ok value, j) => (.ok (value ≠ 0), j)

namespace Requires

/-- The requirements are taken and checked. -/
def evaluate (e : Engine) (r : Requires) (j : Journal) :
    Except EngineError Bool × Requires × Journal :=
  let (conditions, left) := r.take
  let (result, j) := evaluateConditions e conditions j
  (result, left, j)

end Requires

end CipherCalls
