/-
# Execution modes

A host runs a call in one of three modes, chosen once for the call.
-/

namespace CipherCalls

/-- How the host runs a call. -/
inductive Mode where
  /-- Only the cost is of interest: results are stand-ins and nothing is kept. -/
  | estimating
  /-- The call is executed for real, but reads only. -/
  | staticCall
  /-- The call is executed for real and its effects are kept. -/
  | committing
deriving DecidableEq, Repr

namespace Mode

/-- All modes. -/
def all : List Mode := [estimating, staticCall, committing]

/-- The mode of a host that tells whether it commits and whether the call is a static one.  Who
commits, commits; who does neither, estimates. -/
def ofFlags (commits isStatic : Bool) : Mode :=
  if commits then committing else if isStatic then staticCall else estimating

/-- The short name of a mode. -/
def text : Mode → String
  | estimating => "estimate"
  | staticCall => "static"
  | committing => "commit"

/-- The second name a mode is known by. -/
def longText : Mode → String
  | estimating => "estimating"
  | staticCall => "static-call"
  | committing => "committing"

/-- The long name of a mode, as stored documents show it. -/
def name : Mode → String
  | estimating => "Estimating"
  | staticCall => "StaticCall"
  | committing => "Committing"

/-- The mode with a given short name or second name. -/
def ofText? (s : String) : Option Mode := all.find? fun m => m.text = s ∨ m.longText = s

/-- What is said of a text that names no mode. -/
def unknown (s : String) : String := s!"unknown execution mode {s}"

theorem ofText?_text (m : Mode) : ofText? m.text = some m := by
  cases m <;> decide

end Mode

end CipherCalls
