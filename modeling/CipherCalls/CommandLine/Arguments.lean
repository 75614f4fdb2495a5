/-
# Arguments

The program knows two commands.  `selectors` lists the methods; `call` prices and runs calls, one
after the other, in one fresh context.  Two files may be named in front of the command, or by the
environment.  An option is written as `--name value` or `--name=value` and may occur once;
after `--` there are only calls.
-/
import CipherCalls.Mode

namespace CipherCalls.CommandLine

/-- What the command `call` is to do. -/
structure CallOptions where
  mode : Mode := .committing
  depth : Nat := 1
  gasLimit : UInt64 := 30000000
  calls : List String
deriving DecidableEq

/-- A command. -/
inductive Command where
  | selectors
  | call (options : CallOptions)
deriving DecidableEq

/-- Why the arguments are no invocation of the program. -/
inductive Refusal where
  /-- Only help was asked for. -/
  | help
  /-- The arguments make no sense. -/
  | usage
deriving DecidableEq

/-- The files named, and the command. -/
structure Invocation where
  paramsPath : Option String
  keyPath : Option String
  command : Command
deriving DecidableEq

/-! ## Single arguments -/

/-- Whether an argument asks for help.  Whatever is written behind the letter `h` of the short form
is not looked at. -/
def asksHelp (a : String) : Bool := a.toList.take 2 = ['-', 'h'] || a = "--help"

/-- Whether an argument looks like an option.  A lone dash does not. -/
def looksLikeOption (a : String) : Bool := a.toList.head? = some '-' && a ≠ "-"

/-- The name of an option and the value behind the first equals sign, if the argument is one of the
form `--name` or `--name=value`. -/
def option? (a : String) : Option (String × Option String) :=
  match a.toList with
  | '-' :: '-' :: name =>
    let value := (name.dropWhile (· ≠ '=')).tail?.map String.ofList
    some (String.ofList (name.takeWhile (· ≠ '=')), value)
  | _ => none

/-- A natural number below a bound, in decimal digits with an optional plus in front. -/
def decimal? (bound : Nat) (s : String) : Option Nat :=
  let ds := if s.toList.head? = some '+' then s.toList.tail else s.toList
  if ds ≠ [] ∧ ds.all Char.isDigit then
    let n := ds.foldl (fun n d => 10 * n + (d.toNat - '0'.toNat)) 0
    if n < bound then some n else none
  else none

/-- A slot for an option is filled, unless it was filled before or the value is no good. -/
def fill {α : Type} (slot : Option α) (value : Option α) : Except Refusal (Option α) :=
  match slot, value with
  | none, some a => .ok (some a)
  | _, _ => .error .usage

/-! ## The command `call` -/

/-- The options of `call` met so far, and the calls. -/
structure CallDraft where
  mode : Option Mode := none
  depth : Option Nat := none
  gasLimit : Option UInt64 := none
  calls : List String := []

namespace CallDraft

/-- An option is met. -/
def set (d : CallDraft) (name value : String) : Except Refusal CallDraft :=
  if name = "mode" then do
    return { d with mode := ← fill d.mode (Mode.ofText? value) }
  else if name = "depth" then do
    return { d with depth := ← fill d.depth (decimal? UInt64.size value) }
  else if name = "gas-limit" then do
    return { d with gasLimit := ← fill d.gasLimit ((decimal? UInt64.size value).map UInt64.ofNat) }
  else .error .usage

/-- The options, with defaults for those not met.  At least one call is wanted. -/
def options (d : CallDraft) : Except Refusal CallOptions :=
  if d.calls = [] then .error .usage
  else
    .ok { mode := d.mode.getD .committing, depth := d.depth.getD 1,
          gasLimit := d.gasLimit.getD 30000000, calls := d.calls }

/-- Reads the arguments behind `call`. -/
def read (d : CallDraft) : List String → Except Refusal CallDraft
  | [] => .ok d
  | a :: rest =>
    if a = "--" then .ok { d with calls := d.calls ++ rest }
    else if asksHelp a then .error .help
    else
      match option? a with
      | some (name, some value) => do
        let d ← d.set name value
        read d rest
      | some (name, none) =>
        match rest with
        | [] => .error .usage
        | value :: rest =>
          if looksLikeOption value then .error .usage
          else do
            let d ← d.set name value
            read d rest
      | none =>
        if looksLikeOption a then .error .usage
        else read { d with calls := d.calls ++ [a] } rest

end CallDraft

/-! ## All arguments -/

/-- Reads the arguments behind `selectors`, where there should be none. -/
def readNothing : List String → Except Refusal Unit
  | [] | ["--"] => .ok ()
  | a :: _ => .error (if asksHelp a then .help else .usage)

/-- Reads the arguments behind `help`. -/
def readTopic : List String → Refusal
  | [] | ["selectors"] | ["call"] | ["help"] => .help
  | _ => .usage

/-- The path given by a value, which may not be empty. -/
def path? (value : String) : Option String := if value = "" then none else some value

/-- The files met so far. -/
structure FilesDraft where
  params : Option String := none
  key : Option String := none

namespace FilesDraft

/-- An option is met. -/
def set (d : FilesDraft) (name value : String) : Except Refusal FilesDraft :=
  if name = "params" then do
    return { d with params := ← fill d.params (path? value) }
  else if name = "pks" then do
    return { d with key := ← fill d.key (path? value) }
  else .error .usage

/-- Files that were not named are those of the environment. -/
def complete (d : FilesDraft) (params key : Option String) (command : Command) :
    Except Refusal Invocation := do
  let params ← if d.params = none ∧ params ≠ none then fill none (params.bind path?)
    else .ok d.params
  let key ← if d.key = none ∧ key ≠ none then fill none (key.bind path?) else .ok d.key
  return ⟨params, key, command⟩

/-- Reads options for files up to the command, and the command. -/
def read (d : FilesDraft) : List String → Except Refusal (FilesDraft × Command)
  | [] => .error .usage
  | a :: rest =>
    if asksHelp a then .error .help
    else if a = "help" then .error (readTopic rest)
    else if a = "selectors" then do
      readNothing rest
      return (d, .selectors)
    else if a = "call" then do
      let draft ← CallDraft.read {} rest
      return (d, .call (← draft.options))
    else
      match option? a with
      | some (name, some value) => do
        let d ← d.set name value
        read d rest
      | some (name, none) =>
        match rest with
        | [] => .error .usage
        | value :: rest =>
          if looksLikeOption value then .error .usage
          else do
            let d ← d.set name value
            read d rest
      | none => .error .usage

end FilesDraft

/-- The invocation that arguments stand for, given the files the environment names. -/
def Invocation.ofArguments (params key : Option String) (args : List String) :
    Except Refusal Invocation := do
  let (files, command) ← FilesDraft.read {} args
  files.complete params key command

end CipherCalls.CommandLine
