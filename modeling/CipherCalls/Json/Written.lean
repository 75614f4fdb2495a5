/-
# Writing JSON

A value is written as a sequence of lexemes: brackets, commas, colons, names, texts and numbers.
Its compact text is the lexemes one after the other.  Blanks may be put between lexemes, and
nowhere else.
-/
import CipherCalls.Json.Text

namespace CipherCalls.Json

/-- The smallest parts of a written value, in order. -/
abbrev Lexemes := List (List Char)

namespace Lexemes

/-- A natural number in decimal digits. -/
def ofNat (n : Nat) : Lexemes := [Nat.toDigits 10 n]

/-- A text between quotes. -/
def ofText (s : String) : Lexemes := [quote s]

/-- One of the words of the language. -/
def ofBool (b : Bool) : Lexemes := [(if b then "true" else "false").toList]

/-- Parts separated by commas. -/
def separated : List Lexemes → Lexemes
  | [] => []
  | [part] => part
  | part :: parts => part ++ [','] :: separated parts

/-- A list of values. -/
def list (values : List Lexemes) : Lexemes := ['['] :: (separated values ++ [[']']])

/-- A key with its value. -/
def member (key : String) (value : Lexemes) : Lexemes := quote key :: [':'] :: value

/-- An object with its members. -/
def object (members : List (String × Lexemes)) : Lexemes :=
  ['\x7b'] :: (separated (members.map fun m => member m.1 m.2) ++ [['\x7d']])

/-- The text without any blanks. -/
def compact (ls : Lexemes) : String := String.ofList ls.flatten

end Lexemes

end CipherCalls.Json
