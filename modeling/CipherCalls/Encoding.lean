/-
# Writing calls and results

A call is the selector of its method followed by the arguments.  A byte string of any length is
returned behind a word that holds the offset 32, completed to whole words.
-/
import CipherCalls.Method

namespace CipherCalls

/-- The offset 32 in a word, then the byte string, completed to whole words. -/
def wrapBytes (blob : Bytes) : Bytes := Bytes.padToWords ((Word.ofUInt64 32).bytes ++ blob)

/-- The selector of a signature followed by the parts of the payload. -/
def encodeCall (signature : String) (parts : List Bytes) : Bytes :=
  selectorBytes (selectorOf signature) ++ parts.flatten

/-- A call with two operands.  The last byte tells whether the right one is a plain number. -/
def binaryCall (signature : String) (lhs : Handle) (rhs : Word) (scalar : Bool) : Bytes :=
  encodeCall signature [lhs.bytes, rhs.bytes, [if scalar then 1 else 0]]

/-- A call with a word and a width. -/
def widthCall (signature : String) (word : Word) (w : Width) : Bytes :=
  encodeCall signature [word.bytes, [w.toByte]]

end CipherCalls
