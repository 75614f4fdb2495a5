/-
# Methods

There are nine methods.  A caller names one by its selector, the first four bytes of the digest of
its signature, and sends the payload behind it.  Bytes beyond the declared length of the payload
are ignored.
-/
import CipherCalls.Ciphertext

namespace CipherCalls

/-- A method that can be called. -/
inductive Method where
  | add
  | sub
  | bitAnd
  | cast
  | decrypt
  | publicKey
  | encrypt
  | require
  | padGas
deriving DecidableEq, Repr

/-- The selector of a signature. -/
def selectorOf (signature : String) : UInt32 :=
  UInt32.ofNat (Bytes.toNatBE ((Keccak.digest (Bytes.ofString signature)).bytes.take 4))

/-- The bytes of a selector, as calls carry them. -/
def selectorBytes (selector : UInt32) : Bytes := Bytes.ofNatBE 4 selector.toNat

/-- A selector as messages show it. -/
def selectorText (selector : UInt32) : String := "0x" ++ Bytes.hex (selectorBytes selector)

namespace Method

/-- All methods, in the order in which they are listed. -/
def all : List Method :=
  [add, sub, bitAnd, cast, decrypt, publicKey, encrypt, require, padGas]

/-- The name of a method. -/
def name : Method → String
  | add => "fheAdd"
  | sub => "fheSub"
  | bitAnd => "fheBitAnd"
  | cast => "cast"
  | decrypt => "decrypt"
  | publicKey => "fhePubKey"
  | encrypt => "trivialEncrypt"
  | require => "optimisticRequire"
  | padGas => "padGas"

/-- The types of the arguments, as the signature lists them. -/
def argumentTypes : Method → String
  | add | sub | bitAnd => "(uint256,uint256,bytes1)"
  | cast | encrypt => "(uint256,bytes1)"
  | decrypt | require | padGas => "(uint256)"
  | publicKey => "(bytes1)"

/-- The declared number of payload bytes. -/
def payloadLength : Method → Nat
  | add | sub | bitAnd => 65
  | cast | encrypt => 33
  | decrypt | require | padGas => 32
  | publicKey => 1

/-- The canonical signature. -/
def signature (m : Method) : String := m.name ++ m.argumentTypes

/-- The selector of a method. -/
def selector (m : Method) : UInt32 := selectorOf m.signature

/-- Every method with its selector. -/
def table : List (UInt32 × Method) := all.map fun m => (m.selector, m)

/-- The method with a given selector. -/
def ofSelector? (selector : UInt32) : Option Method :=
  (table.find? (·.1 = selector)).map Prod.snd

/-- The method with a given name. -/
def ofName? (name : String) : Option Method := all.find? (·.name = name)

/-- The payload of a call: what follows the selector, cut to the declared length. -/
def payload (m : Method) (input : Bytes) : Bytes := (input.drop 4).take m.payloadLength

/-- A method as a developer wants to see it. -/
def inspect (m : Method) : String :=
  "Method \x7b signature: \"" ++ m.signature ++ "\", selector: " ++ selectorText m.selector ++
    " \x7d"

theorem mem_all (m : Method) : m ∈ all := by
  cases m <;> decide

theorem length_payload_le (m : Method) (input : Bytes) :
    (m.payload input).length ≤ m.payloadLength := by
  simp only [payload, List.length_take]
  omega

end Method

end CipherCalls
