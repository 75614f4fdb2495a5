/-
# The clear engine

The reference engine hides nothing: a payload is the plaintext itself, in eight bytes with the
least significant one first.  Ciphertexts of equal width and equal plaintext are therefore equal.
Payloads from elsewhere are read leniently: bytes after the eighth are ignored, and a number that
is too large for its width is wrapped.
-/
import CipherCalls.Engine.Basic

namespace CipherCalls.Clear

/-- The ciphertext of a plaintext, which is wrapped to the width. -/
def encode (v : UInt64) (w : Width) : Ciphertext := ⟨w, Bytes.ofNatLE 8 (w.wrap v).toNat⟩

/-- The refusal of a payload of fewer than eight bytes. -/
def tooShort : EngineError := .malformed "io error: unexpected end of file"

/-- The plaintext of a ciphertext. -/
def value (c : Ciphertext) : Except EngineError UInt64 :=
  if c.payload.length < 8 then .error tooShort
  else .ok (c.width.wrap (UInt64.ofNat (Bytes.toNatLE (c.payload.take 8))))

/-- A function of two plaintexts, carried out on ciphertexts of one width.  The widths are
compared before either plaintext is read. -/
def combine (f : UInt64 → UInt64 → UInt64) (lhs rhs : Ciphertext) :
    Except EngineError Ciphertext := do
  if lhs.width ≠ rhs.width then throw (.widthMismatch lhs.width rhs.width)
  let a ← value lhs
  let b ← value rhs
  return encode (f a b) lhs.width

/-- A function of two plaintexts of which the second is given in the clear.  It is wrapped to the
width of the first. -/
def combineScalar (f : UInt64 → UInt64 → UInt64) (lhs : Ciphertext) (rhs : UInt64) :
    Except EngineError Ciphertext := do
  let a ← value lhs
  return encode (f a (lhs.width.wrap rhs)) lhs.width

/-- The answer to a request. -/
def produce : Engine.Request → Except EngineError Ciphertext
  | .add lhs rhs => combine (· + ·) lhs rhs
  | .sub lhs rhs => combine (· - ·) lhs rhs
  | .addScalar lhs rhs => combineScalar (· + ·) lhs rhs
  | .subScalar lhs rhs => combineScalar (· - ·) lhs rhs
  | .bitAnd lhs rhs => combine (· &&& ·) lhs rhs
  | .cast source w => (value source).map (encode · w)
  | .encrypt v w => .ok (encode v w)

/-- The engine that answers in the clear. -/
def engine : Engine where
  produce _ := produce
  decrypt _ := value

theorem engine_steady : engine.Steady := fun _ _ => ⟨rfl, rfl⟩

@[simp] theorem length_payload_encode (v : UInt64) (w : Width) :
    (encode v w).payload.length = 8 := by
  simp [encode]

end CipherCalls.Clear
