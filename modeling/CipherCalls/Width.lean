/-
# Widths of encrypted integers

An encrypted integer has one of five widths.  A width is written as one byte in call data, and a
plaintext of that width is a number below `2 ^ bits`; larger numbers are wrapped.
-/

namespace CipherCalls

/-- The width of an encrypted integer. -/
inductive Width where
  | euint4
  | euint8
  | euint16
  | euint32
  | euint64
deriving DecidableEq, Repr

namespace Width

/-- All widths, the narrowest first. -/
def all : List Width := [euint4, euint8, euint16, euint32, euint64]

/-- The byte that stands for a width in call data. -/
def toByte : Width → UInt8
  | euint4 => 0
  | euint8 => 1
  | euint16 => 2
  | euint32 => 3
  | euint64 => 4

/-- The width a byte stands for. -/
def ofByte? (b : UInt8) : Option Width := all.find? (·.toByte = b)

/-- The number of bits of a plaintext. -/
def bits : Width → Nat
  | euint4 => 4
  | euint8 => 8
  | euint16 => 16
  | euint32 => 32
  | euint64 => 64

/-- The largest plaintext of a width: all its bits are set. -/
def maxValue : Width → UInt64
  | euint4 => 0xF
  | euint8 => 0xFF
  | euint16 => 0xFFFF
  | euint32 => 0xFFFFFFFF
  | euint64 => 0xFFFFFFFFFFFFFFFF

/-- A plaintext reduced modulo `2 ^ bits`. -/
def wrap (w : Width) (v : UInt64) : UInt64 := v &&& w.maxValue

/-- How many widths are narrower. -/
def rank (w : Width) : Nat := (all.filter (·.bits < w.bits)).length

/-- The short name of a width, as messages show it. -/
def text (w : Width) : String := s!"euint{w.bits}"

/-- The long name of a width, as stored documents show it. -/
def name (w : Width) : String := s!"FheUint{w.bits}"

theorem ofByte?_toByte (w : Width) : ofByte? w.toByte = some w := by
  cases w <;> decide

theorem mem_all (w : Width) : w ∈ all := by
  cases w <;> decide

end Width

end CipherCalls
