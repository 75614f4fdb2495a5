/-
# Prices

What a call costs depends on its method and, for most methods, on the width of the operands.  The
price table is a parameter of the host; fields it does not set have the values given here.
-/
import CipherCalls.Width

namespace CipherCalls

/-- A price for every width. -/
structure WidthPrices where
  euint4 : UInt64
  euint8 : UInt64
  euint16 : UInt64
  euint32 : UInt64
  euint64 : UInt64
deriving DecidableEq

namespace WidthPrices

/-- One price for all widths. -/
def uniform (price : UInt64) : WidthPrices := ⟨price, price, price, price, price⟩

/-- The price for a width. -/
def get (p : WidthPrices) : Width → UInt64
  | .euint4 => p.euint4
  | .euint8 => p.euint8
  | .euint16 => p.euint16
  | .euint32 => p.euint32
  | .euint64 => p.euint64

/-- The prices, that of the narrowest width first. -/
def toList (p : WidthPrices) : List UInt64 := Width.all.map p.get

end WidthPrices

/-- The prices of all methods. -/
structure GasCosts where
  addSub : WidthPrices := ⟨61000, 83000, 108000, 130000, 162000⟩
  bitwise : WidthPrices := ⟨20000, 20000, 21000, 22000, 24000⟩
  decrypt : WidthPrices := .uniform 500000
  encrypt : WidthPrices := ⟨100, 100, 200, 300, 600⟩
  require : WidthPrices := ⟨160000, 170000, 180000, 190000, 200000⟩
  cast : UInt64 := 200
  publicKey : UInt64 := 2
deriving DecidableEq

/-- The prices that hold unless a host sets others. -/
def GasCosts.default : GasCosts := {}

/-- The parameters of a host. -/
structure Params where
  gasCosts : GasCosts := .default
deriving DecidableEq

/-- The parameters that hold unless a host sets others. -/
def Params.default : Params := {}

end CipherCalls
