/-
# Metering

The host asks for the price of a call before it runs the call.  A price is a function of the
context alone; in particular the engine is never asked.  A payload that cannot be resolved is
reported and has the price 0, by which the host knows that the call cannot proceed.
-/
import CipherCalls.Operands

namespace CipherCalls

/-- A price, and what was reported while it was computed. -/
structure Metered where
  price : UInt64
  events : List Event := []
deriving DecidableEq

/-- A payload without a price is reported, and its price is 0. -/
def orZero (m : Method) (payload : Bytes) : Except CallError UInt64 → Metered
  | .ok price => ⟨price, []⟩
  | .error cause => ⟨0, [.meteringFailed m cause payload]⟩

namespace Context

/-- The price of a method with two operands depends on the width of the result. -/
def priceBinary (c : Context) (op : BinaryOp) (prices : WidthPrices) (payload : Bytes) : Metered :=
  orZero op.method payload ((c.resolveBinary op payload).map fun o => prices.get o.width)

/-- The price of a cast is the same for all widths, and only the length of its payload is
checked. -/
def priceCast (c : Context) (payload : Bytes) : Metered :=
  orZero .cast payload ((expectLength .cast payload 33).map fun _ => c.params.gasCosts.cast)

/-- The price of a method whose only argument is a handle depends on the width of the
ciphertext. -/
def priceTarget (c : Context) (m : Method) (prices : WidthPrices) (payload : Bytes) : Metered :=
  orZero m payload ((c.resolveTarget m payload).map fun ct => prices.get ct.width)

/-- The price of an encryption depends on the width asked for. -/
def priceEncrypt (c : Context) (payload : Bytes) : Metered :=
  orZero .encrypt payload
    ((resolveEncryptWidth payload).map c.params.gasCosts.encrypt.get)

/-- The price of padding is what is missing from what was consumed to the number in the payload,
so that both sides of a branch can be made to cost the same. -/
def pricePadding (c : Context) (supplied : UInt64) (payload : Bytes) : UInt64 :=
  let consumed := c.gasLimit.toNat - supplied.toNat
  UInt64.ofNat ((Bytes.low64 payload).toNat - consumed)

/-- The price of a method on a payload, when some gas was supplied. -/
def priceMethod (c : Context) (supplied : UInt64) (payload : Bytes) : Method → Metered
  | .add => c.priceBinary .add c.params.gasCosts.addSub payload
  | .sub => c.priceBinary .sub c.params.gasCosts.addSub payload
  | .bitAnd => c.priceBinary .bitAnd c.params.gasCosts.bitwise payload
  | .cast => c.priceCast payload
  | .decrypt => c.priceTarget .decrypt c.params.gasCosts.decrypt payload
  | .publicKey => ⟨c.params.gasCosts.publicKey, []⟩
  | .encrypt => c.priceEncrypt payload
  | .require => c.priceTarget .require c.params.gasCosts.require payload
  | .padGas => ⟨c.pricePadding supplied payload, []⟩

end Context

end CipherCalls
