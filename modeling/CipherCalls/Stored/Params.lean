/-
# Stored parameters

Parameters are stored as JSON.  A table of prices by width has to be complete; fields that are
left out elsewhere keep their default values.
-/
import CipherCalls.Bytes
import CipherCalls.Json.Record
import CipherCalls.Json.Written
import CipherCalls.Params

namespace CipherCalls

open Json

/-- Reads a 64-bit number. -/
def readUInt64 : Reader UInt64 := fun s => (natural UInt64.size s).map (·.map UInt64.ofNat)

/-- A 64-bit number as JSON. -/
def writeUInt64 (v : UInt64) : Lexemes := .ofNat v.toNat

namespace WidthPrices

/-- Five prices, all of which have to be there. -/
def shape : Shape WidthPrices where
  fields :=
    [.ofReader "uint4" readUInt64 fun v p => { p with euint4 := v },
      .ofReader "uint8" readUInt64 fun v p => { p with euint8 := v },
      .ofReader "uint16" readUInt64 fun v p => { p with euint16 := v },
      .ofReader "uint32" readUInt64 fun v p => { p with euint32 := v },
      .ofReader "uint64" readUInt64 fun v p => { p with euint64 := v }]
  start := .uniform 0
  complete := true

/-- Reads prices by width. -/
def read : Reader WidthPrices := shape.read

/-- Prices by width as JSON. -/
def write (p : WidthPrices) : Lexemes :=
  .object [("uint4", writeUInt64 p.euint4), ("uint8", writeUInt64 p.euint8),
    ("uint16", writeUInt64 p.euint16), ("uint32", writeUInt64 p.euint32),
    ("uint64", writeUInt64 p.euint64)]

end WidthPrices

namespace GasCosts

/-- Seven fields, each of which may be left out. -/
def shape : Shape GasCosts where
  fields :=
    [.ofReader "add_sub" WidthPrices.read fun p g => { g with addSub := p },
      .ofReader "bitwise" WidthPrices.read fun p g => { g with bitwise := p },
      .ofReader "decrypt" WidthPrices.read fun p g => { g with decrypt := p },
      .ofReader "trivial_encrypt" WidthPrices.read fun p g => { g with encrypt := p },
      .ofReader "optimistic_require" WidthPrices.read fun p g => { g with require := p },
      .ofReader "cast" readUInt64 fun v g => { g with cast := v },
      .ofReader "pub_key" readUInt64 fun v g => { g with publicKey := v }]
  start := .default
  complete := false

/-- Reads the prices of all methods. -/
def read : Reader GasCosts := shape.read

/-- The prices of all methods as JSON. -/
def write (g : GasCosts) : Lexemes :=
  .object [("add_sub", g.addSub.write), ("bitwise", g.bitwise.write),
    ("decrypt", g.decrypt.write), ("trivial_encrypt", g.encrypt.write),
    ("optimistic_require", g.require.write), ("cast", writeUInt64 g.cast),
    ("pub_key", writeUInt64 g.publicKey)]

end GasCosts

/-- Why parameters could not be loaded. -/
inductive LoadError where
  /-- There is no such file. -/
  | missing
  /-- The file does not hold a text. -/
  | notText
  /-- The text does not stand for parameters. -/
  | invalid (fault : Fault)
deriving DecidableEq

namespace Params

/-- A single field, which may be left out. -/
def shape : Shape Params where
  fields := [.ofReader "gas_costs" GasCosts.read fun g p => { p with gasCosts := g }]
  start := .default
  complete := false

/-- Reads parameters. -/
def read : Reader Params := shape.read

/-- Parameters as JSON. -/
def write (p : Params) : Lexemes := .object [("gas_costs", p.gasCosts.write)]

/-- The parameters in a text. -/
def ofText (s : String) : Except Fault Params := document read s.toList

/-- The parameters in a file, if the file is there. -/
def ofFile (content : Option Bytes) : Except LoadError Params :=
  match content with
  | none => .error .missing
  | some bs =>
    match Bytes.toString? bs with
    | none => .error .notText
    | some s => (ofText s).mapError .invalid

end Params

end CipherCalls
