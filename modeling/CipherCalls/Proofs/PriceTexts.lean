/-
# Written prices

Parameters are written as objects inside objects: a table of prices by width is an object with five
fields, the prices of all methods are an object with seven, five of which are tables, and the
parameters are an object with a single field.  The entries of these objects are taken as they come,
in any order and perhaps several times for one field.  Which tables, prices and parameters come of
them is said field by field (`WidthPrices.outcome_eq_some_iff`, `GasCosts.outcome_eq_some_iff`,
`Params.outcome_eq_some_iff`).
-/
import Mathlib
import CipherCalls.Proofs.WrittenRecords
import CipherCalls.Stored.Params

namespace CipherCalls

open Json

/-! ## Tables of prices by width -/

namespace WidthPrices

/-- The name of the field for a width. -/
def fieldName : Width → String
  | .euint4 => "uint4"
  | .euint8 => "uint8"
  | .euint16 => "uint16"
  | .euint32 => "uint32"
  | .euint64 => "uint64"

/-- The price for a width is replaced. -/
def set (w : Width) (v : UInt64) (p : WidthPrices) : WidthPrices :=
  match w with
  | .euint4 => { p with euint4 := v }
  | .euint8 => { p with euint8 := v }
  | .euint16 => { p with euint16 := v }
  | .euint32 => { p with euint32 := v }
  | .euint64 => { p with euint64 := v }

lemma ext_get {p q : WidthPrices} (h : ∀ w, p.get w = q.get w) : p = q := by
  obtain ⟨p4, p8, p16, p32, p64⟩ := p
  obtain ⟨q4, q8, q16, q32, q64⟩ := q
  obtain rfl : p4 = q4 := h .euint4
  obtain rfl : p8 = q8 := h .euint8
  obtain rfl : p16 = q16 := h .euint16
  obtain rfl : p32 = q32 := h .euint32
  obtain rfl : p64 = q64 := h .euint64
  rfl

/-- A table is the prices for all widths. -/
def parts : Parts shape Width fun _ => UInt64 where
  all := Width.all
  name := fieldName
  reader _ := readUInt64
  part w p := p.get w
  set := set
  fields_eq := rfl
  mem_all := Width.mem_all
  name_injective := by
    intro v w h
    cases v <;> cases w <;> first | rfl | exact absurd h (by decide)
  part_set_self w v p := by cases w <;> rfl
  part_set_of_ne := by
    intro v w h x p
    cases v <;> cases w <;> first | rfl | exact absurd rfl h
  ext := ext_get

variable {p : WidthPrices} {es : List (Width × UInt64)} {ls : Lexemes}

/-- An object holds prices for widths, in the order in which it has them. -/
def IsText (es : List (Width × UInt64)) (ls : Lexemes) : Prop :=
  ∃ ms, Carries (Width.all.map fieldName) (fun e => fieldName e.1)
    (fun e ls => ls = writeUInt64 e.2) [] es ms ∧ ls = .ofMembers ms

/-- The table that comes of prices for widths. -/
def outcome (es : List (Width × UInt64)) : Option WidthPrices :=
  shape.outcome (parts.entries (·.1) (fun e => some e.2) es)

/-- What comes of the text of a table. -/
lemma IsText.yields (h : IsText es ls) : Yields read ls (outcome es) := by
  obtain ⟨ms, hms, rfl⟩ := h
  refine parts.yields ?_ hms
  rintro e _ rfl
  exact reads_uint64 e.2

/-- A table is read if it names every width once, and it has the prices that it names. -/
theorem outcome_eq_some_iff :
    outcome es = some p ↔
      (es.map (·.1)).Nodup ∧ (∀ e ∈ es, e.2 = p.get e.1) ∧ ∀ w, w ∈ es.map (·.1) := by
  rw [outcome, parts.outcome_eq_some_iff]
  have hvalues : (∀ e ∈ es, some e.2 = some (parts.part e.1 p)) ↔ ∀ e ∈ es, e.2 = p.get e.1 := by
    simp only [Option.some.injEq]
    rfl
  have hmissing : (∀ w, w ∉ es.map (·.1) → shape.complete = false ∧
      parts.part w p = parts.part w shape.start) ↔ ∀ w, w ∈ es.map (·.1) := by
    have hcomplete : shape.complete = true := rfl
    simp only [hcomplete, Bool.true_eq_false, false_and, imp_false, not_not]
  rw [hvalues, hmissing]

/-- All prices of a table. -/
def entries (p : WidthPrices) : List (Width × UInt64) := Width.all.map fun w => (w, p.get w)

/-- The prices of a table make up this table, in any order. -/
lemma outcome_of_perm (h : es.Perm p.entries) : outcome es = some p := by
  have hwidths : (es.map (·.1)).Perm Width.all := by
    have hall : p.entries.map (·.1) = Width.all := rfl
    rw [← hall]
    exact h.map _
  refine outcome_eq_some_iff.mpr ⟨?_, ?_, fun w => ?_⟩
  · exact hwidths.nodup_iff.mpr (by decide)
  · intro e he
    obtain ⟨w, -, rfl⟩ := List.mem_map.mp (h.mem_iff.mp he)
    rfl
  · exact hwidths.mem_iff.mpr (Width.mem_all w)

end WidthPrices

/-! ## Prices of all methods -/

/-- The fields that hold a table. -/
inductive TableField where
  | addSub
  | bitwise
  | decrypt
  | encrypt
  | require
deriving DecidableEq

/-- The fields that hold a single price. -/
inductive PriceField where
  | cast
  | publicKey
deriving DecidableEq

/-- The fields of the prices of all methods. -/
inductive CostField where
  | table (f : TableField)
  | price (f : PriceField)
deriving DecidableEq

namespace CostField

/-- All fields, in their own order. -/
def all : List CostField :=
  [.table .addSub, .table .bitwise, .table .decrypt, .table .encrypt, .table .require,
    .price .cast, .price .publicKey]

/-- The name of a field. -/
def name : CostField → String
  | .table .addSub => "add_sub"
  | .table .bitwise => "bitwise"
  | .table .decrypt => "decrypt"
  | .table .encrypt => "trivial_encrypt"
  | .table .require => "optimistic_require"
  | .price .cast => "cast"
  | .price .publicKey => "pub_key"

/-- What a field holds. -/
def Value : CostField → Type
  | .table _ => WidthPrices
  | .price _ => UInt64

/-- Reads the value of a field. -/
def reader : (f : CostField) → Reader f.Value
  | .table _ => WidthPrices.read
  | .price _ => readUInt64

end CostField

namespace GasCosts

/-- The value of a field. -/
def get (g : GasCosts) : (f : CostField) → f.Value
  | .table .addSub => g.addSub
  | .table .bitwise => g.bitwise
  | .table .decrypt => g.decrypt
  | .table .encrypt => g.encrypt
  | .table .require => g.require
  | .price .cast => g.cast
  | .price .publicKey => g.publicKey

/-- The value of a field is replaced. -/
def set : (f : CostField) → f.Value → GasCosts → GasCosts
  | .table .addSub, p, g => { g with addSub := p }
  | .table .bitwise, p, g => { g with bitwise := p }
  | .table .decrypt, p, g => { g with decrypt := p }
  | .table .encrypt, p, g => { g with encrypt := p }
  | .table .require, p, g => { g with require := p }
  | .price .cast, v, g => { g with cast := v }
  | .price .publicKey, v, g => { g with publicKey := v }

lemma ext_get {g c : GasCosts} (h : ∀ f, g.get f = c.get f) : g = c := by
  obtain ⟨g1, g2, g3, g4, g5, g6, g7⟩ := g
  obtain ⟨c1, c2, c3, c4, c5, c6, c7⟩ := c
  obtain rfl : g1 = c1 := h (.table .addSub)
  obtain rfl : g2 = c2 := h (.table .bitwise)
  obtain rfl : g3 = c3 := h (.table .decrypt)
  obtain rfl : g4 = c4 := h (.table .encrypt)
  obtain rfl : g5 = c5 := h (.table .require)
  obtain rfl : g6 = c6 := h (.price .cast)
  obtain rfl : g7 = c7 := h (.price .publicKey)
  rfl

/-- The prices of all methods are the values of the seven fields. -/
def parts : Parts shape CostField CostField.Value where
  all := CostField.all
  name := CostField.name
  reader := CostField.reader
  part f g := g.get f
  set := set
  fields_eq := rfl
  mem_all := by rintro ((_ | _) | (_ | _)) <;> decide
  name_injective := by
    rintro (f | f) (d | d) h <;> cases f <;> cases d <;>
      first | rfl | exact absurd h (by decide)
  part_set_self := by rintro (f | f) b g <;> cases f <;> rfl
  part_set_of_ne := by
    rintro (f | f) (d | d) h b g <;> cases f <;> cases d <;> first | rfl | exact absurd rfl h
  ext := ext_get

end GasCosts

/-- A field with its value as it is written: prices for widths, or a price. -/
inductive CostEntry where
  | table (f : TableField) (prices : List (Width × UInt64))
  | price (f : PriceField) (v : UInt64)

namespace CostEntry

/-- The field of an entry. -/
def field : CostEntry → CostField
  | .table f _ => .table f
  | .price f _ => .price f

/-- The value of an entry, unless it is a table that is not complete. -/
def value : (e : CostEntry) → Option e.field.Value
  | .table _ prices => WidthPrices.outcome prices
  | .price _ v => some v

/-- The value of an entry is written by lexemes. -/
def IsText : CostEntry → Lexemes → Prop
  | .table _ prices, ls => WidthPrices.IsText prices ls
  | .price _ v, ls => ls = writeUInt64 v

end CostEntry

namespace GasCosts

variable {g : GasCosts} {es : List CostEntry} {ls : Lexemes}

/-- An object holds entries, in the order in which it has them. -/
def IsText (es : List CostEntry) (ls : Lexemes) : Prop :=
  ∃ ms, Carries (CostField.all.map CostField.name) (fun e => e.field.name) CostEntry.IsText
    [] es ms ∧ ls = .ofMembers ms

/-- The prices that come of entries. -/
def outcome (es : List CostEntry) : Option GasCosts :=
  shape.outcome (parts.entries CostEntry.field CostEntry.value es)

/-- What comes of the text of prices. -/
lemma IsText.yields (h : IsText es ls) : Yields read ls (outcome es) := by
  obtain ⟨ms, hms, rfl⟩ := h
  refine parts.yields ?_ hms
  intro e ls he
  cases e with
  | table f prices => exact WidthPrices.IsText.yields he
  | price f v =>
      obtain rfl := he
      exact reads_uint64 v

/-- Prices are read if no field occurs twice and all tables are complete.  Fields that do not occur
have their default values. -/
theorem outcome_eq_some_iff :
    outcome es = some g ↔
      (es.map CostEntry.field).Nodup ∧ (∀ e ∈ es, e.value = some (g.get e.field)) ∧
        ∀ f, f ∉ es.map CostEntry.field → g.get f = default.get f := by
  rw [outcome, parts.outcome_eq_some_iff]
  have hmissing : (∀ f, f ∉ es.map CostEntry.field → shape.complete = false ∧
      parts.part f g = parts.part f shape.start) ↔
        ∀ f, f ∉ es.map CostEntry.field → g.get f = default.get f := by
    have hcomplete : shape.complete = false := by decide
    simp only [hcomplete, true_and]
    rfl
  rw [hmissing]
  rfl

end GasCosts

/-! ## Parameters -/

namespace Params

/-- Parameters are the value of a single field. -/
def parts : Parts shape Unit fun _ => GasCosts where
  all := [()]
  name _ := "gas_costs"
  reader _ := GasCosts.read
  part _ p := p.gasCosts
  set _ g p := { p with gasCosts := g }
  fields_eq := rfl
  mem_all _ := List.mem_singleton_self _
  name_injective _ _ _ := rfl
  part_set_self _ _ _ := rfl
  part_set_of_ne h := absurd rfl h
  ext := by
    rintro ⟨g⟩ ⟨c⟩ h
    obtain rfl : g = c := h ()
    rfl

variable {p : Params} {gs : List (List CostEntry)} {ls : Lexemes}

/-- An object holds prices of all methods, one time or several times. -/
def IsText (gs : List (List CostEntry)) (ls : Lexemes) : Prop :=
  ∃ ms, Carries ["gas_costs"] (fun _ => "gas_costs") GasCosts.IsText [] gs ms ∧ ls = .ofMembers ms

/-- The parameters that come of prices. -/
def outcome (gs : List (List CostEntry)) : Option Params :=
  shape.outcome (parts.entries (fun _ => ()) GasCosts.outcome gs)

/-- What comes of the text of parameters. -/
lemma IsText.yields (h : IsText gs ls) : Yields read ls (outcome gs) := by
  obtain ⟨ms, hms, rfl⟩ := h
  exact parts.yields (fun _ _ => GasCosts.IsText.yields) hms

/-- Parameters are read if prices do not occur twice. -/
theorem outcome_eq_some_iff :
    outcome gs = some p ↔
      gs.length ≤ 1 ∧ (∀ es ∈ gs, GasCosts.outcome es = some p.gasCosts) ∧
        (gs = [] → p = default) := by
  have hnodup : (gs.map fun _ => ()).Nodup ↔ gs.length ≤ 1 := by
    obtain _ | ⟨es, _ | ⟨ds, gs⟩⟩ := gs <;> simp
  have hmissing : (∀ k, k ∉ gs.map (fun _ => ()) → shape.complete = false ∧
      parts.part k p = parts.part k shape.start) ↔ (gs = [] → p = default) := by
    obtain ⟨g⟩ := p
    cases gs with
    | nil => simp [shape, parts, default]
    | cons es gs => simp
  rw [outcome, parts.outcome_eq_some_iff, hnodup, hmissing]
  rfl

end Params

end CipherCalls
