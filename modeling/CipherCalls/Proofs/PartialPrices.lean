/-
# Prices that are set in part

A host that wants other prices for some methods names just these: fields that are left out of the
stored prices keep their default values, and the order of the fields does not matter, nor do members
with unknown keys.  The prices that are named are in effect exactly as they are named.  Tables of
prices by width are different: they have no defaults, so that a table that lacks a width is refused.
So is every object that names a field twice.
-/
import Mathlib
import CipherCalls.Proofs.PriceTexts

namespace CipherCalls

open Json

/-- An entry has the value that a field has in given prices.  The prices of a table may be in any
order. -/
def CostEntry.Of (g : GasCosts) : CostEntry → Prop
  | .table f prices => prices.Perm (WidthPrices.entries (g.get (.table f)))
  | .price f v => v = g.get (.price f)

/-- The value of an entry as it is written. -/
def CostEntry.write : CostEntry → Lexemes
  | .table _ prices => .object (prices.map fun e => (WidthPrices.fieldName e.1, writeUInt64 e.2))
  | .price _ v => writeUInt64 v

/-- Given prices in some fields, and default prices in all others. -/
def GasCosts.onlyOn (g : GasCosts) (S : Finset CostField) : GasCosts where
  addSub := if .table .addSub ∈ S then g.addSub else default.addSub
  bitwise := if .table .bitwise ∈ S then g.bitwise else default.bitwise
  decrypt := if .table .decrypt ∈ S then g.decrypt else default.decrypt
  encrypt := if .table .encrypt ∈ S then g.encrypt else default.encrypt
  require := if .table .require ∈ S then g.require else default.require
  cast := if .price .cast ∈ S then g.cast else default.cast
  publicKey := if .price .publicKey ∈ S then g.publicKey else default.publicKey

/-- A text shows parameters in which prices of all methods stand one time or several times. -/
def Params.Shows (gs : List (List CostEntry)) (text : String) : Prop :=
  ∃ ls w, Params.IsText gs ls ∧ Spaced ls text.toList w ∧ Blank w

section

variable {g : GasCosts} {S : Finset CostField} {e : CostEntry} {es : List CostEntry}
  {gs : List (List CostEntry)} {text : String}

lemma CostEntry.Of.value_eq (h : e.Of g) : e.value = some (g.get e.field) := by
  cases e with
  | table f prices => exact WidthPrices.outcome_of_perm h
  | price f v => exact congrArg some h

lemma GasCosts.get_onlyOn (f : CostField) :
    (g.onlyOn S).get f = if f ∈ S then g.get f else GasCosts.default.get f := by
  obtain f | f := f <;> cases f <;> rfl

/-- The entries of some fields, in any order, make up the prices that differ from the default in
these fields only. -/
lemma GasCosts.outcome_of_forall (hdistinct : (es.map CostEntry.field).Nodup)
    (hvalues : ∀ e ∈ es, e.Of g) :
    GasCosts.outcome es = some (g.onlyOn (es.map CostEntry.field).toFinset) := by
  refine GasCosts.outcome_eq_some_iff.mpr ⟨hdistinct, fun e he => ?_, fun f hf => ?_⟩
  · have hmem : e.field ∈ (es.map CostEntry.field).toFinset :=
      List.mem_toFinset.mpr (List.mem_map_of_mem he)
    rw [GasCosts.get_onlyOn, if_pos hmem, (hvalues e he).value_eq]
  · rw [GasCosts.get_onlyOn, if_neg (mt List.mem_toFinset.mp hf)]

/-- Nothing comes of a table that does not name every width exactly once. -/
lemma WidthPrices.outcome_eq_none {prices : List (Width × UInt64)} {w : Width}
    (h : (prices.map (·.1)).count w ≠ 1) : WidthPrices.outcome prices = none := by
  refine Option.eq_none_iff_forall_ne_some.mpr fun p hp => ?_
  obtain ⟨hnodup, -, hall⟩ := WidthPrices.outcome_eq_some_iff.mp hp
  exact h (List.count_eq_one_of_mem hnodup (hall w))

/-- Nothing comes of prices if a field occurs twice or a table is not complete. -/
lemma GasCosts.outcome_eq_none
    (h : ¬(es.map CostEntry.field).Nodup ∨
      ∃ f prices w, .table f prices ∈ es ∧ (prices.map (·.1)).count w ≠ 1) :
    GasCosts.outcome es = none := by
  refine Option.eq_none_iff_forall_ne_some.mpr fun g hg => ?_
  obtain ⟨hnodup, hvalues, -⟩ := GasCosts.outcome_eq_some_iff.mp hg
  obtain hrepeated | ⟨f, prices, w, he, hw⟩ := h
  · exact hrepeated hnodup
  · have hvalue : WidthPrices.outcome prices = some (g.get (.table f)) := hvalues _ he
    rw [WidthPrices.outcome_eq_none hw] at hvalue
    cases hvalue

lemma CostEntry.isText_write (e : CostEntry) : e.IsText e.write := by
  cases e with
  | table f prices =>
      exact carries_object (fun e : Width × UInt64 => writeUInt64 e.2) fun _ _ => rfl
  | price f v => rfl

/-- Prices can be written with any fields in any order. -/
lemma Params.exists_shows (gs : List (List CostEntry)) : ∃ text, Params.Shows gs text := by
  have hcosts : ∀ es, GasCosts.IsText es (.object (es.map fun e => (e.field.name, e.write))) :=
    fun es => carries_object CostEntry.write fun e _ => e.isText_write
  obtain ⟨ms, hms, -⟩ := carries_object _ fun es (_ : es ∈ gs) => hcosts es
  exact ⟨_, _, [], ⟨ms, hms, rfl⟩, spaced_compact _, .nil⟩

/-- What comes of a text of parameters is what comes of the prices in it. -/
lemma Params.Shows.ofText (h : Params.Shows gs text) :
    Params.ofText text = (Params.outcome gs).elim (.error .mismatched) .ok := by
  obtain ⟨ls, w, hls, hs, hw⟩ := h
  exact hls.yields.document hs hw

/-- **Fields that are named override the default prices, and nothing else does.**  Any fields can be
named in any order.  Whatever this order is, and whatever members with unknown keys stand between
the fields, the parameters that are read have given prices in the fields that are named, and default
prices in all others.  Parameters are refused as being of the wrong kind if prices are there twice,
if a field is named twice, or if a table does not name every width exactly once. -/
theorem Params.named_fields_override :
    (∀ gs : List (List CostEntry), ∃ text, Params.Shows gs text) ∧
    (∀ (g : GasCosts) (S : Finset CostField) (es : List CostEntry) (text : String),
      (es.map CostEntry.field).Nodup → (es.map CostEntry.field).toFinset = S →
        (∀ e ∈ es, e.Of g) → Params.Shows [es] text →
          Params.ofText text = .ok ⟨g.onlyOn S⟩) ∧
      ∀ (gs : List (List CostEntry)) (text : String), Params.Shows gs text →
        (1 < gs.length ∨ ∃ es ∈ gs, ¬(es.map CostEntry.field).Nodup ∨
          ∃ f prices w, .table f prices ∈ es ∧ (prices.map (·.1)).count w ≠ 1) →
            Params.ofText text = .error .mismatched := by
  refine ⟨Params.exists_shows, ?_, ?_⟩
  · rintro g S es text hdistinct rfl hvalues htext
    have hcosts := GasCosts.outcome_of_forall hdistinct hvalues
    have hparams : Params.outcome [es] =
        some ⟨g.onlyOn (es.map CostEntry.field).toFinset⟩ := by
      refine Params.outcome_eq_some_iff.mpr ⟨le_rfl, ?_, fun h => absurd h (List.cons_ne_nil _ _)⟩
      intro ds hds
      rw [List.mem_singleton.mp hds, hcosts]
    rw [htext.ofText, hparams]
    rfl
  · intro gs text htext h
    have hparams : Params.outcome gs = none := by
      refine Option.eq_none_iff_forall_ne_some.mpr fun p hp => ?_
      obtain ⟨hlength, hvalues, -⟩ := Params.outcome_eq_some_iff.mp hp
      obtain hrepeated | ⟨es, hes, hes'⟩ := h
      · omega
      · have hvalue := hvalues es hes
        rw [GasCosts.outcome_eq_none hes'] at hvalue
        cases hvalue
    rw [htext.ofText, hparams]
    rfl

/-- A single price beside a note, and a price that is there twice. -/
theorem Params.cast_overrides_once :
    Params.ofText "\x7b\"note\":null,\"gas_costs\":\x7b\"cast\":5\x7d\x7d" = .ok ⟨{ cast := 5 }⟩ ∧
      Params.ofText "\x7b\"gas_costs\":\x7b\"cast\":5,\"cast\":6\x7d\x7d" =
        .error .mismatched := by
  have hkey : ∀ key : String, Spells (key.toList.flatMap quoteChar) key.toList :=
    fun key => spells_flatMap_quoteChar key.toList
  constructor
  · have hcosts : GasCosts.IsText [.price .cast 5]
        (.ofMembers [.written "cast" (writeUInt64 5)]) :=
      ⟨[.written "cast" (writeUInt64 5)], .entry (hkey "cast") rfl .nil, rfl⟩
    have hparams : Params.IsText [[.price .cast 5]]
        (.ofMembers [.written "note" [['n', 'u', 'l', 'l']],
          .written "gas_costs" (.ofMembers [.written "cast" (writeUInt64 5)])]) :=
      ⟨_, .foreign (hkey "note") (by decide) (.scalar .null)
        (.entry (hkey "gas_costs") hcosts .nil), rfl⟩
    exact Params.named_fields_override.2.1 { cast := 5 } {.price .cast} [.price .cast 5] _
      (by decide) (by decide) (by simp [CostEntry.Of, GasCosts.get])
      ⟨_, [], hparams, spaced_compact _, .nil⟩
  · have hcosts : GasCosts.IsText [.price .cast 5, .price .cast 6]
        (.ofMembers [.written "cast" (writeUInt64 5), .written "cast" (writeUInt64 6)]) :=
      ⟨[.written "cast" (writeUInt64 5), .written "cast" (writeUInt64 6)],
        .entry (hkey "cast") rfl (.entry (hkey "cast") rfl .nil), rfl⟩
    have hparams : Params.IsText [[.price .cast 5, .price .cast 6]]
        (.ofMembers [.written "gas_costs"
          (.ofMembers [.written "cast" (writeUInt64 5), .written "cast" (writeUInt64 6)])]) :=
      ⟨_, .entry (hkey "gas_costs") hcosts .nil, rfl⟩
    exact Params.named_fields_override.2.2 _ _ ⟨_, [], hparams, spaced_compact _, .nil⟩
      (.inr ⟨_, List.mem_singleton_self _, .inl (by decide)⟩)

end

end CipherCalls
