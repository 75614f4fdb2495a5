/-
# What a line of the report says

A line about a call is one JSON object.  Whoever reads it finds the price, and either the output, in
hexadecimal digits behind the mark `0x`, or the text of the failure with whether it is a revert
(`Told`).  The reader is put together from those for stored values; members that are not there are
missing, so that an output is never told together with a failure.

Besides, the text is known to the last character, up to how the text of a failure is spelled between
its quotes (`TellsOf`).
-/
import Mathlib
import CipherCalls.Proofs.WrittenCalls
import CipherCalls.Proofs.WrittenRecords

namespace CipherCalls

/-- Bytes are read back from their hexadecimal digits. -/
lemma Bytes.ofHex?_hex (bs : Bytes) : ofHex? (hex bs).toList = some bs := by
  rw [hex, String.toList_ofList]
  induction bs with
  | nil => rfl
  | cons b bs ih =>
      have hbyte := b.toNat_lt
      exact ofHex?_cons_cons_eq_some_iff.mpr
        ⟨Json.hexDigit?_digitChar _ (by omega), Json.hexDigit?_digitChar _ (by omega), ih⟩

lemma Bytes.mem_hexDigits_of_mem_hex {bs : Bytes} {c : Char} (h : c ∈ (hex bs).toList) :
    c ∈ hexDigits :=
  (exists_ofHex?_iff.mp ⟨bs, ofHex?_hex bs⟩).2 c h

namespace Json

/-! ## Readers -/

/-- Reads a text between quotes. -/
def quotedText : Reader String := fun s => (key s).map (·.map String.ofList)

/-- The bytes that a text shows in hexadecimal behind the mark `0x`. -/
def ofMarkedHex? : List Char → Option Bytes
  | '0' :: 'x' :: digits => Bytes.ofHex? digits
  | _ => none

/-- Reads bytes in hexadecimal. -/
def hexText : Reader Bytes := fun s =>
  match key s with
  | .error f => .error f
  | .ok x =>
    match ofMarkedHex? x.value with
    | none => .error .mismatched
    | some bs => .ok (x.map fun _ => bs)

/-- Reads one of the words `true` and `false`. -/
def boolean : Reader Bool := fun s =>
  match mark? s with
  | none => .error .truncated
  | some x =>
    if x.value = 't' then
      (word ['r', 'u', 'e'] x.rest).map fun y => x.before (y.map fun _ => true)
    else if x.value = 'f' then
      (word ['a', 'l', 's', 'e'] x.rest).map fun y => x.before (y.map fun _ => false)
    else .error (misfit x.value x.rest)

/-- A text is read as it is written. -/
lemma key_ofText {text : String} {s rest : List Char} (hs : Spaced (Lexemes.ofText text) s rest) :
    Gives (key s) text.toList rest := by
  obtain ⟨m, hread, hnil⟩ := Spaced.key hs (spells_flatMap_quoteChar text.toList)
  cases hnil
  exact hread

lemma reads_quotedText (text : String) : Reads quotedText (.ofText text) text := by
  intro s rest hs _
  have hread : Gives (quotedText s) (String.ofList text.toList) rest := (key_ofText hs).map _
  rwa [String.ofList_toList] at hread

lemma ofMarkedHex?_hex (bs : Bytes) : ofMarkedHex? ("0x" ++ Bytes.hex bs).toList = some bs := by
  rw [String.toList_append]
  exact Bytes.ofHex?_hex bs

lemma reads_hexText (bs : Bytes) : Reads hexText (.ofText ("0x" ++ Bytes.hex bs)) bs := by
  intro s rest hs _
  obtain ⟨h, hread⟩ := key_ofText hs
  simp only [hexText, hread, ofMarkedHex?_hex]
  exact ⟨_, rfl⟩

lemma reads_boolean (b : Bool) : Reads boolean (.ofBool b) b := by
  intro s rest hs _
  cases b with
  | true =>
      obtain ⟨m, hm, hmark, hnil⟩ := Spaced.mark? (c := 't') (l := ['r', 'u', 'e']) hs (by decide)
      cases hnil
      obtain ⟨h, hword⟩ := word_append ['r', 'u', 'e'] rest
      simp only [boolean, hmark, if_true, hword]
      exact ⟨_, rfl⟩
  | false =>
      have hfirst : ('f' : Char) ≠ 't' := by decide
      obtain ⟨m, hm, hmark, hnil⟩ :=
        Spaced.mark? (c := 'f') (l := ['a', 'l', 's', 'e']) hs (by decide)
      cases hnil
      obtain ⟨h, hword⟩ := word_append ['a', 'l', 's', 'e'] rest
      simp only [boolean, hmark, if_neg hfirst, if_true, hword]
      exact ⟨_, rfl⟩

/-! ## Texts as they are written -/

/-- A text of characters that stand for themselves is written as it is. -/
lemma flatMap_quoteChar_of_plain {s : List Char} (h : ∀ c ∈ s, IsPlain c) :
    s.flatMap quoteChar = s := by
  induction s with
  | nil => rfl
  | cons c s ih =>
      obtain ⟨⟨hquote, hslash, hcontrol⟩, hs⟩ := List.forall_mem_cons.mp h
      have hother : ∀ d : Char, d.toNat < 0x20 → c ≠ d := by
        rintro d hd rfl
        exact hcontrol hd
      rw [List.flatMap_cons, ih hs, quoteChar, if_neg hquote, if_neg hslash,
        if_neg (hother _ (by decide)), if_neg (hother _ (by decide)), if_neg (hother _ (by decide)),
        if_neg (hother _ (by decide)), if_neg (hother _ (by decide)), if_neg hcontrol]
      rfl

/-- Nothing in a hexadecimal text has to be escaped. -/
lemma isPlain_of_mem_hexDigits {c : Char} (h : c ∈ Bytes.hexDigits) : IsPlain c := by
  have hcode := Bytes.mem_hexDigits_iff.mp h
  refine ⟨?quote, ?slash, by omega⟩
  case quote =>
    rintro rfl
    exact absurd h (by decide)
  case slash =>
    rintro rfl
    exact absurd h (by decide)

lemma quote_hex (bs : Bytes) :
    quote ("0x" ++ Bytes.hex bs) = '"' :: '0' :: 'x' :: ((Bytes.hex bs).toList ++ ['"']) := by
  have hplain : ∀ c ∈ (Bytes.hex bs).toList, IsPlain c := fun c hc =>
    isPlain_of_mem_hexDigits (Bytes.mem_hexDigits_of_mem_hex hc)
  rw [quote, String.toList_append, List.flatMap_append, flatMap_quoteChar_of_plain hplain]
  rfl

lemma toList_toString_nat (n : Nat) : (toString n).toList = Nat.toDigits 10 n :=
  String.toList_ofList

lemma newline_notMem_hex (bs : Bytes) : '\n' ∉ (Bytes.hex bs).toList := fun hmem =>
  absurd (Bytes.mem_hexDigits_of_mem_hex hmem) (by decide)

lemma newline_notMem_toString_nat (n : Nat) : '\n' ∉ (toString n).toList := by
  intro hmem
  rw [toList_toString_nat] at hmem
  exact absurd ((digits_toDigits n).2 _ hmem) (by decide)

/-- A line break is written by an escape. -/
lemma newline_notMem_quoteChar (c : Char) : '\n' ∉ quoteChar c := by
  have hhex := newline_notMem_hex [UInt8.ofNat c.toNat]
  rw [Bytes.hex, String.toList_ofList, List.flatMap_singleton] at hhex
  unfold quoteChar
  split_ifs with h1 h2 h3 h4 h5 h6 h7 h8
  iterate 7 decide
  · simpa using hhex
  · simpa using Ne.symm h5

end Json

namespace CommandLine

open Json

/-! ## What is told -/

/-- What a line tells about a call. -/
structure Told where
  gas : Option UInt64 := none
  output : Option Bytes := none
  error : Option String := none
  revert : Option Bool := none
deriving DecidableEq

namespace Told

/-- A price and an output, or a price and a failure. -/
def of (price : UInt64) : Except CallError Bytes → Told
  | .ok output => { gas := some price, output := some output }
  | .error cause =>
    { gas := some price, error := some cause.message, revert := some cause.isRevert }

/-- The members of a line. -/
inductive Item where
  | gas
  | output
  | error
  | revert
deriving DecidableEq

namespace Item

/-- What a member holds. -/
def Value : Item → Type
  | gas => UInt64
  | output => Bytes
  | error => String
  | revert => Bool

/-- How the value of a member is read. -/
def read : (i : Item) → Reader i.Value
  | gas => readUInt64
  | output => hexText
  | error => quotedText
  | revert => boolean

/-- The key of a member. -/
def key : Item → String
  | gas => "gas"
  | output => "output"
  | error => "error"
  | revert => "revert"

/-- The value of a member as it is written. -/
def write : (i : Item) → i.Value → Lexemes
  | gas, price => .ofNat (UInt64.toNat price)
  | output, bs => .ofText ("0x" ++ Bytes.hex bs)
  | error, text => .ofText text
  | revert, b => .ofBool b

/-- All members, in the order of their keys. -/
def all : List Item := [error, gas, output, revert]

lemma reads_write (i : Item) (v : i.Value) : Reads i.read (i.write v) v := by
  cases i with
  | gas => exact reads_uint64 v
  | output => exact reads_hexText v
  | error => exact reads_quotedText v
  | revert => exact reads_boolean v

end Item

/-- What is told by a member. -/
def get (t : Told) : (i : Item) → Option i.Value
  | .gas => t.gas
  | .output => t.output
  | .error => t.error
  | .revert => t.revert

/-- More is told by a member. -/
def set : (i : Item) → Option i.Value → Told → Told
  | .gas, v, t => { t with gas := v }
  | .output, v, t => { t with output := v }
  | .error, v, t => { t with error := v }
  | .revert, v, t => { t with revert := v }

/-- The reader of a member that may be missing. -/
def reader (i : Item) : Reader (Option i.Value) := fun s => (i.read s).map (·.map some)

/-- An object with members that may be missing. -/
def shape : Shape Told where
  fields := Item.all.map fun i => .ofReader i.key (reader i) (set i)
  start := {}
  complete := false

/-- What a line tells. -/
def ofLine (line : String) : Except Fault Told := document shape.read line.toList

/-- What is told is what the members tell. -/
def parts : Parts shape Item fun i => Option i.Value where
  all := Item.all
  name := Item.key
  reader := reader
  part i t := t.get i
  set := set
  fields_eq := rfl
  mem_all i := by cases i <;> decide
  name_injective := by
    intro i j h
    cases i <;> cases j <;> first | rfl | exact absurd h (by decide)
  part_set_self i v t := by cases i <;> rfl
  part_set_of_ne := by
    intro i j h v t
    cases i <;> cases j <;> first | rfl | exact absurd rfl h
  ext := by
    rintro ⟨g, o, e, r⟩ ⟨g', o', e', r'⟩ h
    obtain rfl : g = g' := h .gas
    obtain rfl : o = o' := h .output
    obtain rfl : e = e' := h .error
    obtain rfl : r = r' := h .revert
    rfl

/-- The members that are there, as an object. -/
def write (t : Told) : Lexemes :=
  .object ((Item.all.filter fun i => (t.get i).isSome).map fun i =>
    (i.key, (t.get i).elim [] i.write))

/-- An object is read as what its members tell. -/
lemma reads_write (t : Told) : Reads shape.read t.write t := by
  refine parts.reads_object_of (.filter _ (by decide)) (fun i hi => ?_) fun i hi => ?_
  · obtain ⟨v, hv⟩ := Option.isSome_iff_exists.mp (List.mem_filter.mp hi).2
    have hread : Reads (reader i) (i.write v) (some v) := (i.reads_write v).map some
    change Reads (reader i) ((t.get i).elim [] i.write) (t.get i)
    rw [hv]
    exact hread
  · have hmissing : t.get i = none := by
      by_contra hsome
      exact hi (List.mem_filter.mpr ⟨parts.mem_all i, Option.isSome_iff_ne_none.mpr hsome⟩)
    refine ⟨rfl, hmissing.trans ?_⟩
    cases i <;> rfl

end Told

/-! ## The line for a call -/

/-- A line tells a price and what came of a call. -/
structure TellsOf (line : String) (price : UInt64) (result : Except CallError Bytes) : Prop where
  /-- It is a single line. -/
  single : '\n' ∉ line.toList
  /-- This is what is read in it. -/
  told : Told.ofLine line = .ok (.of price result)
  output : ∀ output, result = .ok output →
    line = s!"\x7b\"gas\":{price.toNat},\"output\":\"0x{Bytes.hex output}\"\x7d"
  /-- Characters of the message that cannot stand for themselves are spelled by escapes. -/
  failure : ∀ cause, result = .error cause → ∃ raw : String,
    Spells raw.toList cause.message.toList ∧
    ((∀ c ∈ cause.message.toList, IsPlain c) → raw = cause.message) ∧
    line = s!"\x7b\"error\":\"{raw}\",\"gas\":{price.toNat},\"revert\":{cause.isRevert}\x7d"

lemma callLine_eq (price : UInt64) (result : Except CallError Bytes) :
    callLine price result = (Told.of price result).write.compact := by
  cases result <;> rfl

lemma callLine_ok (price : UInt64) (output : Bytes) :
    callLine price (.ok output) =
      s!"\x7b\"gas\":{price.toNat},\"output\":\"0x{Bytes.hex output}\"\x7d" := by
  refine String.toList_inj.mp ?_
  simp only [callLine, Lexemes.compact, Lexemes.object, Lexemes.separated, Lexemes.member,
    Lexemes.ofNat, Lexemes.ofText, List.map_cons, List.map_nil, List.flatten_cons, List.flatten_nil,
    List.cons_append, List.nil_append, List.append_assoc, quote_hex, toList_toString_nat,
    String.toList_append, String.toList_ofList]
  rfl

lemma callLine_error (price : UInt64) {cause : CallError} {raw : String}
    (hraw : raw.toList = cause.message.toList.flatMap quoteChar) :
    callLine price (.error cause) =
      s!"\x7b\"error\":\"{raw}\",\"gas\":{price.toNat},\"revert\":{cause.isRevert}\x7d" := by
  have hbool (b : Bool) : Lexemes.ofBool b = [(toString b).toList] := by cases b <;> rfl
  have hquote : quote cause.message = '"' :: (raw.toList ++ ['"']) := by rw [quote, hraw]
  refine String.toList_inj.mp ?_
  simp only [callLine, Lexemes.compact, Lexemes.object, Lexemes.separated, Lexemes.member,
    Lexemes.ofNat, Lexemes.ofText, hbool, List.map_cons, List.map_nil, List.flatten_cons,
    List.flatten_nil, List.cons_append, List.nil_append, List.append_assoc, hquote,
    toList_toString_nat, String.toList_append, String.toList_ofList]
  rfl

/-- The line for a call is a single one. -/
lemma newline_notMem_callLine (price : UInt64) (result : Except CallError Bytes) :
    '\n' ∉ (callLine price result).toList := by
  cases result with
  | ok output =>
      rw [callLine_ok]
      simp only [String.toList_append, List.mem_append, not_or]
      exact ⟨⟨⟨⟨by decide, newline_notMem_toString_nat _⟩, by decide⟩, newline_notMem_hex _⟩,
        by decide⟩
  | error cause =>
      have hraw := String.toList_ofList (l := cause.message.toList.flatMap quoteChar)
      have hmessage : '\n' ∉ cause.message.toList.flatMap quoteChar := by
        rw [List.mem_flatMap]
        rintro ⟨c, -, hc⟩
        exact newline_notMem_quoteChar c hc
      have hbool (b : Bool) : '\n' ∉ (toString b).toList := by cases b <;> decide
      rw [callLine_error price hraw]
      rw [← hraw] at hmessage
      simp only [String.toList_append, List.mem_append, not_or]
      exact ⟨⟨⟨⟨⟨⟨by decide, hmessage⟩, by decide⟩, newline_notMem_toString_nat _⟩, by decide⟩,
        hbool _⟩, by decide⟩

/-- **The line for a call tells its price and what came of it.** -/
theorem tellsOf_callLine (price : UInt64) (result : Except CallError Bytes) :
    TellsOf (callLine price result) price result where
  single := newline_notMem_callLine price result
  told := by
    rw [callLine_eq]
    exact (Told.of price result).reads_write.yields.document (spaced_compact _) .nil
  output := by
    rintro output rfl
    exact callLine_ok price output
  failure := by
    rintro cause rfl
    have hraw := String.toList_ofList (l := cause.message.toList.flatMap quoteChar)
    refine ⟨_, ?_, fun hplain => ?_, callLine_error price hraw⟩
    · rw [hraw]
      exact spells_flatMap_quoteChar _
    · rw [flatMap_quoteChar_of_plain hplain, String.ofList_toList]

end CommandLine

end CipherCalls
