/-
# Calls as they are written

On the command line a call is a text: the mark `0x`, any number of times, and then the hexadecimal
digits of the input, in either case.  A text stands for an input if, without the marks and in lower
case, it is what the input looks like in hexadecimal (`CommandLine.Denotes`).  Reading a text gives
the input that it stands for, and a text stands for an input unless its digits are odd in number or
one of them is none (`CommandLine.IsHexCall`).
-/
import Mathlib
import CipherCalls.CommandLine.Report

namespace CipherCalls

namespace Bytes

/-! ## Digits -/

/-- The hexadecimal digits of either case. -/
def hexDigits : List Char :=
  ['0', '1', '2', '3', '4', '5', '6', '7', '8', '9', 'a', 'b', 'c', 'd', 'e', 'f', 'A', 'B', 'C',
    'D', 'E', 'F']

section Digits

variable {c : Char} {v : Nat}

/-- The digits by their codes. -/
lemma mem_hexDigits_iff :
    c ∈ hexDigits ↔ 48 ≤ c.toNat ∧ c.toNat ≤ 57 ∨ 97 ≤ c.toNat ∧ c.toNat ≤ 102 ∨
      65 ≤ c.toNat ∧ c.toNat ≤ 70 := by
  constructor
  · intro h
    fin_cases h <;> decide
  · -- Among the codes, the digits are a finite list that arithmetic can search.
    intro h
    have hcode : c.toNat ∈ hexDigits.map Char.toNat := by
      simp only [hexDigits, List.map_cons, List.map_nil, List.mem_cons, List.not_mem_nil, or_false,
        Char.reduceToNat]
      omega
    obtain ⟨d, hd, hcode⟩ := List.mem_map.mp hcode
    rwa [← Char.toNat_inj.mp hcode]

lemma toNat_toLower :
    c.toLower.toNat = if 65 ≤ c.toNat ∧ c.toNat ≤ 90 then c.toNat + 32 else c.toNat := by
  have hupper : (65 ≤ c.toNat ∧ c.toNat ≤ 90) ↔ (c.val ≥ 'A'.val ∧ c.val ≤ 'Z'.val) := by
    simp only [ge_iff_le, UInt32.le_iff_toNat_le]
    rfl
  rw [Char.toLower]
  split
  · rename_i h
    have hbound := hupper.mpr h
    rw [if_pos hbound]
    change (c.val + 32).toNat = c.toNat + 32
    rw [UInt32.toNat_add]
    change (c.toNat + 32) % 2 ^ 32 = c.toNat + 32
    omega
  · rename_i h
    rw [if_neg (hupper.not.mpr h)]

/-- What is a digit in lower case is a digit. -/
lemma mem_hexDigits_of_toLower (h : c.toLower ∈ hexDigits) : c ∈ hexDigits := by
  rw [mem_hexDigits_iff, toNat_toLower] at h
  rw [mem_hexDigits_iff]
  split at h <;> omega

lemma mem_hexDigits_of_hexDigit? (h : hexDigit? c = some v) : c ∈ hexDigits := by
  rw [mem_hexDigits_iff]
  rw [hexDigit?] at h
  simp only [Char.le_def, UInt32.le_iff_toNat_le] at h
  change (if 48 ≤ c.toNat ∧ c.toNat ≤ 57 then _ else if 97 ≤ c.toNat ∧ c.toNat ≤ 102 then _ else
    if 65 ≤ c.toNat ∧ c.toNat ≤ 70 then _ else none) = some v at h
  by_contra hout
  rw [if_neg (fun hin => hout (.inl hin)), if_neg (fun hin => hout (.inr (.inl hin))),
    if_neg (fun hin => hout (.inr (.inr hin)))] at h
  cases h

lemma exists_hexDigit? (h : c ∈ hexDigits) :
    ∃ v < 16, hexDigit? c = some v ∧ c.toLower = Nat.digitChar v := by
  fin_cases h <;> exact ⟨_, by decide, rfl, rfl⟩

lemma digitChar_mem_hexDigits : ∀ v < 16, Nat.digitChar v ∈ hexDigits := by
  decide

lemma digitChar_injective :
    ∀ v < 16, ∀ w < 16, Nat.digitChar v = Nat.digitChar w → v = w := by
  decide

/-- A digit has a value if, in lower case, it is how the value is written. -/
lemma hexDigit?_eq_some_iff : hexDigit? c = some v ↔ v < 16 ∧ c.toLower = Nat.digitChar v := by
  constructor
  · intro h
    obtain ⟨w, hw, hdigit, hlower⟩ := exists_hexDigit? (mem_hexDigits_of_hexDigit? h)
    obtain rfl := Option.some.inj (hdigit.symm.trans h)
    exact ⟨hw, hlower⟩
  · rintro ⟨hv, h⟩
    have hmem : c ∈ hexDigits :=
      mem_hexDigits_of_toLower (h.symm ▸ digitChar_mem_hexDigits v hv)
    obtain ⟨w, hw, hdigit, hlower⟩ := exists_hexDigit? hmem
    rw [hdigit, digitChar_injective w hw v hv (hlower.symm.trans h)]

end Digits

/-! ## Texts of digits -/

section Texts

variable {c d : Char} {ds : List Char} {b : UInt8} {bs : Bytes}

/-- Two digits and the rest are read apart. -/
lemma ofHex?_cons_cons_eq_some_iff :
    ofHex? (c :: d :: ds) = some (b :: bs) ↔
      hexDigit? c = some (b.toNat / 16) ∧ hexDigit? d = some (b.toNat % 16) ∧
        ofHex? ds = some bs := by
  have hbyte := b.toNat_lt
  constructor
  · intro h
    rw [ofHex?] at h
    split at h
    · rename_i hi lo rest hhi hlo hrest
      obtain ⟨rfl, rfl⟩ := List.cons.inj (Option.some.inj h)
      have hhi' := (hexDigit?_eq_some_iff.mp hhi).1
      have hlo' := (hexDigit?_eq_some_iff.mp hlo).1
      have hvalue : (UInt8.ofNat (16 * hi + lo)).toNat = 16 * hi + lo := by
        rw [UInt8.toNat_ofNat']
        omega
      rw [hvalue, hhi, hlo]
      exact ⟨congrArg some (by omega), congrArg some (by omega), hrest⟩
    · cases h
  · rintro ⟨hhi, hlo, hrest⟩
    have hvalue : UInt8.ofNat (16 * (b.toNat / 16) + b.toNat % 16) = b := by
      rw [Nat.div_add_mod, UInt8.ofNat_toNat]
    simp only [ofHex?, hhi, hlo, hrest, hvalue]

lemma ofHex?_cons_cons_ne_nil : ofHex? (c :: d :: ds) ≠ some [] := by
  rw [ofHex?]
  split <;> simp

/-- A text is read as the bytes that it is the hexadecimal form of, up to the case of its digits. -/
theorem ofHex?_eq_some_iff :
    ofHex? ds = some bs ↔ ds.map Char.toLower = (hex bs).toList := by
  rw [hex, String.toList_ofList]
  induction ds using List.twoStepInduction generalizing bs with
  | nil => cases bs <;> simp [ofHex?, hexOfByte]
  | singleton c => cases bs <;> simp [ofHex?, hexOfByte]
  | cons_cons c d ds ih _ =>
      cases bs with
      | nil => simp [ofHex?_cons_cons_ne_nil]
      | cons b bs =>
          have hbyte := b.toNat_lt
          have hhi : b.toNat / 16 < 16 := by omega
          have hlo : b.toNat % 16 < 16 := by omega
          rw [ofHex?_cons_cons_eq_some_iff, hexDigit?_eq_some_iff, hexDigit?_eq_some_iff, ih]
          simp only [hhi, hlo, true_and, List.map_cons, List.flatMap_cons, hexOfByte,
            List.cons_append, List.nil_append, List.cons.injEq]

lemma exists_ofHex?_cons_cons_iff :
    (∃ bs, ofHex? (c :: d :: ds) = some bs) ↔
      c ∈ hexDigits ∧ d ∈ hexDigits ∧ ∃ bs, ofHex? ds = some bs := by
  constructor
  · rintro ⟨bs, h⟩
    cases bs with
    | nil => exact absurd h ofHex?_cons_cons_ne_nil
    | cons b bs =>
        obtain ⟨hc, hd, hrest⟩ := ofHex?_cons_cons_eq_some_iff.mp h
        exact ⟨mem_hexDigits_of_hexDigit? hc, mem_hexDigits_of_hexDigit? hd, bs, hrest⟩
  · rintro ⟨hc, hd, bs, hrest⟩
    obtain ⟨hi, -, hhi, -⟩ := exists_hexDigit? hc
    obtain ⟨lo, -, hlo, -⟩ := exists_hexDigit? hd
    exact ⟨UInt8.ofNat (16 * hi + lo) :: bs, by simp only [ofHex?, hhi, hlo, hrest]⟩

/-- A text is read if its characters are digits and even in number. -/
theorem exists_ofHex?_iff :
    (∃ bs, ofHex? ds = some bs) ↔ Even ds.length ∧ ∀ c ∈ ds, c ∈ hexDigits := by
  induction ds using List.twoStepInduction with
  | nil => simp [ofHex?]
  | singleton c => simp [ofHex?]
  | cons_cons c d ds ih _ =>
      rw [exists_ofHex?_cons_cons_iff, ih]
      simp only [List.length_cons, Nat.even_add_one, not_not, List.forall_mem_cons]
      tauto

end Texts

end Bytes

namespace CommandLine

/-! ## Marks -/

section Marks

variable {s digits : List Char}

/-- The mark `0x`, so and so many times. -/
def marks (n : Nat) : List Char := (List.replicate n ['0', 'x']).flatten

lemma marks_succ_append (n : Nat) (s : List Char) :
    marks (n + 1) ++ s = '0' :: 'x' :: (marks n ++ s) := rfl

lemma stripMarks_marks (n : Nat) (s : List Char) : stripMarks (marks n ++ s) = stripMarks s := by
  induction n with
  | zero => rfl
  | succ n ih =>
      rw [marks_succ_append, stripMarks]
      exact ih

/-- A text is marks, and what is left without them. -/
lemma exists_marks (s : List Char) : ∃ n, s = marks n ++ stripMarks s := by
  fun_induction stripMarks s with
  | case1 s ih =>
      obtain ⟨n, hn⟩ := ih
      exact ⟨n + 1, by rw [marks_succ_append, ← hn]⟩
  | case2 s hs => exact ⟨0, rfl⟩

/-- There is no mark among digits. -/
lemma stripMarks_of_digits (h : ∀ c ∈ digits, c ∈ Bytes.hexDigits) :
    stripMarks digits = digits := by
  rw [stripMarks.eq_def]
  split
  · exact absurd (h 'x' (by simp)) (by decide)
  · rfl

lemma digits_of_map_toLower {input : Bytes}
    (h : digits.map Char.toLower = (Bytes.hex input).toList) : ∀ c ∈ digits, c ∈ Bytes.hexDigits :=
  (Bytes.exists_ofHex?_iff.mp ⟨input, Bytes.ofHex?_eq_some_iff.mpr h⟩).2

end Marks

/-! ## Calls -/

/-- A call stands for an input if without marks, and up to the case of its digits, it is the
hexadecimal form of the input. -/
def Denotes (call : String) (input : Bytes) : Prop :=
  ∃ n digits, call.toList = marks n ++ digits ∧ digits.map Char.toLower = (Bytes.hex input).toList

/-- A call consists of marks and an even number of hexadecimal digits. -/
def IsHexCall (call : String) : Prop :=
  ∃ n digits, call.toList = marks n ++ digits ∧ Even digits.length ∧
    ∀ c ∈ digits, c ∈ Bytes.hexDigits

section Calls

variable {call : String} {input : Bytes}

/-- A call is read as the input it stands for. -/
theorem decodeCall?_eq_some_iff : decodeCall? call = some input ↔ Denotes call input := by
  rw [decodeCall?]
  constructor
  · intro h
    obtain ⟨n, hn⟩ := exists_marks call.toList
    exact ⟨n, _, hn, Bytes.ofHex?_eq_some_iff.mp h⟩
  · rintro ⟨n, digits, hcall, hdigits⟩
    rw [hcall, stripMarks_marks, stripMarks_of_digits (digits_of_map_toLower hdigits)]
    exact Bytes.ofHex?_eq_some_iff.mpr hdigits

/-- A call stands for an input if it is made of marks and an even number of digits. -/
theorem exists_denotes_iff : (∃ input, Denotes call input) ↔ IsHexCall call := by
  simp only [← decodeCall?_eq_some_iff, decodeCall?]
  constructor
  · intro h
    obtain ⟨n, hn⟩ := exists_marks call.toList
    exact ⟨n, _, hn, Bytes.exists_ofHex?_iff.mp h⟩
  · rintro ⟨n, digits, hcall, heven, hdigits⟩
    rw [hcall, stripMarks_marks, stripMarks_of_digits hdigits]
    exact Bytes.exists_ofHex?_iff.mpr ⟨heven, hdigits⟩

lemma decodeCall?_eq_none_iff : decodeCall? call = none ↔ ¬IsHexCall call := by
  rw [← exists_denotes_iff, Option.eq_none_iff_forall_ne_some]
  simp only [ne_eq, decodeCall?_eq_some_iff, not_exists]

/-- One more mark in front of a call makes no difference. -/
lemma decodeCall?_mark (call : String) : decodeCall? ("0x" ++ call) = decodeCall? call := by
  rw [decodeCall?, String.toList_append]
  rfl

end Calls

end CommandLine

end CipherCalls
