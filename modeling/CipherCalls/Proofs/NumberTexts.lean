/-
# Numbers in a text

A number that is written by the rules of JSON is read up to its last character, provided that what
follows does not prolong it.  In particular a natural number that fits into 64 bits is read from its
decimal digits: these do not begin with a zero that could be left out, and the number is small
enough to be a double-precision number.
-/
import Mathlib
import CipherCalls.Proofs.Layout
import CipherCalls.Stored.Ciphertext
import CipherCalls.Stored.Params

namespace CipherCalls.Json

/-! ## The form of a number -/

/-- Digits, of which there is at least one. -/
def Digits (ds : List Char) : Prop := ds ≠ [] ∧ ∀ d ∈ ds, d.isDigit = true

/-- A whole part: a zero, or digits that do not begin with a zero. -/
inductive IsWhole : List Char → Prop
  | zero : IsWhole ['0']
  | digits {d : Char} {ds : List Char} (hd : d ≠ '0') (hds : Digits (d :: ds)) : IsWhole (d :: ds)

/-- A fraction, which may be missing. -/
inductive IsFraction : List Char → Prop
  | missing : IsFraction []
  | digits {ds : List Char} (hds : Digits ds) : IsFraction ('.' :: ds)

/-- An exponent, which may be missing. -/
inductive IsExponent : List Char → Prop
  | missing : IsExponent []
  | digits {e : Char} {sign ds : List Char} (he : e = 'e' ∨ e = 'E')
      (hsign : sign = [] ∨ sign = ['+'] ∨ sign = ['-']) (hds : Digits ds) :
      IsExponent (e :: (sign ++ ds))

/-- A number as JSON has it. -/
inductive IsNumber : List Char → Prop
  | parts {sign w f e : List Char} (hsign : sign = [] ∨ sign = ['-']) (hw : IsWhole w)
      (hf : IsFraction f) (he : IsExponent e) : IsNumber (sign ++ (w ++ (f ++ e)))

/-! ## Reading the parts -/

section Parts

variable {ds w f e s : List Char} (early : Fault)

/-- A text does not begin with a digit. -/
def NoDigit (s : List Char) : Prop := ∀ c ∈ s.head?, c.isDigit = false

lemma not_isDigit_of_not_prolongs {c : Char} (h : prolongs c = false) : c.isDigit = false := by
  simp only [prolongs, Bool.or_eq_false_iff] at h
  exact h.1.1.1

lemma Stops.noDigit (h : Stops s) : NoDigit s :=
  fun c hc => not_isDigit_of_not_prolongs (h c hc)

/-- Digits are read as far as they go. -/
lemma digits_append (hds : ∀ d ∈ ds, d.isDigit = true) (hs : NoDigit s) :
    ∃ h, digits (ds ++ s) = ⟨ds, s, h⟩ := by
  have htake : s.takeWhile Char.isDigit = [] := by
    cases s with
    | nil => rfl
    | cons c s => rw [List.takeWhile_cons, hs c rfl, if_neg (by decide)]
  have hdrop : s.dropWhile Char.isDigit = s := by
    cases s with
    | nil => rfl
    | cons c s => rw [List.dropWhile_cons, hs c rfl, if_neg (by decide)]
  have hvalue : (ds ++ s).takeWhile Char.isDigit = ds := by
    rw [List.takeWhile_append_of_pos hds, htake, List.append_nil]
  have hrest : (ds ++ s).dropWhile Char.isDigit = s := by
    rw [List.dropWhile_append_of_pos hds, hdrop]
  refine ⟨by rw [List.length_append]; omega, ?_⟩
  simp only [digits, hvalue, hrest]

lemma someDigits_append (hds : Digits ds) (hs : NoDigit s) :
    Gives (someDigits early (ds ++ s)) ds s := by
  obtain ⟨h, hdigits⟩ := digits_append hds.2 hs
  refine ⟨h, ?_⟩
  simp only [someDigits, hdigits, if_neg hds.1]

lemma wholePart_append (hw : IsWhole w) (hs : NoDigit s) :
    Gives (wholePart early (w ++ s)) w s := by
  cases hw with
  | zero =>
      cases s with
      | nil => exact ⟨_, rfl⟩
      | cons c s =>
          have hc := hs c rfl
          simp only [List.cons_append, List.nil_append, wholePart, if_true, hc]
          exact ⟨_, rfl⟩
  | @digits d ds hd hds =>
      obtain ⟨hdigit, htail⟩ := List.forall_mem_cons.mp hds.2
      obtain ⟨h, hdigits⟩ := digits_append htail hs
      simp only [List.cons_append, wholePart, if_neg hd, if_pos hdigit, hdigits]
      exact ⟨_, rfl⟩

lemma fraction_append (hf : IsFraction f) (hs : NoDigit s) (hdot : ∀ c ∈ s.head?, c ≠ '.') :
    ∃ ds, Gives (fraction early (f ++ s)) ds s ∧ (f = [] → ds = []) := by
  cases hf with
  | missing =>
      refine ⟨[], ?_, fun _ => rfl⟩
      cases s with
      | nil => exact ⟨_, rfl⟩
      | cons c s =>
          rw [List.nil_append, fraction, if_neg (hdot c rfl)]
          exact ⟨_, rfl⟩
  | @digits ds hds =>
      refine ⟨ds, ?_, fun h => absurd h (List.cons_ne_nil _ _)⟩
      obtain ⟨h, hdigits⟩ := someDigits_append early hds hs
      rw [List.cons_append, fraction, if_pos rfl, hdigits]
      exact ⟨_, rfl⟩

/-- A sign is read if there is one. -/
lemma sign_append {sign : List Char} (hsign : sign = [] ∨ sign = ['+'] ∨ sign = ['-'])
    (hds : Digits ds) (s : List Char) :
    ∃ minus h, Json.sign (sign ++ (ds ++ s)) = ⟨minus, ds ++ s, h⟩ := by
  obtain rfl | rfl | rfl := hsign
  · -- Digits do not begin with a sign.
    obtain ⟨hne, hdigits⟩ := hds
    cases ds with
    | nil => exact absurd rfl hne
    | cons d ds =>
        have hd := hdigits d List.mem_cons_self
        have hsign : ¬(d = '+' ∨ d = '-') := by
          rintro (rfl | rfl) <;> cases hd
        simp only [List.nil_append, List.cons_append, Json.sign, if_neg hsign]
        exact ⟨false, Nat.lt_succ_self _, rfl⟩
  · exact ⟨_, _, rfl⟩
  · exact ⟨_, _, rfl⟩

lemma exponent_append (he : IsExponent e) (hs : Stops s) :
    ∃ power, Gives (exponent early (e ++ s)) power s ∧ (e = [] → power = none) := by
  cases he with
  | missing =>
      refine ⟨none, ?_, fun _ => rfl⟩
      cases s with
      | nil => exact ⟨_, rfl⟩
      | cons c s =>
          have hc := hs c rfl
          have hexp : ¬(c = 'e' ∨ c = 'E') := by
            rintro (rfl | rfl) <;> cases hc
          rw [List.nil_append, exponent, if_neg hexp]
          exact ⟨_, rfl⟩
  | @digits e sign ds he hsign hds =>
      obtain ⟨minus, hlt, hread⟩ := sign_append hsign hds s
      obtain ⟨h, hdigits⟩ := someDigits_append early hds hs.noDigit
      rw [List.cons_append, List.append_assoc, exponent, if_pos he, hread]
      simp only [hdigits]
      exact ⟨_, ⟨_, rfl⟩, fun h => absurd h (List.cons_ne_nil _ _)⟩

/-- A text does not begin with a point. -/
lemma noPoint_exponent (he : IsExponent e) (hs : Stops s) : ∀ c ∈ (e ++ s).head?, c ≠ '.' := by
  intro c hc
  cases he with
  | missing =>
      have hstop := hs c hc
      rintro rfl
      cases hstop
  | digits he =>
      obtain rfl := Option.some.inj hc
      obtain rfl | rfl := he <;> decide

lemma noDigit_exponent (he : IsExponent e) (hs : Stops s) : NoDigit (e ++ s) := by
  cases he with
  | missing => exact hs.noDigit
  | digits he =>
      intro c hc
      obtain rfl := Option.some.inj hc
      obtain rfl | rfl := he <;> rfl

lemma noDigit_fraction (hf : IsFraction f) (hs : NoDigit s) : NoDigit (f ++ s) := by
  cases hf with
  | missing => exact hs
  | digits =>
      intro c hc
      obtain rfl := Option.some.inj hc
      rfl

/-- What is read of a number: its sign, the digits of its whole part, and whether it has a fraction
or an exponent. -/
lemma unsigned_append (negative : Bool) (hw : IsWhole w) (hf : IsFraction f) (he : IsExponent e)
    (hs : Stops s) :
    ∃ t : NumberText, Gives (unsigned early negative (w ++ (f ++ (e ++ s)))) t s ∧
      t.negative = negative ∧ t.whole = w ∧ (f = [] → t.fraction = []) ∧
        (e = [] → t.exponent = none) := by
  have hexp := noDigit_exponent he hs
  obtain ⟨_, hwhole⟩ := wholePart_append early hw (noDigit_fraction hf hexp)
  obtain ⟨ds, ⟨_, hfraction⟩, hds⟩ :=
    fraction_append early hf hexp (noPoint_exponent he hs)
  obtain ⟨power, ⟨_, hexponent⟩, hpower⟩ := exponent_append early he hs
  refine ⟨⟨negative, w, ds, power⟩, ?_, rfl, rfl, hds, hpower⟩
  simp only [unsigned, hwhole, bind, Except.bind, hfraction, hexponent]
  exact ⟨_, rfl⟩

/-- The first character of an unsigned number is a digit. -/
lemma IsWhole.head (hw : IsWhole w) : ∃ d ds, w = d :: ds ∧ d.isDigit = true := by
  cases hw with
  | zero => exact ⟨'0', [], rfl, rfl⟩
  | @digits d ds hd hds => exact ⟨d, ds, rfl, hds.2 d List.mem_cons_self⟩

lemma ne_minus_of_isDigit {d : Char} (h : d.isDigit = true) : d ≠ '-' := by
  rintro rfl
  cases h

lemma number_of_unsigned (hw : IsWhole w) :
    number early (w ++ s) = unsigned early false (w ++ s) := by
  obtain ⟨d, ds, rfl, hd⟩ := hw.head
  rw [List.cons_append, number, if_neg (ne_minus_of_isDigit hd)]

/-- A number is read up to its last character. -/
lemma number_append {n : List Char} (hn : IsNumber n) (hs : Stops s) :
    ∃ t, Gives (number early (n ++ s)) t s := by
  cases hn with
  | @parts sign w f e hsign hw hf he =>
      have hassoc : sign ++ (w ++ (f ++ e)) ++ s = sign ++ (w ++ (f ++ (e ++ s))) := by
        simp only [List.append_assoc]
      rw [hassoc]
      obtain rfl | rfl := hsign
      · obtain ⟨t, ⟨h, ht⟩, -⟩ := unsigned_append early false hw hf he hs
        rw [List.nil_append, number_of_unsigned early hw]
        exact ⟨t, h, ht⟩
      · obtain ⟨t, ⟨h, ht⟩, -⟩ := unsigned_append early true hw hf he hs
        refine ⟨t, ?_⟩
        rw [List.cons_append, List.nil_append, number, if_pos rfl, ht]
        exact ⟨_, rfl⟩

end Parts

/-! ## Natural numbers -/

section Naturals

variable {n : Nat} {s : List Char}

lemma digitsValue_toDigits (n : Nat) : digitsValue (Nat.toDigits 10 n) = n :=
  Nat.ofDigitChars_ten_toDigits

lemma digits_toDigits (n : Nat) : Digits (Nat.toDigits 10 n) :=
  ⟨Nat.toDigits_ne_nil, fun _ hd => Nat.isDigit_of_mem_toDigits (by decide) le_rfl hd⟩

/-- The decimal digits of a positive number do not begin with a zero. -/
lemma head_toDigits_ne_zero (hn : 0 < n) : ∀ d ∈ (Nat.toDigits 10 n).head?, d ≠ '0' := by
  induction n using Nat.strong_induction_on with
  | _ n ih =>
      rcases Nat.lt_or_ge n 10 with hlt | hge
      · rw [Nat.toDigits_of_lt_base hlt]
        rintro d ⟨⟩
        interval_cases n <;> decide
      · have hhead : (Nat.toDigits 10 n).head? = (Nat.toDigits 10 (n / 10)).head? := by
          rw [Nat.toDigits_of_base_le (by decide) hge,
            List.head?_append_of_ne_nil _ Nat.toDigits_ne_nil]
        rw [hhead]
        exact ih (n / 10) (by omega) (by omega)

lemma isWhole_toDigits (n : Nat) : IsWhole (Nat.toDigits 10 n) := by
  rcases Nat.eq_zero_or_pos n with rfl | hpos
  · exact .zero
  · have hdigits := digits_toDigits n
    have hhead := head_toDigits_ne_zero hpos
    cases h : Nat.toDigits 10 n with
    | nil => exact absurd h Nat.toDigits_ne_nil
    | cons d ds =>
        rw [h] at hdigits hhead
        exact .digits (hhead d rfl) hdigits

/-- Digits are appended to a number. -/
def digitsFrom (m : Nat) (ds : List Char) : Nat :=
  ds.foldl (fun n d => 10 * n + (d.toNat - '0'.toNat)) m

lemma le_digitsFrom (m : Nat) (ds : List Char) : m ≤ digitsFrom m ds := by
  induction ds generalizing m with
  | nil => exact le_rfl
  | cons d ds ih =>
      have hstep : m ≤ 10 * m + (d.toNat - '0'.toNat) := by omega
      exact hstep.trans (ih _)

/-- Digits of a number that fits into 64 bits are all appended. -/
lemma appendDigits_eq (m : Nat) (ds : List Char) (h : digitsFrom m ds < UInt64.size) :
    appendDigits m ds = (digitsFrom m ds, 0) := by
  induction ds generalizing m with
  | nil => rfl
  | cons d ds ih =>
      -- Numbers only grow while digits are appended, so the next one fits as well.
      have hnext : 10 * m + (d.toNat - '0'.toNat) < UInt64.size := (le_digitsFrom _ ds).trans_lt h
      rw [appendDigits, if_pos hnext, ih _ h]
      rfl

/-- Rounding to 53 bits at most doubles a number. -/
lemma roundToDouble_le (n : Nat) : roundToDouble n ≤ 2 * n := by
  rcases Nat.eq_zero_or_pos n with rfl | hpos
  · decide
  · have hunit : 1 <<< (n.log2 - 52) ≤ n := by
      rw [Nat.one_shiftLeft]
      exact (Nat.pow_le_pow_right (by decide) (Nat.sub_le _ _)).trans
        (Nat.log2_self_le hpos.ne')
    have hlow : n / (1 <<< (n.log2 - 52)) * (1 <<< (n.log2 - 52)) ≤ n := Nat.div_mul_le_self _ _
    simp only [roundToDouble]
    split
    · rw [Nat.add_mul]
      omega
    · omega

/-- A number that fits into 64 bits is a double-precision number. -/
lemma tooLarge_of_lt {t : NumberText} (hw : t.whole = Nat.toDigits 10 n) (hf : t.fraction = [])
    (he : t.exponent = none) (hn : n < UInt64.size) : t.tooLarge = false := by
  have hvalue : appendDigits 0 (Nat.toDigits 10 n) = (n, 0) := by
    have hdigits : digitsFrom 0 (Nat.toDigits 10 n) = n := digitsValue_toDigits n
    rw [appendDigits_eq 0 _ (by rwa [hdigits]), hdigits]
  -- Two roundings make the number at most four times as large.
  have hbound : ¬1 <<< 1024 ≤ roundToDouble (roundToDouble n * roundToDouble 1) := by
    have hone : roundToDouble 1 = 1 := by decide
    have hsize : 4 * UInt64.size ≤ 1 <<< 1024 := by decide
    rw [hone, Nat.mul_one]
    have hinner := roundToDouble_le n
    have houter := roundToDouble_le (roundToDouble n)
    omega
  simp only [NumberText.tooLarge, hw, hf, he, hvalue, appendDigits]
  show (decide (n ≠ 0) && true &&
    (false || decide (1 <<< 1024 ≤ roundToDouble (roundToDouble n * roundToDouble 1)))) = false
  rw [decide_eq_false hbound, Bool.or_false, Bool.and_false]

/-- A natural number is read from its decimal digits. -/
lemma boundedNumber_toDigits (hn : n < UInt64.size) (hs : Stops s) :
    ∃ t : NumberText, Gives (boundedNumber (Nat.toDigits 10 n ++ s)) t s ∧ t.natural? = some n := by
  obtain ⟨t, hread, hneg, hwhole, hf, he⟩ :=
    unsigned_append .truncated false (isWhole_toDigits n) .missing .missing hs
  have hlarge : t.tooLarge = false := tooLarge_of_lt hwhole (hf rfl) (he rfl) hn
  rw [List.nil_append, List.nil_append, ← number_of_unsigned _ (isWhole_toDigits n)] at hread
  obtain ⟨h, hread⟩ := hread
  refine ⟨t, ⟨h, ?_⟩, ?_⟩
  · simp only [boundedNumber, hread, hlarge]
    rfl
  · simp only [NumberText.natural?, hneg, hwhole, hf rfl, he rfl, digitsValue_toDigits, and_self,
      if_true]

lemma isBlank_of_isDigit {d : Char} (h : d.isDigit = true) : isBlank d = false := by
  by_contra hblank
  have hstops := prolongs_of_isBlank (eq_true_of_ne_false hblank)
  rw [not_isDigit_of_not_prolongs hstops] at h
  cases h

/-- A natural number below a bound is read from its decimal digits. -/
lemma reads_natural {bound : Nat} (hn : n < bound) (hbound : bound ≤ UInt64.size) :
    Reads (natural bound) (.ofNat n) n := by
  intro s rest hs hrest
  obtain ⟨d, ds, hds, hd⟩ := (isWhole_toDigits n).head
  obtain ⟨t, hread, hvalue⟩ := boundedNumber_toDigits (hn.trans_le hbound) hrest
  rw [Lexemes.ofNat, hds] at hs
  obtain ⟨m, hm, hmark, hnil⟩ := hs.mark? (isBlank_of_isDigit hd)
  cases hnil
  rw [hds] at hread
  obtain ⟨ht, hread⟩ := hread
  have hfirst : d = '-' ∨ d.isDigit = true := .inr hd
  simp only [List.cons_append] at hread
  simp only [natural, hmark, if_pos hfirst, hread, hvalue, if_pos hn]
  exact ⟨_, rfl⟩

lemma reads_uint64 (v : UInt64) : Reads readUInt64 (writeUInt64 v) v := by
  have h : Reads readUInt64 (writeUInt64 v) (UInt64.ofNat v.toNat) :=
    (reads_natural v.toNat_lt le_rfl).map UInt64.ofNat
  rwa [UInt64.ofNat_toNat] at h

lemma reads_byte (b : UInt8) : Reads readByte (.ofNat b.toNat) b := by
  have h : Reads readByte (.ofNat b.toNat) (UInt8.ofNat b.toNat) :=
    (reads_natural b.toNat_lt (by decide)).map UInt8.ofNat
  rwa [UInt8.ofNat_toNat] at h

end Naturals

end CipherCalls.Json
