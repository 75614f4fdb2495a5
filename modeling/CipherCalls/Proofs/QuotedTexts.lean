/-
# Texts between quotes

What stands between quotes spells a text: a character stands for itself or is written by an escape,
and an escape of code units may take two halves (`Spells`).  A text between quotes is read as the
text that is spelled, however it is spelled, and the way in which texts are written is one of the
spellings.  Where a text is passed over nobody asks whether halves match, so that more may stand
between the quotes (`IsQuoted`).
-/
import Mathlib
import CipherCalls.Proofs.Layout
import CipherCalls.Stored.Ciphertext

namespace CipherCalls.Json

/-! ## What may stand between quotes -/

/-- Four digits name a code unit. -/
inductive IsUnit : List Char → Nat → Prop
  | digits {a b c d : Char} {i j k l : Nat} (ha : Bytes.hexDigit? a = some i)
      (hb : Bytes.hexDigit? b = some j) (hc : Bytes.hexDigit? c = some k)
      (hd : Bytes.hexDigit? d = some l) :
      IsUnit [a, b, c, d] (16 * (16 * (16 * i + j) + k) + l)

/-- A character that stands for itself. -/
def IsPlain (c : Char) : Prop := c ≠ '"' ∧ c ≠ '\\' ∧ ¬c.toNat < 0x20

/-- The first half of a character. -/
def IsHigh (n : Nat) : Prop := 0xD800 ≤ n ∧ n ≤ 0xDBFF

/-- The second half of a character. -/
def IsLow (n : Nat) : Prop := 0xDC00 ≤ n ∧ n ≤ 0xDFFF

/-- What follows a backslash names a character. -/
inductive Escapes : List Char → Char → Prop
  | short {e c : Char} (h : shortEscape? e = some c) : Escapes [e] c
  | unit {u : List Char} {n : Nat} (hu : IsUnit u n) (hhigh : ¬IsHigh n) (hlow : ¬IsLow n) :
      Escapes ('u' :: u) (Char.ofNat n)
  | halves {u v : List Char} {m n : Nat} (hu : IsUnit u m) (hv : IsUnit v n) (hm : IsHigh m)
      (hn : IsLow n) :
      Escapes ('u' :: (u ++ '\\' :: 'u' :: v))
        (Char.ofNat (0x10000 + (m - 0xD800) * 0x400 + (n - 0xDC00)))

/-- What stands between quotes spells a text. -/
inductive Spells : List Char → List Char → Prop
  | nil : Spells [] []
  | plain {c : Char} {raw text : List Char} (hc : IsPlain c) (h : Spells raw text) :
      Spells (c :: raw) (c :: text)
  | escape {c : Char} {e raw text : List Char} (he : Escapes e c) (h : Spells raw text) :
      Spells ('\\' :: (e ++ raw)) (c :: text)

/-- What may stand between quotes where halves need not match. -/
inductive IsQuoted : List Char → Prop
  | nil : IsQuoted []
  | plain {c : Char} {raw : List Char} (hc : IsPlain c) (h : IsQuoted raw) : IsQuoted (c :: raw)
  | short {e c : Char} {raw : List Char} (he : shortEscape? e = some c) (h : IsQuoted raw) :
      IsQuoted ('\\' :: e :: raw)
  | unit {u raw : List Char} {n : Nat} (hu : IsUnit u n) (h : IsQuoted raw) :
      IsQuoted ('\\' :: 'u' :: (u ++ raw))

/-- Something between quotes. -/
def inQuotes (raw : List Char) : List Char := '"' :: (raw ++ ['"'])

/-! ## Reading -/

section Reading

variable {u raw text s rest : List Char} {c e : Char} {n : Nat} {ls : Lexemes}

lemma codeUnit_append (hu : IsUnit u n) (s : List Char) : Gives (codeUnit (u ++ s)) n s := by
  cases hu with
  | digits ha hb hc hd =>
      simp only [List.cons_append, List.nil_append, codeUnit, ha, hb, hc, hd]
      exact ⟨_, rfl⟩

lemma ne_u_of_shortEscape? (h : shortEscape? e = some c) : e ≠ 'u' := by
  rintro rfl
  cases h

lemma lowHalf_append {v : List Char} {m : Nat} (hv : IsUnit v n) (hn : IsLow n) (s : List Char) :
    Gives (lowHalf m ('\\' :: 'u' :: (v ++ s)))
      (Char.ofNat (0x10000 + (m - 0xD800) * 0x400 + (n - 0xDC00))) s := by
  obtain ⟨h, hunit⟩ := codeUnit_append hv s
  have hlow : 0xDC00 ≤ n ∧ n ≤ 0xDFFF := hn
  simp only [lowHalf, ne_eq, not_true_eq_false, if_false, hunit, if_pos hlow, Reading.map,
    Reading.relax]
  exact ⟨_, rfl⟩

lemma escape_append {e : List Char} (he : Escapes e c) (s : List Char) :
    Gives (escape (e ++ s)) c s := by
  cases he with
  | @short e _ h =>
      simp only [List.cons_append, List.nil_append, escape, if_neg (ne_u_of_shortEscape? h), h]
      exact ⟨_, rfl⟩
  | unit hu hhigh hlow =>
      obtain ⟨h, hunit⟩ := codeUnit_append hu s
      rw [IsHigh] at hhigh
      rw [IsLow] at hlow
      simp only [List.cons_append, escape, if_true, hunit, if_neg hhigh, if_neg hlow]
      exact ⟨_, rfl⟩
  | @halves u v m n hu hv hm hn =>
      have hassoc : ('u' :: (u ++ '\\' :: 'u' :: v)) ++ s
          = 'u' :: (u ++ ('\\' :: 'u' :: (v ++ s))) := by
        simp only [List.cons_append, List.append_assoc]
      rw [hassoc]
      obtain ⟨h, hunit⟩ := codeUnit_append hu ('\\' :: 'u' :: (v ++ s))
      obtain ⟨h', hhalf⟩ := lowHalf_append hv hn s
      -- A first half is not a second one.
      have hlow : ¬(0xDC00 ≤ m ∧ m ≤ 0xDFFF) := fun h => by have := hm.2; omega
      have hhigh : 0xD800 ≤ m ∧ m ≤ 0xDBFF := hm
      simp only [escape, if_true, hunit, if_neg hlow, if_pos hhigh]
      rw [hhalf]
      simp only [Except.map, Reading.followedBy, Reading.before, Reading.relax]
      exact ⟨_, rfl⟩

/-- A text is read from any of its spellings. -/
lemma quoted_append (h : Spells raw text) (s : List Char) :
    Gives (quoted (raw ++ '"' :: s)) text s := by
  induction h with
  | nil =>
      rw [List.nil_append, quoted, if_pos rfl]
      exact ⟨_, rfl⟩
  | plain hc _ ih =>
      obtain ⟨h, hread⟩ := ih
      rw [List.cons_append, quoted, if_neg hc.1, if_neg hc.2.1, if_neg hc.2.2]
      simp only [hread]
      exact ⟨_, rfl⟩
  | @escape c e raw text he _ ih =>
      obtain ⟨h, hread⟩ := ih
      obtain ⟨h', hescape⟩ := escape_append he (raw ++ '"' :: s)
      rw [List.cons_append, List.append_assoc, quoted, if_neg (by decide), if_pos rfl]
      simp only [hescape, hread]
      exact ⟨_, rfl⟩

lemma skipEscape_short (h : shortEscape? e = some c) (s : List Char) :
    Gives (skipEscape (e :: s)) () s := by
  simp only [skipEscape, if_neg (ne_u_of_shortEscape? h), h, Option.isSome_some, if_true]
  exact ⟨_, rfl⟩

lemma skipEscape_unit (hu : IsUnit u n) (s : List Char) :
    Gives (skipEscape ('u' :: (u ++ s))) () s := by
  obtain ⟨h, hunit⟩ := codeUnit_append hu s
  simp only [skipEscape, if_true, hunit]
  exact ⟨_, rfl⟩

/-- What stands between quotes is passed over up to the closing quote. -/
lemma skipQuoted_append (h : IsQuoted raw) (s : List Char) :
    Gives (skipQuoted (raw ++ '"' :: s)) () s := by
  induction h with
  | nil =>
      rw [List.nil_append, skipQuoted, if_pos rfl]
      exact ⟨_, rfl⟩
  | plain hc _ ih =>
      obtain ⟨h, hread⟩ := ih
      rw [List.cons_append, skipQuoted, if_neg hc.1, if_neg hc.2.1, if_neg hc.2.2, hread]
      exact ⟨_, rfl⟩
  | @short e c raw he _ ih =>
      obtain ⟨h, hread⟩ := ih
      obtain ⟨h', hescape⟩ := skipEscape_short he (raw ++ '"' :: s)
      rw [List.cons_append, List.cons_append, skipQuoted, if_neg (by decide), if_pos rfl]
      simp only [hescape, hread]
      exact ⟨_, rfl⟩
  | @unit u raw n hu _ ih =>
      obtain ⟨h, hread⟩ := ih
      obtain ⟨h', hescape⟩ := skipEscape_unit hu (raw ++ '"' :: s)
      rw [List.cons_append, List.cons_append, List.append_assoc, skipQuoted, if_neg (by decide),
        if_pos rfl]
      simp only [hescape, hread]
      exact ⟨_, rfl⟩

/-- The opening quote of a text is found, and what is left is what stands behind it. -/
lemma Spaced.quote (h : Spaced (inQuotes raw :: ls) s rest) :
    ∃ m hm, Json.mark? s = some ⟨'"', raw ++ '"' :: m, hm⟩ ∧ Spaced ls m rest := by
  obtain ⟨m, hm, hmark, hls⟩ := h.mark? (by decide)
  have hassoc : raw ++ ['"'] ++ m = raw ++ '"' :: m := List.append_assoc _ _ _
  simp only [hassoc] at hmark
  exact ⟨m, hassoc ▸ hm, hmark, hls⟩

/-- A key is read from any of its spellings. -/
lemma Spaced.key (h : Spaced (inQuotes raw :: ls) s rest) (hkey : Spells raw text) :
    ∃ m, Gives (Json.key s) text m ∧ Spaced ls m rest := by
  obtain ⟨m, hm, hmark, hls⟩ := h.quote
  obtain ⟨h', hread⟩ := quoted_append hkey m
  refine ⟨m, ?_, hls⟩
  simp only [Json.key, hmark, if_true, hread]
  exact ⟨_, rfl⟩

/-- A name out of a choice is read from any of its spellings. -/
lemma reads_choice {α : Type} {choices : List (String × α)} {a : α} (hname : Spells raw text)
    (ha : choose choices text = .ok a) : Reads (choice choices) [inQuotes raw] a := by
  intro s rest hs _
  obtain ⟨m, hm, hmark, hnil⟩ := hs.quote
  cases hnil
  obtain ⟨h, hread⟩ := quoted_append hname rest
  simp only [choice, hmark, if_true, hread, ha, bind, Except.bind]
  exact ⟨_, rfl⟩

end Reading

/-! ## Writing -/

section Writing

lemma hexDigit?_digitChar : ∀ v < 16, Bytes.hexDigit? (Nat.digitChar v) = some v := by decide

/-- A code unit below 256 in four digits. -/
lemma isUnit_hexOfByte {n : Nat} (hn : n < 256) :
    IsUnit ('0' :: '0' :: Bytes.hexOfByte (UInt8.ofNat n)) n := by
  have hbyte : (UInt8.ofNat n).toNat = n := UInt8.toNat_ofNat_of_lt' hn
  have hunit := IsUnit.digits (hexDigit?_digitChar 0 (by decide))
    (hexDigit?_digitChar 0 (by decide)) (hexDigit?_digitChar (n / 16) (by omega))
    (hexDigit?_digitChar (n % 16) (by omega))
  have hvalue : 16 * (16 * (16 * 0 + 0) + n / 16) + n % 16 = n := by omega
  rw [hvalue] at hunit
  rw [Bytes.hexOfByte, hbyte]
  exact hunit

/-- What is written for a character spells it. -/
lemma Spells.quoteChar (c : Char) {raw text : List Char} (h : Spells raw text) :
    Spells (Json.quoteChar c ++ raw) (c :: text) := by
  unfold Json.quoteChar
  split_ifs with h1 h2 h3 h4 h5 h6 h7 h8
  · subst h1
    exact .escape (.short rfl) h
  · subst h2
    exact .escape (.short rfl) h
  · subst h3
    exact .escape (.short rfl) h
  · subst h4
    exact .escape (.short rfl) h
  · subst h5
    exact .escape (.short rfl) h
  · subst h6
    exact .escape (.short rfl) h
  · subst h7
    exact .escape (.short rfl) h
  · -- The code of a control character is below that of any half.
    have hunit := Escapes.unit (isUnit_hexOfByte (n := c.toNat) (by omega))
      (by rw [IsHigh]; omega) (by rw [IsLow]; omega)
    rw [Char.ofNat_toNat] at hunit
    exact .escape hunit h
  · exact .plain ⟨h1, h2, h8⟩ h

/-- A text as it is written spells itself. -/
lemma spells_flatMap_quoteChar (s : List Char) : Spells (s.flatMap quoteChar) s := by
  induction s with
  | nil => exact .nil
  | cons c s ih =>
      rw [List.flatMap_cons]
      exact .quoteChar c ih

lemma reads_width (w : Width) : Reads Width.read w.write w := by
  refine reads_choice (spells_flatMap_quoteChar w.name.toList) ?_
  cases w <;> rfl

end Writing

end CipherCalls.Json
