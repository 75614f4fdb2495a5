/-
# Lists in a text

The elements of a list are read one after the other, with commas between them, until the closing
bracket is found.  Hence a list is read from the elements as they are written: one of any length
(`reads_list`), and one of the wanted length (`reads_exactList`).  That an element begins with
something other than a closing bracket is known of all values.
-/
import Mathlib
import CipherCalls.Proofs.SkippedValues

namespace CipherCalls.Json

section

variable {α : Type} {r : Reader α} {write : α → Lexemes} {xs : List α} {p : Lexemes}
  {ps : List Lexemes} {tail : Lexemes} {s rest : List Char} {first : Bool}

/-- A list ends at its closing bracket. -/
lemma goesOn_close (first : Bool) (hs : Spaced [[']']] s rest) :
    Gives (goesOn first s) false rest := by
  obtain ⟨m, hm, hmark, hnil⟩ := hs.single (by decide)
  cases hnil
  simp only [goesOn, hmark, if_true]
  exact ⟨_, rfl⟩

/-- A list goes on up to the next element. -/
lemma goesOn_lead (hp : IsValue p) (hs : Spaced (Lexemes.lead first (p :: ps) ++ tail) s rest) :
    ∃ m, Gives (goesOn first s) true m ∧
      Spaced (p ++ (Lexemes.lead false ps ++ tail)) m rest := by
  cases first with
  | true =>
      rw [Lexemes.lead, List.append_assoc] at hs
      obtain ⟨m, hm, -⟩ := spaced_append.mp hs
      obtain ⟨c, k, hk, hmark, hc, -⟩ := hp.mark? hm
      refine ⟨s, ?_, hs⟩
      simp only [goesOn, hmark, if_neg hc, if_true]
      exact ⟨_, rfl⟩
  | false =>
      have hcomma : (',' : Char) ≠ ']' := by decide
      rw [Lexemes.lead, List.cons_append, List.append_assoc] at hs
      obtain ⟨m, hm, hmark, hs⟩ := hs.single (by decide)
      obtain ⟨n, hn, -⟩ := spaced_append.mp hs
      obtain ⟨c, k, hk, hmark', hc, -⟩ := hp.mark? hn
      refine ⟨m, ?_, hs⟩
      simp only [goesOn, hmark, if_neg hcomma, if_true, hmark', if_neg hc]
      exact ⟨_, rfl⟩

/-- The elements of a list are read up to the closing bracket. -/
lemma elements_lead (hvalue : ∀ x, IsValue (write x)) (hread : ∀ x, Reads r (write x) x)
    (hs : Spaced (Lexemes.lead first (xs.map write) ++ [[']']]) s rest) :
    Gives (elements r first s) xs rest := by
  induction xs generalizing first s with
  | nil =>
      rw [List.map_nil, Lexemes.lead, List.nil_append] at hs
      obtain ⟨h, hgoes⟩ := goesOn_close first hs
      rw [elements]
      simp only [hgoes]
      exact ⟨_, rfl⟩
  | cons x xs ih =>
      obtain ⟨m, ⟨hm, hgoes⟩, hs⟩ := goesOn_lead (hvalue x) hs
      obtain ⟨n, hx, hs⟩ := spaced_append.mp hs
      obtain ⟨hn, helement⟩ := hread x m n hx (hs.stops_lead (by decide))
      obtain ⟨hrest, helements⟩ := ih hs
      rw [elements]
      simp only [hgoes, if_true, helement, helements]
      exact ⟨_, rfl⟩

/-- As many elements as are wanted are read, and the closing bracket behind them. -/
lemma exactElements_lead (hvalue : ∀ x, IsValue (write x)) (hread : ∀ x, Reads r (write x) x)
    (hs : Spaced (Lexemes.lead first (xs.map write) ++ [[']']]) s rest) :
    Gives (exactElements r xs.length first s) xs rest := by
  induction xs generalizing first s with
  | nil =>
      rw [List.map_nil, Lexemes.lead, List.nil_append] at hs
      obtain ⟨m, ⟨hm, hclose⟩, hnil⟩ := hs.expect (by decide)
      cases hnil
      simp only [List.length_nil, exactElements, hclose]
      exact ⟨_, rfl⟩
  | cons x xs ih =>
      obtain ⟨m, ⟨hm, hgoes⟩, hs⟩ := goesOn_lead (hvalue x) hs
      obtain ⟨n, hx, hs⟩ := spaced_append.mp hs
      obtain ⟨hn, helement⟩ := hread x m n hx (hs.stops_lead (by decide))
      obtain ⟨hrest, helements⟩ := ih hs
      simp only [List.length_cons, exactElements, hgoes, if_true, helement, helements]
      exact ⟨_, rfl⟩

lemma reads_bracketed {a : α}
    {inside : (s : List Char) → Except Fault (Reading α (s.length + 1))}
    (h : ∀ s, Spaced (Lexemes.separated ps ++ [[']']]) s rest → Gives (inside s) a rest)
    (hs : Spaced (Lexemes.list ps) s rest) : Gives (bracketed inside s) a rest := by
  obtain ⟨m, hm, hmark, hs⟩ := hs.single (by decide)
  obtain ⟨hrest, hinside⟩ := h m hs
  simp only [bracketed, hmark, if_true, hinside]
  exact ⟨_, rfl⟩

/-- A list of any length is read from its elements. -/
lemma reads_list (hvalue : ∀ x, IsValue (write x)) (hread : ∀ x, Reads r (write x) x)
    (xs : List α) : Reads (list r) (.list (xs.map write)) xs := by
  intro s rest hs _
  refine reads_bracketed (fun m hm => ?_) hs
  rw [Lexemes.separated_eq_lead] at hm
  exact elements_lead hvalue hread hm

/-- A list of a given length is read from its elements. -/
lemma reads_exactList (hvalue : ∀ x, IsValue (write x)) (hread : ∀ x, Reads r (write x) x)
    (xs : List α) : Reads (exactList xs.length r) (.list (xs.map write)) xs := by
  intro s rest hs _
  refine reads_bracketed (fun m hm => ?_) hs
  rw [Lexemes.separated_eq_lead] at hm
  exact exactElements_lead hvalue hread hm

end

/-! ## Lists of bytes -/

/-- A natural number is a value. -/
lemma isValue_ofNat (n : Nat) : IsValue (.ofNat n) := by
  have hnumber := IsNumber.parts (.inl rfl) (isWhole_toDigits n) .missing .missing
  rw [List.nil_append, List.append_nil, List.append_nil] at hnumber
  exact .scalar (.number hnumber)

lemma reads_bytes (bs : Bytes) : Reads (list readByte) (writeBytes bs) bs :=
  reads_list (fun _ => isValue_ofNat _) reads_byte bs

lemma reads_bytes_of_length {n : Nat} {bs : Bytes} (h : bs.length = n) :
    Reads (exactList n readByte) (writeBytes bs) bs := by
  subst h
  exact reads_exactList (fun _ => isValue_ofNat _) reads_byte bs

end CipherCalls.Json
