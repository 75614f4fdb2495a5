/-
# Lexemes in a text

A written value is a sequence of lexemes, and a text shows them with any blanks in front of each
(`Spaced`).  What is left of the text behind the last lexeme is part of the relation, so that texts
of consecutive parts are composed by saying where one part ends and the next one begins.

What comes of lexemes with a reader is the same for every text that shows them: either the reader
reads a value and leaves the rest, or it finds the text to be of the wrong kind (`Yields`).  The
rest must not begin in a way that would prolong a number (`Stops`); what follows a value in a longer
text never does.
-/
import Mathlib
import CipherCalls.Json.Record
import CipherCalls.Json.Written

namespace CipherCalls.Json

/-! ## Blanks -/

/-- A text of blanks. -/
def Blank (w : List Char) : Prop := ∀ c ∈ w, isBlank c = true

/-- A text shows lexemes in order, with blanks in front of each, and goes on with a rest. -/
inductive Spaced : Lexemes → List Char → List Char → Prop
  | nil {rest : List Char} : Spaced [] rest rest
  | cons {w l s rest : List Char} {ls : Lexemes} (hw : Blank w) (hs : Spaced ls s rest) :
      Spaced (l :: ls) (w ++ (l ++ s)) rest

/-- The characters by which a number could go on. -/
def prolongs (c : Char) : Bool := c.isDigit || c = '.' || c = 'e' || c = 'E'

/-- A text does not begin in a way that prolongs a number in front of it. -/
def Stops (s : List Char) : Prop := ∀ c ∈ s.head?, prolongs c = false

section Spaced

variable {as bs ls : Lexemes} {c : Char} {l s w rest : List Char}

lemma Blank.nil : Blank [] := fun _ hc => absurd hc List.not_mem_nil

lemma blank_cons : Blank (c :: w) ↔ isBlank c = true ∧ Blank w := List.forall_mem_cons

/-- The texts of two parts are one behind the other. -/
lemma spaced_append : Spaced (as ++ bs) s rest ↔ ∃ m, Spaced as s m ∧ Spaced bs m rest := by
  induction as generalizing s with
  | nil =>
      constructor
      · exact fun h => ⟨s, .nil, h⟩
      · rintro ⟨m, h, hbs⟩
        cases h
        exact hbs
  | cons a as ih =>
      constructor
      · intro h
        cases h with
        | cons hw hs =>
            obtain ⟨m, has, hbs⟩ := ih.mp hs
            exact ⟨m, .cons hw has, hbs⟩
      · rintro ⟨m, h, hbs⟩
        cases h with
        | cons hw hs => exact .cons hw (ih.mpr ⟨m, hs, hbs⟩)

/-- The lexemes without any blanks. -/
lemma spaced_flatten (ls : Lexemes) : Spaced ls (ls.flatten ++ rest) rest := by
  induction ls with
  | nil => exact .nil
  | cons l ls ih =>
      rw [List.flatten_cons, List.append_assoc]
      exact .cons .nil ih

lemma spaced_compact (ls : Lexemes) : Spaced ls ls.compact.toList [] := by
  have h : Spaced ls (ls.flatten ++ []) [] := spaced_flatten ls
  rwa [List.append_nil, ← String.toList_ofList (l := ls.flatten)] at h

lemma prolongs_of_isBlank (h : isBlank c = true) : prolongs c = false := by
  simp only [isBlank, Bool.or_eq_true, decide_eq_true_eq] at h
  obtain ((rfl | rfl) | rfl) | rfl := h <;> rfl

lemma stops_of_blank (hw : Blank w) : Stops w := by
  intro c hc
  exact prolongs_of_isBlank (hw c (List.mem_of_mem_head? hc))

/-- A lexeme that does not prolong a number in front of it does so behind blanks neither. -/
lemma Spaced.stops (h : Spaced ((c :: l) :: ls) s rest) (hc : prolongs c = false) : Stops s := by
  cases h with
  | @cons w _ _ _ _ hw hs =>
      intro d hd
      cases w with
      | nil =>
          obtain rfl : c = d := by simpa using hd
          exact hc
      | cons b w =>
          obtain rfl : b = d := by simpa using hd
          exact prolongs_of_isBlank (hw b List.mem_cons_self)

end Spaced

/-! ## Single steps of reading -/

section Steps

variable {α β : Type} {n : Nat} {ls : Lexemes} {c : Char} {l s w rest : List Char}

/-- What is read is a value, behind which a rest is left. -/
def Gives (e : Except Fault (Reading α n)) (a : α) (rest : List Char) : Prop :=
  ∃ h, e = .ok ⟨a, rest, h⟩

lemma Gives.map {e : Except Fault (Reading α n)} {a : α} (h : Gives e a rest) (f : α → β) :
    Gives (e.map (·.map f)) (f a) rest := by
  obtain ⟨h, rfl⟩ := h
  exact ⟨h, rfl⟩

lemma mark?_of_blank (hw : Blank w) : mark? w = none := by
  induction w with
  | nil => rfl
  | cons b w ih =>
      obtain ⟨hb, hw⟩ := blank_cons.mp hw
      rw [mark?, if_pos hb, ih hw]
      rfl

/-- Blanks are passed over up to the first character that is none. -/
lemma mark?_append (hw : Blank w) (hc : isBlank c = false) :
    ∃ h, mark? (w ++ c :: s) = some ⟨c, s, h⟩ := by
  induction w with
  | nil =>
      rw [List.nil_append, mark?, if_neg (by rw [hc]; decide)]
      exact ⟨_, rfl⟩
  | cons b w ih =>
      obtain ⟨hb, hw⟩ := blank_cons.mp hw
      obtain ⟨h, hmark⟩ := ih hw
      rw [List.cons_append, mark?, if_pos hb, hmark]
      exact ⟨_, rfl⟩

/-- The first character of the first lexeme is found. -/
lemma Spaced.mark? (h : Spaced ((c :: l) :: ls) s rest) (hc : isBlank c = false) :
    ∃ m hm, Json.mark? s = some ⟨c, l ++ m, hm⟩ ∧ Spaced ls m rest := by
  cases h with
  | cons hw hs =>
      obtain ⟨hm, hmark⟩ := mark?_append hw hc
      exact ⟨_, hm, hmark, hs⟩

/-- A lexeme of one character is found. -/
lemma Spaced.single (h : Spaced ([c] :: ls) s rest) (hc : isBlank c = false) :
    ∃ m hm, Json.mark? s = some ⟨c, m, hm⟩ ∧ Spaced ls m rest := h.mark? hc

/-- A lexeme of one character is read where it is expected. -/
lemma Spaced.expect (h : Spaced ([c] :: ls) s rest) (hc : isBlank c = false) :
    ∃ m, Gives (Json.expect c s) () m ∧ Spaced ls m rest := by
  obtain ⟨m, hm, hmark, hls⟩ := h.single hc
  refine ⟨m, ⟨hm, ?_⟩, hls⟩
  simp only [Json.expect, hmark, if_true]
  rfl

lemma word_append (l s : List Char) : Gives (word l (l ++ s)) () s := by
  induction l with
  | nil => exact ⟨_, rfl⟩
  | cons c l ih =>
      obtain ⟨h, hword⟩ := ih
      rw [List.cons_append, word, if_pos rfl, hword]
      exact ⟨_, rfl⟩

end Steps

/-! ## Readers -/

section Readers

variable {α β : Type} {n : Nat} {r : Reader α} {ls : Lexemes} {a : α} {o : Option α}
  {s w rest : List Char}

/-- What comes of reading: a value, behind which a rest is left, or a text of the wrong kind. -/
def Comes (e : Except Fault (Reading α n)) (rest : List Char) : Option α → Prop
  | some a => Gives e a rest
  | none => e = .error .mismatched

/-- The same comes of every text that shows some lexemes. -/
def Yields (r : Reader α) (ls : Lexemes) (o : Option α) : Prop :=
  ∀ s rest, Spaced ls s rest → Stops rest → Comes (r s) rest o

/-- A value is read from every text that shows some lexemes. -/
def Reads (r : Reader α) (ls : Lexemes) (a : α) : Prop :=
  ∀ s rest, Spaced ls s rest → Stops rest → Gives (r s) a rest

lemma Reads.yields (h : Reads r ls a) : Yields r ls (some a) := h

lemma Reads.map (h : Reads r ls a) (f : α → β) :
    Reads (fun s => (r s).map (·.map f)) ls (f a) :=
  fun s rest hs hrest => (h s rest hs hrest).map f

lemma Yields.map (h : Yields r ls o) (f : α → β) :
    Yields (fun s => (r s).map (·.map f)) ls (o.map f) := by
  cases o with
  | some a => exact Reads.map h f
  | none =>
      intro s rest hs hrest
      have hread : r s = .error .mismatched := h s rest hs hrest
      change (r s).map _ = _
      rw [hread]
      rfl

/-- A whole text is read if only blanks are left behind the value. -/
lemma Yields.document (h : Yields r ls o) (hs : Spaced ls s w) (hw : Blank w) :
    document r s = o.elim (.error .mismatched) .ok := by
  cases o with
  | some a =>
      obtain ⟨_, hread⟩ : Gives (r s) a w := h s w hs (stops_of_blank hw)
      simp only [Json.document, hread, mark?_of_blank hw]
      rfl
  | none =>
      have hread : r s = .error .mismatched := h s w hs (stops_of_blank hw)
      simp only [Json.document, hread]
      rfl

end Readers

/-! ## Lists of parts -/

namespace Lexemes

variable {p : Lexemes} {ps : List Lexemes} {s rest : List Char}

/-- Parts with a comma in front of each, the first one excepted if it is the first of all. -/
def lead : Bool → List Lexemes → Lexemes
  | _, [] => []
  | true, p :: ps => p ++ lead false ps
  | false, p :: ps => [','] :: (p ++ lead false ps)

/-- Commas between parts are commas in front of all parts but the first one. -/
lemma separated_eq_lead (ps : List Lexemes) : separated ps = lead true ps := by
  have htail : ∀ (ps : List Lexemes) (p : Lexemes),
      separated (p :: ps) = p ++ lead false ps := by
    intro ps
    induction ps with
    | nil => exact fun p => (List.append_nil p).symm
    | cons q ps ih =>
        intro p
        rw [separated, ih]
        · rfl
        · exact List.cons_ne_nil q ps
  cases ps with
  | nil => rfl
  | cons p ps => exact htail ps p

end Lexemes

/-- What stands behind a part is the next part or a closing bracket, and prolongs no number. -/
lemma Spaced.stops_lead {ps : List Lexemes} {c : Char} {s rest : List Char}
    (h : Spaced (Lexemes.lead false ps ++ [[c]]) s rest) (hc : prolongs c = false) : Stops s := by
  cases ps with
  | nil => exact Spaced.stops h hc
  | cons p ps => exact Spaced.stops h (by decide)

end CipherCalls.Json
