/-
# Values that are passed over

A value of JSON is a word, a number or a text, or a list or an object of values, to any depth
(`IsValue`).  A reader that does not ask for a value passes over exactly its lexemes.  It does so
with the brackets that are open in a list, so that what is proved by induction on the value is
about any such list: behind the value the reader goes on as it does behind any value.
-/
import Mathlib
import CipherCalls.Json.Skip
import CipherCalls.Proofs.NumberTexts
import CipherCalls.Proofs.QuotedTexts

namespace CipherCalls.Json

/-! ## Values -/

/-- A member of an object: what stands between the quotes of its key, and its value. -/
structure Member where
  key : List Char
  value : Lexemes

/-- A member as it is written. -/
def Member.lexemes (m : Member) : Lexemes := inQuotes m.key :: [':'] :: m.value

/-- An object with members whose keys may be spelled in any way. -/
def Lexemes.ofMembers (ms : List Member) : Lexemes :=
  ['\x7b'] :: (separated (ms.map Member.lexemes) ++ [['\x7d']])

/-- A value without values inside. -/
inductive IsScalar : List Char → Prop
  | null : IsScalar ['n', 'u', 'l', 'l']
  | true : IsScalar ['t', 'r', 'u', 'e']
  | false : IsScalar ['f', 'a', 'l', 's', 'e']
  | number {n : List Char} (hn : IsNumber n) : IsScalar n
  | text {raw : List Char} (h : IsQuoted raw) : IsScalar (inQuotes raw)

/-- A value. -/
inductive IsValue : Lexemes → Prop
  | scalar {l : List Char} (h : IsScalar l) : IsValue [l]
  | list {vs : List Lexemes} (h : ∀ v ∈ vs, IsValue v) : IsValue (.list vs)
  | object {ms : List Member} (hkey : ∀ m ∈ ms, IsQuoted m.key) (h : ∀ m ∈ ms, IsValue m.value) :
      IsValue (.ofMembers ms)

/-! ## Scalars -/

section Scalars

variable {c : Char} {l s : List Char}

/-- A character that neither opens nor closes a list or an object, and is not blank. -/
def IsInner (c : Char) : Prop :=
  isBlank c = false ∧ c ≠ '[' ∧ c ≠ ']' ∧ c ≠ '\x7b' ∧ c ≠ '\x7d'

instance : DecidablePred IsInner := fun _ => inferInstanceAs (Decidable (_ ∧ _))

lemma isInner_of_isDigit (h : c.isDigit = true) : IsInner c := by
  refine ⟨isBlank_of_isDigit h, ?_, ?_, ?_, ?_⟩ <;> (rintro rfl; cases h)

/-- A number begins with a minus or a digit. -/
lemma IsNumber.head (h : IsNumber (c :: l)) : c = '-' ∨ c.isDigit = true := by
  generalize hn : c :: l = n at h
  cases h with
  | parts hsign hw =>
      obtain rfl | rfl := hsign
      · obtain ⟨d, ds, rfl, hd⟩ := hw.head
        obtain ⟨rfl, -⟩ := List.cons.inj hn
        exact .inr hd
      · obtain ⟨rfl, -⟩ := List.cons.inj hn
        exact .inl rfl

lemma IsNumber.ne_nil (h : IsNumber l) : l ≠ [] := by
  cases h with
  | parts hsign hw =>
      obtain ⟨d, ds, rfl, -⟩ := hw.head
      simp

/-- The first character of a scalar. -/
lemma IsScalar.head (h : IsScalar l) : ∃ c m, l = c :: m ∧ IsInner c := by
  cases h with
  | null => exact ⟨'n', _, rfl, by decide⟩
  | true => exact ⟨'t', _, rfl, by decide⟩
  | false => exact ⟨'f', _, rfl, by decide⟩
  | text => exact ⟨'"', _, rfl, by decide⟩
  | number hn =>
      cases l with
      | nil => exact absurd rfl hn.ne_nil
      | cons c m =>
          refine ⟨c, m, rfl, ?_⟩
          obtain rfl | hd := hn.head
          · decide
          · exact isInner_of_isDigit hd

/-- A scalar is passed over up to its last character. -/
lemma skipScalar_append (h : IsScalar (c :: l)) (hs : Stops s) :
    Gives (skipScalar c (l ++ s)) () s := by
  generalize hscalar : c :: l = scalar at h
  cases h with
  | null =>
      obtain ⟨rfl, rfl⟩ := List.cons.inj hscalar
      exact word_append _ s
  | true =>
      obtain ⟨rfl, rfl⟩ := List.cons.inj hscalar
      exact word_append _ s
  | false =>
      obtain ⟨rfl, rfl⟩ := List.cons.inj hscalar
      exact word_append _ s
  | @text raw hraw =>
      obtain ⟨rfl, rfl⟩ := List.cons.inj hscalar
      obtain ⟨h, hread⟩ := skipQuoted_append hraw s
      rw [List.append_assoc, List.cons_append, List.nil_append, skipScalar, if_neg (by decide),
        if_neg (by decide), if_neg (by decide), if_pos rfl, hread]
      exact ⟨_, rfl⟩
  | number hn =>
      subst hscalar
      obtain ⟨t, h, hread⟩ := number_append .malformed hn hs
      have hhead := hn.head
      have hother : c ≠ 'n' ∧ c ≠ 't' ∧ c ≠ 'f' ∧ c ≠ '"' := by
        refine ⟨?_, ?_, ?_, ?_⟩ <;> (rintro rfl; exact absurd hhead (by decide))
      obtain ⟨h1, h2, h3, h4⟩ := hother
      simp only [List.cons_append] at hread
      simp only [skipScalar, if_neg h1, if_neg h2, if_neg h3, if_neg h4, if_pos hhead, hread]
      exact ⟨_, rfl⟩

end Scalars

/-! ## Lists and objects -/

section Nesting

variable {ls : Lexemes} {vs : List Lexemes} {ms : List Member} {m : Member} {s rest : List Char}
  {nest : List Bracket}

/-- Whatever brackets are open, lexemes are passed over as a value. -/
def Skips (ls : Lexemes) : Prop :=
  ∀ nest s rest, Spaced ls s rest → Stops rest → skipValue nest s = skipRest nest rest

/-- The first character of a value does not close a bracket. -/
lemma IsValue.mark? (h : IsValue ls) (hs : Spaced ls s rest) :
    ∃ c m hm, Json.mark? s = some ⟨c, m, hm⟩ ∧ c ≠ ']' ∧ c ≠ '\x7d' := by
  cases h with
  | scalar h =>
      obtain ⟨c, l, rfl, hc⟩ := h.head
      obtain ⟨m, hm, hmark, -⟩ := hs.mark? hc.1
      exact ⟨c, _, hm, hmark, hc.2.2.1, hc.2.2.2.2⟩
  | list =>
      obtain ⟨m, hm, hmark, -⟩ := hs.single (by decide)
      exact ⟨'[', m, hm, hmark, by decide, by decide⟩
  | object =>
      obtain ⟨m, hm, hmark, -⟩ := hs.single (by decide)
      exact ⟨'\x7b', m, hm, hmark, by decide, by decide⟩

lemma IsScalar.skips {l : List Char} (h : IsScalar l) : Skips [l] := by
  intro nest s rest hs hrest
  obtain ⟨c, l, rfl, hc⟩ := h.head
  obtain ⟨m, hm, hmark, hnil⟩ := hs.mark? hc.1
  cases hnil
  obtain ⟨h', hskip⟩ := skipScalar_append h hrest
  rw [skipValue]
  simp only [hmark, if_neg hc.2.1, if_neg hc.2.2.2.1, hskip]

/-- What is passed over next inside a bracket. -/
def Bracket.next (b : Bracket) (nest : List Bracket) (s : List Char) :
    Except Fault (List Char) :=
  match b with
  | .list => skipValue (.list :: nest) s
  | .object => skipMember nest s

lemma skipRest_comma (b : Bracket) (nest : List Bracket) (hs : Spaced ([','] :: ls) s rest) :
    ∃ m, Spaced ls m rest ∧ skipRest (b :: nest) s = b.next nest m := by
  obtain ⟨m, hm, hmark, hls⟩ := hs.single (by decide)
  refine ⟨m, hls, ?_⟩
  rw [skipRest.eq_def]
  simp only [hmark, if_true]
  cases b <;> rfl

lemma skipRest_close {b : Bracket} (hs : Spaced [[b.close]] s rest) :
    skipRest (b :: nest) s = skipRest nest rest := by
  obtain ⟨m, hm, hmark, hnil⟩ := hs.single (by cases b <;> decide)
  cases hnil
  have hcomma : b.close ≠ ',' := by cases b <;> decide
  rw [skipRest.eq_def]
  simp only [hmark, if_neg hcomma, if_true]

/-- Behind an element the other elements are passed over. -/
lemma skipRest_elements (h : ∀ v ∈ vs, Skips v)
    (hs : Spaced (Lexemes.lead false vs ++ [[']']]) s rest) :
    skipRest (.list :: nest) s = skipRest nest rest := by
  induction vs generalizing s with
  | nil => exact skipRest_close hs
  | cons v vs ih =>
      obtain ⟨hv, hvs⟩ := List.forall_mem_cons.mp h
      rw [Lexemes.lead, List.cons_append, List.append_assoc] at hs
      obtain ⟨m, hs, hcomma⟩ := skipRest_comma .list nest hs
      obtain ⟨m', hm, hs⟩ := spaced_append.mp hs
      rw [hcomma, Bracket.next, hv _ _ _ hm (hs.stops_lead (by decide)), ih hvs hs]

lemma skips_list (hvalue : ∀ v ∈ vs, IsValue v) (h : ∀ v ∈ vs, Skips v) : Skips (.list vs) := by
  intro nest s rest hs _
  obtain ⟨m, hm, hmark, hs⟩ := hs.single (by decide)
  rw [skipValue]
  simp only [hmark, if_true]
  cases vs with
  | nil =>
      -- The reader looks behind the bracket for one that closes it.
      obtain ⟨m', hm', hmark', hnil⟩ := hs.single (by decide)
      cases hnil
      simp only [hmark', if_true]
  | cons v vs =>
      obtain ⟨hv, hvs⟩ := List.forall_mem_cons.mp h
      rw [Lexemes.separated_eq_lead, Lexemes.lead, List.append_assoc] at hs
      obtain ⟨m', hm', hs⟩ := spaced_append.mp hs
      obtain ⟨c, n, hn, hmark', hc, -⟩ := (hvalue v List.mem_cons_self).mark? hm'
      simp only [hmark', if_neg hc]
      rw [hv _ _ _ hm' (hs.stops_lead (by decide)), skipRest_elements hvs hs]

/-- A member is passed over. -/
lemma skipMember_eq (hkey : IsQuoted m.key) (h : Skips m.value) (hs : Spaced m.lexemes s rest)
    (hrest : Stops rest) : skipMember nest s = skipRest (.object :: nest) rest := by
  obtain ⟨n, hn, hmark, hs⟩ := hs.quote
  obtain ⟨hlt, hread⟩ := skipQuoted_append hkey n
  obtain ⟨n', ⟨hlt', hcolon⟩, hs⟩ := hs.expect (by decide)
  rw [skipMember]
  simp only [hmark, if_true, hread, hcolon]
  exact h _ _ _ hs hrest

/-- Behind a member the other members are passed over. -/
lemma skipRest_members (hkey : ∀ m ∈ ms, IsQuoted m.key) (h : ∀ m ∈ ms, Skips m.value)
    (hs : Spaced (Lexemes.lead false (ms.map Member.lexemes) ++ [['\x7d']]) s rest) :
    skipRest (.object :: nest) s = skipRest nest rest := by
  induction ms generalizing s with
  | nil => exact skipRest_close hs
  | cons m ms ih =>
      obtain ⟨hm, hms⟩ := List.forall_mem_cons.mp h
      obtain ⟨hkeym, hkeys⟩ := List.forall_mem_cons.mp hkey
      rw [List.map_cons, Lexemes.lead, List.cons_append, List.append_assoc] at hs
      obtain ⟨n, hs, hcomma⟩ := skipRest_comma .object nest hs
      obtain ⟨n', hn, hs⟩ := spaced_append.mp hs
      rw [hcomma, Bracket.next, skipMember_eq hkeym hm hn (hs.stops_lead (by decide)),
        ih hkeys hms hs]

lemma skips_ofMembers (hkey : ∀ m ∈ ms, IsQuoted m.key) (h : ∀ m ∈ ms, Skips m.value) :
    Skips (.ofMembers ms) := by
  intro nest s rest hs _
  obtain ⟨n, hn, hmark, hs⟩ := hs.single (by decide)
  rw [skipValue]
  simp only [hmark, if_true]
  rw [if_neg (by decide)]
  cases ms with
  | nil =>
      obtain ⟨n', hn', hmark', hnil⟩ := hs.single (by decide)
      cases hnil
      simp only [hmark', if_true]
  | cons m ms =>
      obtain ⟨hm, hms⟩ := List.forall_mem_cons.mp h
      obtain ⟨hkeym, hkeys⟩ := List.forall_mem_cons.mp hkey
      rw [List.map_cons, Lexemes.separated_eq_lead, Lexemes.lead, List.append_assoc] at hs
      obtain ⟨n', hn', hs⟩ := spaced_append.mp hs
      obtain ⟨k, hk, hmark', -⟩ := hn'.quote
      simp only [hmark']
      rw [if_neg (by decide), skipMember_eq hkeym hm hn' (hs.stops_lead (by decide)),
        skipRest_members hkeys hms hs]

/-- **A value is passed over up to its end, whatever brackets are open.** -/
theorem IsValue.skips (h : IsValue ls) : Skips ls := by
  induction h with
  | scalar h => exact h.skips
  | list h ih => exact skips_list h ih
  | object hkey _ ih => exact skips_ofMembers hkey ih

/-- A value is passed over where nobody asks for it. -/
lemma IsValue.reads_skip (h : IsValue ls) : Reads skip ls () := by
  intro s rest hs hrest
  have hskip : skipValue [] s = .ok rest := by
    rw [h.skips [] s rest hs hrest, skipRest.eq_def]
  unfold skip
  split
  next f hf =>
    rw [hskip] at hf
    cases hf
  next r hr =>
    rw [hskip] at hr
    cases hr
    exact ⟨_, rfl⟩

end Nesting

end CipherCalls.Json
