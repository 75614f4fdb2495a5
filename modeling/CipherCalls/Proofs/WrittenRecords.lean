/-
# Records in a text

The members of an object carry the entries of a record in some order.  Keys may be spelled in any
way, and members with keys that are not known may stand anywhere between the entries (`Carries`).
What comes of such an object follows from the entries alone: they are added to a draft one after the
other, which goes wrong if a field occurs twice or if its value is of the wrong kind
(`Draft.add`), and in the end all fields have to be there if the record must be complete
(`outcome_eq_some_iff`).
-/
import Mathlib
import CipherCalls.Proofs.SkippedValues

namespace CipherCalls.Json

/-! ## Entries -/

/-- Members carry entries in order, given the names that have been seen before.  Every entry has a
name and is written in some way; one whose name has been seen may have any value.  Between the
entries there may be members with keys that are not known. -/
inductive Carries {ε : Type} (known : List String) (name : ε → String)
    (writes : ε → Lexemes → Prop) : List String → List ε → List Member → Prop
  | nil {seen : List String} : Carries known name writes seen [] []
  | entry {seen : List String} {e : ε} {es : List ε} {m : Member} {ms : List Member}
      (hkey : Spells m.key (name e).toList) (hvalue : writes e m.value)
      (h : Carries known name writes (name e :: seen) es ms) :
      Carries known name writes seen (e :: es) (m :: ms)
  | again {seen : List String} {e : ε} {es : List ε} {m : Member} {ms : List Member}
      (hkey : Spells m.key (name e).toList) (hknown : name e ∈ known) (hseen : name e ∈ seen)
      (hvalue : IsValue m.value) (h : Carries known name writes seen es ms) :
      Carries known name writes seen (e :: es) (m :: ms)
  | foreign {seen : List String} {key : List Char} {es : List ε} {m : Member} {ms : List Member}
      (hkey : Spells m.key key) (hother : ∀ k ∈ known, k.toList ≠ key) (hvalue : IsValue m.value)
      (h : Carries known name writes seen es ms) : Carries known name writes seen es (m :: ms)

/-- An entry of a record: the name of a field, and how its value changes the record, unless the
value is of the wrong kind. -/
abbrev Entry (α : Type) := String × Option (α → α)

/-- An entry is added to a draft. -/
def Draft.add {α : Type} (d : Draft α) (e : Entry α) : Option (Draft α) :=
  if e.1 ∈ d.seen then none else e.2.map fun put => ⟨put d.value, e.1 :: d.seen⟩

namespace Shape

variable {α : Type}

/-- An entry is written by lexemes that its field reads as the change it makes. -/
def Writes (shape : Shape α) (e : Entry α) (ls : Lexemes) : Prop :=
  ∃ f, shape.field? e.1.toList = some f ∧ Yields f.read ls e.2

/-- What comes of the entries of an object. -/
def outcome (shape : Shape α) (es : List (Entry α)) : Option α :=
  ((es.foldlM Draft.add ⟨shape.start, []⟩).filter shape.accepts).map Draft.value

end Shape

section Entries

variable {ε δ : Type} {known : List String} {name : ε → String} {writes : ε → Lexemes → Prop}
  {seen : List String} {es : List ε} {ms : List Member}

/-- Entries are carried as what they stand for. -/
lemma Carries.map {name' : δ → String} {writes' : δ → Lexemes → Prop} {g : ε → δ}
    (hname : ∀ e, name' (g e) = name e) (hwrites : ∀ e ls, writes e ls → writes' (g e) ls)
    (h : Carries known name writes seen es ms) :
    Carries known name' writes' seen (es.map g) ms := by
  induction h with
  | nil => exact .nil
  | entry hkey hvalue _ ih =>
      exact .entry (by rwa [hname]) (hwrites _ _ hvalue) (by rwa [hname])
  | again hkey hknown hseen hvalue _ ih =>
      exact .again (by rwa [hname]) (by rwa [hname]) (by rwa [hname]) hvalue ih
  | foreign hkey hother hvalue _ ih => exact .foreign hkey hother hvalue ih

/-- A member as it is written. -/
def Member.written (key : String) (value : Lexemes) : Member :=
  ⟨key.toList.flatMap quoteChar, value⟩

/-- Members as they are written carry their entries. -/
lemma carries_written (value : ε → Lexemes) (h : ∀ e ∈ es, writes e (value e)) :
    Carries known name writes seen es (es.map fun e => .written (name e) (value e)) := by
  induction es generalizing seen with
  | nil => exact .nil
  | cons e es ih =>
      obtain ⟨he, hes⟩ := List.forall_mem_cons.mp h
      exact .entry (spells_flatMap_quoteChar _) he (ih hes)

/-- An object as it is written carries its entries. -/
lemma carries_object (value : ε → Lexemes) (h : ∀ e ∈ es, writes e (value e)) :
    ∃ ms, Carries known name writes seen es ms ∧
      Lexemes.object (es.map fun e => (name e, value e)) = .ofMembers ms := by
  refine ⟨_, carries_written value h, ?_⟩
  rw [Lexemes.object, Lexemes.ofMembers, List.map_map, List.map_map]
  rfl

end Entries

/-! ## Reading an object -/

section Reading

variable {α : Type} {shape : Shape α} {d : Draft α} {es : List (Entry α)} {ms : List Member}
  {m : Member} {tail : Lexemes} {ps : List Lexemes} {name s rest : List Char} {first : Bool}

lemma nextKey_close (first : Bool) (hs : Spaced [['\x7d']] s rest) :
    Gives (nextKey first s) none rest := by
  obtain ⟨n, hn, hmark, hnil⟩ := hs.single (by decide)
  cases hnil
  simp only [nextKey, hmark, if_true]
  exact ⟨_, rfl⟩

/-- The key of the next member is read, and the colon and the value stand behind it. -/
lemma nextKey_lead (hkey : Spells m.key name)
    (hs : Spaced (Lexemes.lead first (m.lexemes :: ps) ++ tail) s rest) :
    ∃ n, Gives (nextKey first s) (some name) n ∧
      Spaced ([':'] :: (m.value ++ (Lexemes.lead false ps ++ tail))) n rest := by
  have hquote : ('"' : Char) ≠ '\x7d' := by decide
  cases first with
  | true =>
      rw [Lexemes.lead, List.append_assoc] at hs
      obtain ⟨k, hk, hmark, -⟩ := hs.quote
      obtain ⟨n, ⟨hn, hread⟩, hs⟩ := Spaced.key hs hkey
      refine ⟨n, ?_, hs⟩
      simp only [nextKey, hmark, if_neg hquote, if_true, hread]
      exact ⟨_, rfl⟩
  | false =>
      have hcomma : (',' : Char) ≠ '\x7d' := by decide
      rw [Lexemes.lead, List.cons_append, List.append_assoc] at hs
      obtain ⟨k, hk, hmark, hs⟩ := hs.single (by decide)
      obtain ⟨n, ⟨hn, hread⟩, hs⟩ := Spaced.key hs hkey
      refine ⟨n, ?_, hs⟩
      simp only [nextKey, hmark, if_neg hcomma, if_true, hread]
      exact ⟨_, rfl⟩

/-- What comes of a text does not change if more of what stands in front of it is counted. -/
lemma Comes.extend {n k : Nat} {e : Except Fault (Reading α n)} {g : Reading α n → Reading α k}
    {o : Option α} (hg : ∀ x, (g x).value = x.value ∧ (g x).rest = x.rest)
    (h : Comes e rest o) : Comes (e.map g) rest o := by
  cases o with
  | some a =>
      obtain ⟨hlt, rfl⟩ : Gives e a rest := h
      obtain ⟨hvalue, hrest⟩ := hg ⟨a, rest, hlt⟩
      change Gives (.ok (g ⟨a, rest, hlt⟩)) a rest
      generalize g ⟨a, rest, hlt⟩ = x at hvalue hrest
      obtain ⟨b, m, hm⟩ := x
      obtain rfl : b = a := hvalue
      obtain rfl : m = rest := hrest
      exact ⟨hm, rfl⟩
  | none =>
      have herror : e = .error .mismatched := h
      rw [herror]
      rfl

/-- The fields of a record are those that are known. -/
lemma field?_eq_none (h : ∀ k ∈ shape.fields.map (·.name), k.toList ≠ name) :
    shape.field? name = none := by
  refine List.find?_eq_none.mpr fun f hf => ?_
  simpa using h f.name (List.mem_map_of_mem hf)

lemma field?_of_mem {key : String} (h : key ∈ shape.fields.map (·.name)) :
    ∃ f, shape.field? key.toList = some f := by
  obtain ⟨f, hf, rfl⟩ := List.mem_map.mp h
  refine Option.isSome_iff_exists.mp (List.find?_isSome.mpr ⟨f, hf, ?_⟩)
  exact decide_eq_true rfl

lemma name_of_field? {key : String} {f : Field α} (h : shape.field? key.toList = some f) :
    f.name = key := by
  have hname := List.find?_some h
  exact String.toList_inj.mp (of_decide_eq_true hname)

/-- **Reading the members of an object adds the entries to the draft.**  The induction is on the
members, over any draft: the fields that have been seen are part of it. -/
theorem members_lead (h : Carries (shape.fields.map (·.name)) (·.1) shape.Writes d.seen es ms)
    (hs : Spaced (Lexemes.lead first (ms.map Member.lexemes) ++ [['\x7d']]) s rest) :
    Comes (shape.members d first s) rest (es.foldlM Draft.add d) := by
  generalize hseen : d.seen = seen at h
  induction h generalizing d first s with
  | nil =>
      rw [List.map_nil, Lexemes.lead, List.nil_append] at hs
      obtain ⟨hn, hread⟩ := nextKey_close first hs
      rw [Shape.members]
      simp only [hread]
      exact ⟨_, rfl⟩
  | @foreign _ key es m ms hkey hother hvalue _ ih =>
      obtain ⟨n, ⟨hn, hread⟩, hs⟩ := nextKey_lead hkey hs
      obtain ⟨n', ⟨hn', hcolon⟩, hs⟩ := hs.expect (by decide)
      obtain ⟨k, hv, hs⟩ := spaced_append.mp hs
      obtain ⟨hk, hskip⟩ := hvalue.reads_skip n' k hv (hs.stops_lead (by decide))
      rw [Shape.members]
      simp only [hread, field?_eq_none hother, hcolon, hskip]
      exact (ih hs hseen).extend fun _ => ⟨rfl, rfl⟩
  | @again _ e es m ms hkey hknown hmem _ _ _ =>
      obtain ⟨f, hfield⟩ := field?_of_mem hknown
      have hname := name_of_field? hfield
      obtain ⟨n, ⟨hn, hread⟩, hs⟩ := nextKey_lead hkey hs
      -- The key alone is enough: nobody looks at what stands behind it.
      rw [← hseen] at hmem
      rw [Shape.members, List.foldlM_cons, Draft.add]
      simp only [hread, hfield, hname, if_pos hmem]
      rfl
  | @entry _ e es m ms hkey hvalue _ ih =>
      obtain ⟨f, hfield, hyields⟩ := hvalue
      have hname := name_of_field? hfield
      obtain ⟨n, ⟨hn, hread⟩, hs⟩ := nextKey_lead hkey hs
      rw [Shape.members, List.foldlM_cons, Draft.add]
      simp only [hread, hfield, hname]
      by_cases hmem : e.1 ∈ d.seen
      · rw [if_pos hmem, if_pos hmem]
        rfl
      · rw [if_neg hmem, if_neg hmem]
        obtain ⟨n', ⟨hn', hcolon⟩, hs⟩ := hs.expect (by decide)
        obtain ⟨k, hv, hs⟩ := spaced_append.mp hs
        have hcomes := hyields n' k hv (hs.stops_lead (by decide))
        simp only [hcolon]
        cases hput : e.2 with
        | none =>
            rw [hput] at hcomes
            have hrefused : f.read n' = .error .mismatched := hcomes
            rw [hrefused]
            rfl
        | some put =>
            rw [hput] at hcomes
            obtain ⟨hk, hvalue⟩ : Gives (f.read n') put k := hcomes
            simp only [hvalue]
            exact (ih hs (congrArg _ hseen)).extend fun _ => ⟨rfl, rfl⟩

/-- What comes of an object is what comes of its entries. -/
theorem yields_ofMembers (h : Carries (shape.fields.map (·.name)) (·.1) shape.Writes [] es ms) :
    Yields shape.read (.ofMembers ms) (shape.outcome es) := by
  intro s rest hs _
  obtain ⟨n, hn, hmark, hs⟩ := hs.single (by decide)
  rw [Lexemes.separated_eq_lead] at hs
  -- No field has been seen when the first member is read.
  have hmembers := members_lead (d := ⟨shape.start, []⟩) h hs
  have hobject : ('\x7b' : Char) ≠ '[' := by decide
  simp only [Shape.read, hmark, if_neg hobject, if_true]
  rw [Shape.outcome]
  cases hdraft : es.foldlM Draft.add ⟨shape.start, []⟩ with
  | none =>
      rw [hdraft] at hmembers
      have hrefused : shape.members ⟨shape.start, []⟩ true n = .error .mismatched := hmembers
      rw [hrefused]
      rfl
  | some draft =>
      rw [hdraft] at hmembers
      obtain ⟨hk, hread⟩ : Gives (shape.members ⟨shape.start, []⟩ true n) draft rest := hmembers
      simp only [hread]
      rw [Option.filter_some]
      by_cases haccepts : shape.accepts draft = true
      · rw [if_pos haccepts, if_pos haccepts]
        exact ⟨_, rfl⟩
      · rw [if_neg haccepts, if_neg haccepts]
        rfl

end Reading

/-! ## What comes of entries -/

section Outcome

variable {α : Type} {shape : Shape α} {d d' : Draft α} {es : List (Entry α)} {a : α}

/-- The changes of entries are made one after the other. -/
def changes (es : List (Entry α)) (a : α) : α :=
  (es.filterMap (·.2)).foldl (fun a put => put a) a

/-- Entries are added if no field occurs twice and all values are of the right kind. -/
lemma foldlM_add_eq_some_iff :
    es.foldlM Draft.add d = some d' ↔
      (es.map (·.1)).Nodup ∧ (∀ e ∈ es, e.1 ∉ d.seen) ∧ (∀ e ∈ es, e.2.isSome) ∧
        d' = ⟨changes es d.value, (es.map (·.1)).reverse ++ d.seen⟩ := by
  induction es generalizing d with
  | nil =>
      constructor
      · intro h
        cases h
        exact ⟨List.nodup_nil, List.forall_mem_nil _, List.forall_mem_nil _, rfl⟩
      · rintro ⟨-, -, -, rfl⟩
        rfl
  | cons e es ih =>
      obtain ⟨name, put?⟩ := e
      rw [List.foldlM_cons, Draft.add]
      by_cases hseen : name ∈ d.seen
      · simp [hseen]
      · cases put? with
        | none => simp [hseen]
        | some put =>
            -- The entries behind this one must not repeat its name, nor what was seen before it.
            have hnames : (∀ e ∈ es, e.1 ∉ name :: d.seen) ↔
                name ∉ es.map (·.1) ∧ ∀ e ∈ es, e.1 ∉ d.seen := by
              simp only [List.mem_cons, not_or, List.mem_map, not_exists, not_and]
              exact forall₂_and
            have hdraft : (⟨changes es (put d.value), (es.map (·.1)).reverse ++ name :: d.seen⟩ :
                Draft α) = ⟨changes ((name, some put) :: es) d.value,
                  (((name, some put) :: es).map (·.1)).reverse ++ d.seen⟩ := by
              simp [changes]
            rw [if_neg hseen, Option.map_some, Option.bind_eq_bind, Option.bind_some, ih, hnames,
              hdraft]
            simp only [List.map_cons, List.nodup_cons, List.forall_mem_cons, hseen,
              not_false_eq_true, true_and, Option.isSome_some]
            tauto

/-- **An object is read as a record** if no field occurs twice, all values are of the right kind,
and no field is missing from a record that must be complete. -/
theorem outcome_eq_some_iff :
    shape.outcome es = some a ↔
      (es.map (·.1)).Nodup ∧ (∀ e ∈ es, e.2.isSome) ∧
        (shape.complete = true → shape.fields.map (·.name) ⊆ es.map (·.1)) ∧
          a = changes es shape.start := by
  have haccepts : ∀ value, shape.accepts ⟨value, (es.map (·.1)).reverse ++ []⟩ = true ↔
      (shape.complete = true → shape.fields.map (·.name) ⊆ es.map (·.1)) := by
    intro value
    have hfields : shape.fields.map (·.name) ⊆ es.map (·.1) ↔
        ∀ f ∈ shape.fields, f.name ∈ es.map (·.1) := List.forall_mem_map
    rw [Shape.accepts, Bool.or_eq_true, List.all_eq_true, List.append_nil, hfields]
    simp only [List.mem_reverse, decide_eq_true_eq, Bool.not_eq_true', ← Bool.not_eq_true]
    exact imp_iff_not_or.symm
  rw [Shape.outcome]
  constructor
  · intro h
    obtain ⟨draft, hdraft, rfl⟩ := Option.map_eq_some_iff.mp h
    obtain ⟨hadd, hok⟩ := Option.filter_eq_some_iff.mp hdraft
    obtain ⟨hnodup, -, hsome, rfl⟩ := foldlM_add_eq_some_iff.mp hadd
    exact ⟨hnodup, hsome, (haccepts _).mp hok, rfl⟩
  · rintro ⟨hnodup, hsome, hcomplete, rfl⟩
    have hadd := (foldlM_add_eq_some_iff (d := ⟨shape.start, []⟩)).mpr
      ⟨hnodup, fun e _ => List.not_mem_nil, hsome, rfl⟩
    have hok := (haccepts (changes es shape.start)).mpr hcomplete
    rw [hadd, Option.filter_some, if_pos hok, Option.map_some]

end Outcome

/-! ## Records as their parts -/

/-- The parts of a record, one for every field. -/
structure Parts {α : Type} (shape : Shape α) (κ : Type) (β : κ → Type) where
  all : List κ
  name : κ → String
  reader : (k : κ) → Reader (β k)
  part : (k : κ) → α → β k
  set : (k : κ) → β k → α → α
  fields_eq : shape.fields = all.map fun k => .ofReader (name k) (reader k) (set k)
  mem_all : ∀ k, k ∈ all
  name_injective : Function.Injective name
  part_set_self : ∀ k b a, part k (set k b a) = b
  part_set_of_ne : ∀ {j k}, j ≠ k → ∀ b a, part j (set k b a) = part j a
  /-- A record is determined by its parts. -/
  ext : ∀ {a b}, (∀ k, part k a = part k b) → a = b

namespace Parts

variable {α κ ε : Type} {β : κ → Type} {shape : Shape α} (P : Parts shape κ β) {key : ε → κ}
  {value : (e : ε) → Option (β (key e))} {es : List ε} {ms : List Member} {a : α} {k : κ}

lemma names_all : shape.fields.map (·.name) = P.all.map P.name := by
  rw [P.fields_eq, List.map_map]
  rfl

/-- The field of a part is found by its name. -/
lemma field?_name (k : κ) : shape.field? (P.name k).toList =
    some (.ofReader (P.name k) (P.reader k) (P.set k)) := by
  have hmem : P.name k ∈ shape.fields.map (·.name) := by
    rw [P.names_all]
    exact List.mem_map_of_mem (P.mem_all k)
  obtain ⟨f, hf⟩ := field?_of_mem hmem
  have hfield := List.mem_of_find?_eq_some hf
  rw [P.fields_eq] at hfield
  obtain ⟨j, -, rfl⟩ := List.mem_map.mp hfield
  obtain rfl : j = k := P.name_injective (name_of_field? hf)
  exact hf

/-- Entries that set parts to values, unless the values are of the wrong kind. -/
def entries (key : ε → κ) (value : (e : ε) → Option (β (key e))) (es : List ε) : List (Entry α) :=
  es.map fun e => (P.name (key e), (value e).map (P.set (key e)))

/-- What comes of an object that holds entries for parts. -/
lemma yields {writes : ε → Lexemes → Prop}
    (hwrites : ∀ e ls, writes e ls → Yields (P.reader (key e)) ls (value e))
    (h : Carries (P.all.map P.name) (fun e => P.name (key e)) writes [] es ms) :
    Yields shape.read (.ofMembers ms) (shape.outcome (P.entries key value es)) := by
  rw [← P.names_all] at h
  exact yields_ofMembers (h.map (fun _ => rfl) fun e ls he =>
    ⟨_, P.field?_name (key e), (hwrites e ls he).map (P.set (key e))⟩)

lemma changes_entries_cons (e : ε) :
    changes (P.entries key value (e :: es)) a =
      changes (P.entries key value es) ((value e).elim a fun b => P.set (key e) b a) := by
  rw [entries, List.map_cons, changes]
  cases value e <;> rfl

/-- A part for which there is no entry does not change. -/
lemma part_changes_of_notMem (hk : k ∉ es.map key) :
    P.part k (changes (P.entries key value es) a) = P.part k a := by
  induction es generalizing a with
  | nil => rfl
  | cons e es ih =>
      rw [List.map_cons, List.mem_cons, not_or] at hk
      rw [changes_entries_cons, ih hk.2]
      cases value e with
      | none => rfl
      | some b => exact P.part_set_of_ne hk.1 b a

/-- A part is what the only entry for it makes it. -/
lemma part_changes_of_mem (hnodup : (es.map key).Nodup) {e : ε} (he : e ∈ es) {b : β (key e)}
    (hb : value e = some b) : P.part (key e) (changes (P.entries key value es) a) = b := by
  induction es generalizing a with
  | nil => cases he
  | cons d es ih =>
      obtain ⟨hother, hnodup⟩ := List.nodup_cons.mp hnodup
      rw [changes_entries_cons]
      cases he with
      | head => rw [P.part_changes_of_notMem hother, hb, Option.elim_some, P.part_set_self]
      | tail _ he => exact ih hnodup he

/-- **An object is read as a record by its parts:** no field occurs twice, every field that occurs
has a value of the right kind, and where a field is missing the record need not be complete and
keeps the part that it had before. -/
theorem outcome_eq_some_iff :
    shape.outcome (P.entries key value es) = some a ↔
      (es.map key).Nodup ∧ (∀ e ∈ es, value e = some (P.part (key e) a)) ∧
        ∀ k, k ∉ es.map key → shape.complete = false ∧ P.part k a = P.part k shape.start := by
  have hnames : (P.entries key value es).map (·.1) = (es.map key).map P.name := by
    rw [entries, List.map_map, List.map_map]
    rfl
  have hvalues : (∀ e ∈ P.entries key value es, e.2.isSome) ↔ ∀ e ∈ es, (value e).isSome := by
    rw [entries, List.forall_mem_map]
    simp only [Option.isSome_map]
  rw [Json.outcome_eq_some_iff, hnames, hvalues, List.nodup_map_iff P.name_injective, P.names_all]
  constructor
  · rintro ⟨hnodup, hsome, hcomplete, rfl⟩
    refine ⟨hnodup, fun e he => ?_, fun k hk => ⟨?_, P.part_changes_of_notMem hk⟩⟩
    · obtain ⟨b, hb⟩ := Option.isSome_iff_exists.mp (hsome e he)
      rw [hb, P.part_changes_of_mem hnodup he hb]
    · by_contra hc
      have hmem := hcomplete (eq_true_of_ne_false hc) (List.mem_map_of_mem (P.mem_all k))
      exact hk ((List.mem_map_of_injective P.name_injective).mp hmem)
  · rintro ⟨hnodup, hvalue, hmissing⟩
    refine ⟨hnodup, fun e he => by rw [hvalue e he]; rfl, ?_, P.ext fun k => ?_⟩
    · intro hc name hname
      obtain ⟨k, -, rfl⟩ := List.mem_map.mp hname
      by_contra hk
      have hother := (hmissing k fun h => hk (List.mem_map_of_mem h)).1
      rw [hc] at hother
      cases hother
    · by_cases hk : k ∈ es.map key
      · obtain ⟨e, he, rfl⟩ := List.mem_map.mp hk
        exact (P.part_changes_of_mem hnodup he (hvalue e he)).symm
      · rw [(hmissing k hk).2, P.part_changes_of_notMem hk]

/-- **A record is read from some of its parts as they are written,** if it need not be complete and
the other parts are what they were before anything was read. -/
theorem reads_object_of {ks : List κ} {write : κ → Lexemes} (hnodup : ks.Nodup)
    (h : ∀ k ∈ ks, Reads (P.reader k) (write k) (P.part k a))
    (hother : ∀ k, k ∉ ks → shape.complete = false ∧ P.part k a = P.part k shape.start) :
    Reads shape.read (.object (ks.map fun k => (P.name k, write k))) a := by
  obtain ⟨ms, hms, hobject⟩ : ∃ ms, Carries (P.all.map P.name) P.name
      (fun k ls => k ∈ ks ∧ ls = write k) [] ks ms ∧
        Lexemes.object (ks.map fun k => (P.name k, write k)) = .ofMembers ms :=
    carries_object write fun k hk => ⟨hk, rfl⟩
  have hyields : Yields shape.read (.ofMembers ms)
      (shape.outcome (P.entries id (fun k => some (P.part k a)) ks)) := by
    refine P.yields (fun k ls hls => ?_) hms
    obtain ⟨hk, rfl⟩ := hls
    exact h k hk
  have houtcome : shape.outcome (P.entries id (fun k => some (P.part k a)) ks) = some a := by
    rw [P.outcome_eq_some_iff, List.map_id]
    exact ⟨hnodup, fun _ _ => rfl, hother⟩
  rw [hobject]
  rw [houtcome] at hyields
  exact hyields

/-- A record is read from all its parts as they are written. -/
theorem reads_object {write : κ → Lexemes} (hnodup : P.all.Nodup)
    (h : ∀ k, Reads (P.reader k) (write k) (P.part k a)) :
    Reads shape.read (.object (P.all.map fun k => (P.name k, write k))) a :=
  P.reads_object_of hnodup (fun k _ => h k) fun k hk => absurd (P.mem_all k) hk

end Parts

end CipherCalls.Json
