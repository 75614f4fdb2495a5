/-
# Grants of depths along the history of a registry

What a registry shows can be told from its history alone, that is, from the registrations,
delegations and retirements that have led to it.  A handle is *shown* at a depth if the depth was
granted to it and has not been retired since.  A registration grants a depth to the handle of its
ciphertext.  A delegation grants one to a handle that is shown at some depth at that time, and does
nothing for any other handle.

The ciphertext under a handle is the one that *introduced* it: the first one to be registered under
the handle since this was shown nowhere.  Whatever is registered under the handle afterwards only
grants depths, until the last depth is retired.
-/
import Mathlib
import CipherCalls.Proofs.Coverage

namespace CipherCalls

namespace Registry

/-! ## Histories -/

/-- What changes a registry. -/
inductive Change where
  | register (c : Ciphertext) (d : Nat)
  | delegate (h : Handle) (d : Nat)
  | retire (d : Nat)
deriving DecidableEq

/-- The registry after a change.  The delegation of an unknown handle changes nothing. -/
def Change.apply (r : Registry) : Change → Registry
  | register c d => r.register c d
  | delegate h d => (r.delegate? h d).getD r
  | retire d => r.retire d

/-- What a history makes of the empty registry. -/
def ofChanges (changes : List Change) : Registry := changes.foldl Change.apply .empty

/-- A history shows a handle at a depth: the depth was granted to the handle, and it has not been
retired since. -/
inductive Shown : List Change → Handle → Nat → Prop where
  | registered {before later : List Change} {c : Ciphertext} {d : Nat}
      (hkept : .retire d ∉ later) : Shown (before ++ .register c d :: later) c.handle d
  | delegated {before later : List Change} {h : Handle} {d d' : Nat}
      (hshown : Shown before h d') (hkept : .retire d ∉ later) :
      Shown (before ++ .delegate h d :: later) h d

/-- A ciphertext has introduced its handle: it was registered when the handle was shown nowhere,
and the handle has been shown somewhere ever since. -/
def Introduced (changes : List Change) (c : Ciphertext) : Prop :=
  ∃ before d later, changes = before ++ .register c d :: later ∧
    (∀ d', ¬Shown before c.handle d') ∧
    ∀ middle, middle <+: later → ∃ d', Shown (before ++ .register c d :: middle) c.handle d'

section Histories

variable {changes before later middle : List Change} {x y : Change} {h : Handle} {d d' : Nat}
  {c c' : Ciphertext}

lemma ofChanges_append_singleton : ofChanges (changes ++ [x]) = x.apply (ofChanges changes) := by
  rw [ofChanges, List.foldl_append]
  rfl

/-! ## What a history shows after one more change -/

/-- Whether a change grants a depth to a handle, when it follows a history. -/
def Grants (before : List Change) (h : Handle) (d : Nat) : Change → Prop
  | .register c d' => c.handle = h ∧ d' = d
  | .delegate h' d' => h' = h ∧ d' = d ∧ ∃ d'', Shown before h d''
  | .retire _ => False

/-- A change in a history with a last one is this last one, or it comes before it. -/
lemma eq_or_of_append_cons_eq (heq : before ++ y :: later = changes ++ [x]) :
    (before = changes ∧ y = x ∧ later = []) ∨
      ∃ later', later = later' ++ [x] ∧ changes = before ++ y :: later' := by
  rcases List.eq_nil_or_concat later with rfl | ⟨later', z, rfl⟩
  · obtain ⟨hbefore, hy⟩ := List.append_inj' heq rfl
    exact .inl ⟨hbefore, (List.cons.inj hy).1, rfl⟩
  · rw [List.concat_eq_append, ← List.cons_append, ← List.append_assoc] at heq
    obtain ⟨hchanges, hz⟩ := List.append_inj' heq rfl
    obtain rfl : z = x := (List.cons.inj hz).1
    exact .inr ⟨later', List.concat_eq_append .., hchanges.symm⟩

lemma not_shown_nil : ¬Shown [] h d := by
  intro hshown
  generalize hnil : ([] : List Change) = changes at hshown
  cases hshown <;> simp at hnil

/-- A handle is shown after one more change if this grants the depth, or if the handle was shown
before and the depth is not retired. -/
lemma shown_append_singleton :
    Shown (changes ++ [x]) h d ↔ Grants changes h d x ∨ Shown changes h d ∧ x ≠ .retire d := by
  constructor
  · intro hshown
    generalize heq : changes ++ [x] = all at hshown
    cases hshown with
    | registered hkept =>
        rcases eq_or_of_append_cons_eq heq.symm with ⟨rfl, rfl, rfl⟩ | ⟨later', rfl, rfl⟩
        · exact .inl ⟨rfl, rfl⟩
        · rw [List.mem_append, List.mem_singleton, not_or] at hkept
          exact .inr ⟨.registered hkept.1, Ne.symm hkept.2⟩
    | delegated hshown hkept =>
        rcases eq_or_of_append_cons_eq heq.symm with ⟨rfl, rfl, rfl⟩ | ⟨later', rfl, rfl⟩
        · exact .inl ⟨rfl, rfl, _, hshown⟩
        · rw [List.mem_append, List.mem_singleton, not_or] at hkept
          exact .inr ⟨.delegated hshown hkept.1, Ne.symm hkept.2⟩
  · rintro (hgrants | ⟨hshown, hne⟩)
    · cases x with
      | register c d' =>
          obtain ⟨rfl, rfl⟩ := hgrants
          exact .registered List.not_mem_nil
      | delegate h' d' =>
          obtain ⟨rfl, rfl, d'', hshown⟩ := hgrants
          exact .delegated hshown List.not_mem_nil
      | retire d' => cases hgrants
    · -- The grant stays where it is, and one more change comes after it.
      have hkept {later : List Change} (h : .retire d ∉ later) : .retire d ∉ later ++ [x] := by
        rw [List.mem_append, List.mem_singleton, not_or]
        exact ⟨h, Ne.symm hne⟩
      cases hshown with
      | registered hlater =>
          rw [List.append_assoc, List.cons_append]
          exact .registered (hkept hlater)
      | delegated hshown hlater =>
          rw [List.append_assoc, List.cons_append]
          exact .delegated hshown (hkept hlater)

end Histories

/-! ## What a registry shows after one more change -/

/-- Every entry is visible somewhere. -/
def NoOrphans (r : Registry) : Prop := ∀ e ∈ r.entries, e.depths ≠ []

section Changes

variable {r : Registry} {x : Change} {h h' : Handle} {d d' : Nat} {c : Ciphertext} {e : Entry}

lemma isSome_get?_iff : (r.get? h d).isSome ↔ ∃ e, r.find? h = some e ∧ d ∈ e.depths := by
  rw [Option.isSome_iff_exists]
  constructor
  · rintro ⟨c, hc⟩
    obtain ⟨e, he, hd, -⟩ := get?_eq_some_iff.mp hc
    exact ⟨e, he, hd⟩
  · rintro ⟨e, he, hd⟩
    exact ⟨e.ciphertext, get?_eq_some_iff.mpr ⟨e, he, hd, rfl⟩⟩

lemma noOrphans_iff : r.NoOrphans ↔ ∀ h e, r.find? h = some e → e.depths ≠ [] := by
  constructor
  · intro hr h e he
    exact hr e (find?_eq_some_iff.mp he).1
  · intro hr e he
    exact hr e.handle e (find?_eq_some_iff.mpr ⟨he, rfl⟩)

/-- Without orphans, the known handles are those that are visible somewhere. -/
lemma NoOrphans.isSome_find?_iff (hr : r.NoOrphans) :
    (r.find? h).isSome ↔ ∃ d, (r.get? h d).isSome := by
  constructor
  · intro hknown
    obtain ⟨e, he⟩ := Option.isSome_iff_exists.mp hknown
    obtain ⟨d, hd⟩ := List.exists_mem_of_ne_nil _ (noOrphans_iff.mp hr h e he)
    exact ⟨d, isSome_get?_iff.mpr ⟨e, he, hd⟩⟩
  · rintro ⟨d, hd⟩
    obtain ⟨e, he, -⟩ := isSome_get?_iff.mp hd
    rw [he]
    rfl

lemma depths_grant_ne_nil : (e.grant d).depths ≠ [] :=
  List.ne_nil_of_mem (List.mem_insert_self (a := d) (l := e.depths))

/-- No change leaves orphans behind. -/
lemma NoOrphans.apply (hr : r.NoOrphans) : (x.apply r).NoOrphans := by
  rw [noOrphans_iff] at hr ⊢
  intro h e he
  cases x with
  | register c d =>
      rw [Change.apply, find?_register] at he
      split at he
      · obtain rfl := Option.some.inj he
        cases r.find? c.handle with
        | none => exact List.cons_ne_nil _ _
        | some e₀ => exact depths_grant_ne_nil
      · exact hr h e he
  | delegate h' d =>
      rw [Change.apply, getD_delegate?, find?_grant, Option.map_eq_some_iff] at he
      obtain ⟨e₀, he₀, rfl⟩ := he
      split
      · exact depths_grant_ne_nil
      · exact hr h e₀ he₀
  | retire d =>
      rw [Change.apply, find?_retire, Option.bind_eq_some_iff] at he
      obtain ⟨e₀, -, hretire⟩ := he
      obtain ⟨hleft, rfl⟩ := Entry.retire?_eq_some_iff.mp hretire
      exact hleft

lemma ContentAddressed.apply (hr : r.ContentAddressed) : (x.apply r).ContentAddressed := by
  cases x with
  | register c d => exact hr.register
  | delegate h d =>
      rw [Change.apply, getD_delegate?]
      exact hr.grant
  | retire d => exact hr.retire

lemma isSome_get?_register :
    ((r.register c d').get? h d).isSome ↔ c.handle = h ∧ d' = d ∨ (r.get? h d).isSome := by
  rw [isSome_get?_iff, isSome_get?_iff, find?_register]
  by_cases hh : h = c.handle
  · subst hh
    rw [if_pos rfl]
    cases r.find? c.handle with
    | none => simp [eq_comm]
    | some e => simp [Entry.grant, eq_comm]
  · simp [hh, Ne.symm hh]

lemma isSome_get?_grant :
    ((r.grant h' d').get? h d).isSome ↔
      h' = h ∧ d' = d ∧ (r.find? h).isSome ∨ (r.get? h d).isSome := by
  rw [isSome_get?_iff, isSome_get?_iff, find?_grant]
  cases r.find? h with
  | none => simp
  | some e =>
      by_cases hh : h = h'
      · simp [hh, Entry.grant, eq_comm]
      · simp [hh, Ne.symm hh]

lemma isSome_get?_retire :
    ((r.retire d').get? h d).isSome ↔ (r.get? h d).isSome ∧ d' ≠ d := by
  simp only [isSome_get?_iff, find?_retire, Option.bind_eq_some_iff, Entry.retire?_eq_some_iff]
  constructor
  · rintro ⟨_, ⟨e, he, -, rfl⟩, hd⟩
    obtain ⟨hmem, hne⟩ := List.mem_filter.mp hd
    exact ⟨⟨e, he, hmem⟩, fun h => by simp [h] at hne⟩
  · rintro ⟨⟨e, he, hmem⟩, hne⟩
    -- The depth itself is what is left to the entry.
    have hd : d ∈ e.depths.filter (· ≠ d') := List.mem_filter.mpr ⟨hmem, by simpa using Ne.symm hne⟩
    exact ⟨_, ⟨e, he, List.ne_nil_of_mem hd, rfl⟩, hd⟩

/-- The ciphertext under a handle after a change was there before, or it has just been registered
under a handle that was not known. -/
lemma ciphertext_of_apply (he : (x.apply r).find? h = some e) :
    (∃ e₀, r.find? h = some e₀ ∧ e.ciphertext = e₀.ciphertext) ∨
      r.find? h = none ∧ ∃ c d, x = .register c d ∧ c.handle = h ∧ e.ciphertext = c := by
  cases x with
  | register c d =>
      rw [Change.apply, find?_register] at he
      split at he
      · rename_i hh
        subst hh
        obtain rfl := Option.some.inj he
        cases hf : r.find? c.handle with
        | none => exact .inr ⟨rfl, c, d, rfl, rfl, rfl⟩
        | some e₀ => exact .inl ⟨e₀, rfl, rfl⟩
      · exact .inl ⟨e, he, rfl⟩
  | delegate h' d =>
      rw [Change.apply, getD_delegate?, find?_grant, Option.map_eq_some_iff] at he
      obtain ⟨e₀, he₀, rfl⟩ := he
      refine .inl ⟨e₀, he₀, ?_⟩
      split <;> rfl
  | retire d =>
      rw [Change.apply, find?_retire, Option.bind_eq_some_iff] at he
      obtain ⟨e₀, he₀, hretire⟩ := he
      rw [(Entry.retire?_eq_some_iff.mp hretire).2]
      exact .inl ⟨e₀, he₀, rfl⟩

end Changes

/-! ## Along a history -/

section Along

variable {changes later : List Change} {h : Handle} {d d' : Nat} {c c' : Ciphertext} {e : Entry}

lemma noOrphans_ofChanges (changes : List Change) : (ofChanges changes).NoOrphans := by
  induction changes using List.reverseRecOn with
  | nil =>
      rintro e ⟨⟩
  | append_singleton changes x ih =>
      rw [ofChanges_append_singleton]
      exact ih.apply

lemma contentAddressed_ofChanges (changes : List Change) :
    (ofChanges changes).ContentAddressed := by
  induction changes using List.reverseRecOn with
  | nil => exact contentAddressed_empty
  | append_singleton changes x ih =>
      rw [ofChanges_append_singleton]
      exact ih.apply

/-- A registry shows what its history shows. -/
theorem isSome_get?_ofChanges : ((ofChanges changes).get? h d).isSome ↔ Shown changes h d := by
  induction changes using List.reverseRecOn generalizing h d with
  | nil => exact iff_of_false Bool.false_ne_true not_shown_nil
  | append_singleton changes x ih =>
      rw [ofChanges_append_singleton, shown_append_singleton, ← ih]
      cases x with
      | register c d' => simp [Change.apply, isSome_get?_register, Grants]
      | delegate h' d' =>
          -- A handle is known if it is shown somewhere.
          simp [Change.apply, getD_delegate?, isSome_get?_grant, Grants, ← ih,
            (noOrphans_ofChanges changes).isSome_find?_iff]
      | retire d' => simp [Change.apply, isSome_get?_retire, Grants]

/-- The known handles are those that are shown somewhere. -/
lemma isSome_find?_ofChanges : ((ofChanges changes).find? h).isSome ↔ ∃ d, Shown changes h d := by
  simp only [(noOrphans_ofChanges changes).isSome_find?_iff, isSome_get?_ofChanges]

/-- A ciphertext whose handle is shown nowhere introduces it. -/
lemma introduced_register (hnew : ∀ d, ¬Shown changes c.handle d) :
    Introduced (changes ++ [.register c d]) c := by
  refine ⟨changes, d, [], rfl, hnew, fun middle hmiddle => ⟨d, ?_⟩⟩
  rw [List.prefix_nil.mp hmiddle]
  exact .registered List.not_mem_nil

namespace Introduced

/-- As long as its handle is shown somewhere, a ciphertext remains the one that introduced it. -/
lemma append (hc : Introduced changes c)
    (hshown : ∀ middle, middle <+: later → ∃ d, Shown (changes ++ middle) c.handle d) :
    Introduced (changes ++ later) c := by
  obtain ⟨before, d, later₀, rfl, hnew, hever⟩ := hc
  refine ⟨before, d, later₀ ++ later, by simp, hnew, fun middle hmiddle => ?_⟩
  rcases List.prefix_or_prefix_of_prefix hmiddle (List.prefix_append later₀ later) with
    hearly | ⟨middle', rfl⟩
  · exact hever middle hearly
  · have hlate := hshown middle' ((List.prefix_append_right_inj later₀).mp hmiddle)
    rwa [List.append_assoc, List.cons_append] at hlate

/-- Of two moments at which a handle was introduced, none is later than the other one. -/
lemma not_later {before later later' between : List Change} {x : Change}
    (hever : ∀ middle, middle <+: later → ∃ d, Shown (before ++ x :: middle) h d)
    (hnew : ∀ d, ¬Shown (before ++ between) h d) (heq : x :: later = between ++ later') :
    between = [] := by
  cases between with
  | nil => rfl
  | cons y between =>
      obtain ⟨rfl, rfl⟩ := List.cons.inj heq
      obtain ⟨d, hshown⟩ := hever between (List.prefix_append between later')
      exact absurd hshown (hnew d)

/-- A handle is introduced by one ciphertext only. -/
lemma unique (hc : Introduced changes c) (hc' : Introduced changes c')
    (hh : c'.handle = c.handle) : c' = c := by
  obtain ⟨before, d, later, rfl, hnew, hever⟩ := hc
  obtain ⟨before', d', later', heq, hnew', hever'⟩ := hc'
  rw [hh] at hnew' hever'
  rcases List.append_eq_append_iff.mp heq with ⟨between, rfl, hlater⟩ | ⟨between, rfl, hlater⟩
  · obtain rfl := not_later hever hnew' hlater
    exact (Change.register.inj (List.cons.inj hlater).1).1.symm
  · obtain rfl := not_later hever' hnew hlater
    exact (Change.register.inj (List.cons.inj hlater).1).1

end Introduced

/-- The ciphertext under a handle is the one that introduced the handle. -/
lemma introduced_of_find? (he : (ofChanges changes).find? h = some e) :
    e.ciphertext.handle = h ∧ Introduced changes e.ciphertext := by
  refine ⟨contentAddressed_iff.mp (contentAddressed_ofChanges changes) h e he, ?_⟩
  induction changes using List.reverseRecOn generalizing e with
  | nil => cases he
  | append_singleton changes x ih =>
      have hhandle : e.ciphertext.handle = h :=
        contentAddressed_iff.mp (contentAddressed_ofChanges _) h e he
      have hshown : ∃ d, Shown (changes ++ [x]) h d := by
        rw [← isSome_find?_ofChanges, he]
        rfl
      rw [ofChanges_append_singleton] at he
      rcases ciphertext_of_apply he with ⟨e₀, he₀, hc⟩ | ⟨hnone, c, d, rfl, rfl, rfl⟩
      · -- The handle was shown before the change and is shown after it.
        have hbefore : ∃ d, Shown changes h d := by
          rw [← isSome_find?_ofChanges, he₀]
          rfl
        rw [hc] at hhandle ⊢
        refine (ih he₀).append fun middle hmiddle => ?_
        rw [hhandle]
        rcases List.prefix_cons_iff.mp hmiddle with rfl | ⟨rest, rfl, hrest⟩
        · rw [List.append_nil]
          exact hbefore
        · rw [List.prefix_nil.mp hrest]
          exact hshown
      · refine introduced_register fun d hd => ?_
        have hknown := isSome_find?_ofChanges.mpr ⟨d, hd⟩
        rw [hnone] at hknown
        cases hknown

/-- What a registry has under a handle is determined by its history. -/
theorem get?_ofChanges_eq_some_iff :
    (ofChanges changes).get? h d = some c ↔
      Shown changes h d ∧ c.handle = h ∧ Introduced changes c := by
  constructor
  · intro hc
    obtain ⟨e, he, -, rfl⟩ := get?_eq_some_iff.mp hc
    refine ⟨isSome_get?_ofChanges.mp ?_, introduced_of_find? he⟩
    rw [hc]
    rfl
  · rintro ⟨hshown, rfl, hintroduced⟩
    obtain ⟨e, he, hd⟩ := isSome_get?_iff.mp (isSome_get?_ofChanges.mpr hshown)
    obtain ⟨hhandle, hintroduced'⟩ := introduced_of_find? he
    exact get?_eq_some_iff.mpr ⟨e, he, hd, hintroduced.unique hintroduced' hhandle⟩

/-- The entries are as many as the handles that are shown somewhere. -/
lemma size_ofChanges (changes : List Change) :
    ∃ shown : Finset Handle,
      (∀ h, h ∈ shown ↔ ∃ d, Shown changes h d) ∧ (ofChanges changes).size = shown.card := by
  refine ⟨((ofChanges changes).entries.map Entry.handle).toFinset, fun h => ?_, ?_⟩
  · rw [← isSome_find?_ofChanges, Option.isSome_iff_exists, List.mem_toFinset, List.mem_map]
    exact exists_congr fun e => find?_eq_some_iff.symm
  · rw [List.toFinset_card_of_nodup (ofChanges changes).nodup, List.length_map, size]

/-! ## The main statement -/

/-- **A registry shows what its history has granted.**  After any history of the empty registry:

* a handle is visible at a depth if and only if the history shows it there;
* its ciphertext has this handle, and it is the one that introduced the handle;
* this ciphertext is not replaced as long as the handle is shown somewhere;
* a delegation succeeds if and only if the handle is shown somewhere;
* the width and the presence of a handle are those of its ciphertext;
* every entry is visible somewhere, and there are as many entries as handles that are shown
  somewhere. -/
theorem registry_along_history (changes : List Change) :
    (∀ h d, ((ofChanges changes).get? h d).isSome ↔ Shown changes h d) ∧
    (∀ h d c, (ofChanges changes).get? h d = some c ↔
      Shown changes h d ∧ c.handle = h ∧ Introduced changes c) ∧
    (∀ h d c later, (ofChanges changes).get? h d = some c →
      (∀ middle, middle <+: later → ∃ d', Shown (changes ++ middle) h d') →
      ∀ d', Shown (changes ++ later) h d' → (ofChanges (changes ++ later)).get? h d' = some c) ∧
    (∀ h d, ((ofChanges changes).delegate? h d).isSome ↔ ∃ d', Shown changes h d') ∧
    (∀ h d, (ofChanges changes).width? h d = ((ofChanges changes).get? h d).map Ciphertext.width ∧
      (ofChanges changes).contains h d = ((ofChanges changes).get? h d).isSome) ∧
    (∀ e ∈ (ofChanges changes).entries, e.depths ≠ []) ∧
    ∃ shown : Finset Handle,
      (∀ h, h ∈ shown ↔ ∃ d, Shown changes h d) ∧ (ofChanges changes).size = shown.card := by
  refine ⟨fun h d => isSome_get?_ofChanges, fun h d c => get?_ofChanges_eq_some_iff, ?_, ?_, ?_,
    noOrphans_ofChanges changes, size_ofChanges changes⟩
  · intro h d c later hc hever d' hshown
    obtain ⟨-, rfl, hintroduced⟩ := get?_ofChanges_eq_some_iff.mp hc
    exact get?_ofChanges_eq_some_iff.mpr ⟨hshown, rfl, hintroduced.append hever⟩
  · intro h d
    rw [← isSome_find?_ofChanges, delegate?]
    cases (ofChanges changes).find? h <;> simp
  · intro h d
    refine ⟨width?_eq _ h d, ?_⟩
    rw [contains, width?_eq, Option.isSome_map]

end Along

/-- A ciphertext that is registered at depth 1. -/
def loan : Ciphertext := ⟨.euint8, [1]⟩

/-- Its handle is delegated to depth 2, and depth 1 is retired. -/
def lending : List Change := [.delegate loan.handle 2, .retire 1]

lemma shown_loan : Shown ([] ++ [.register loan 1]) loan.handle 1 :=
  .registered List.not_mem_nil

/-- The handle is shown at depth 2 from the delegation on. -/
lemma shown_lending {later : List Change} (hkept : .retire 2 ∉ later) :
    Shown ([.register loan 1] ++ .delegate loan.handle 2 :: later) loan.handle 2 :=
  .delegated shown_loan hkept

/-- The ciphertext outlives the depth at which it was registered, because it was delegated. -/
theorem visible_after_lending :
    (ofChanges [.register loan 1]).get? loan.handle 1 = some loan ∧
      (ofChanges ([.register loan 1] ++ lending)).get? loan.handle 2 = some loan ∧
      ((ofChanges ([.register loan 1] ++ lending)).get? loan.handle 1).isSome = false := by
  have hintroduced : Introduced ([] ++ [.register loan 1]) loan :=
    introduced_register fun _ => not_shown_nil
  have hregistered : (ofChanges [.register loan 1]).get? loan.handle 1 = some loan :=
    ((registry_along_history [.register loan 1]).2.1 _ _ _).mpr ⟨shown_loan, rfl, hintroduced⟩
  have hever : ∀ middle, middle <+: lending →
      ∃ d, Shown ([.register loan 1] ++ middle) loan.handle d := by
    intro middle hmiddle
    rcases List.prefix_cons_iff.mp hmiddle with rfl | ⟨rest, rfl, hrest⟩
    · exact ⟨1, shown_loan⟩
    · refine ⟨2, shown_lending fun hmem => ?_⟩
      have hretired := hrest.subset hmem
      simp at hretired
  refine ⟨hregistered, ?_, ?_⟩
  · exact (registry_along_history _).2.2.1 _ _ _ lending hregistered hever 2
      (shown_lending (by simp))
  · rw [Bool.eq_false_iff, Ne, (registry_along_history _).1]
    intro hshown
    -- The last change retires depth 1.
    have hlast : Shown ([.register loan 1, .delegate loan.handle 2] ++ [.retire 1]) loan.handle 1 :=
      hshown
    rcases shown_append_singleton.mp hlast with hgrants | ⟨-, hne⟩
    · exact hgrants
    · exact hne rfl

end Registry

end CipherCalls
