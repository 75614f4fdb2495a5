/-
# What a registry shows

Each operation on a registry is described here by what can be looked up afterwards.  Lookups
determine everything else: an entry is found under its handle and under no other one, because no
two entries share a handle.

Two properties carry over from one registry to the next.  A registry stays *content addressed*,
and as long as no two different ciphertexts share a digest, the ciphertext that was registered is
the one that is found.
-/
import Mathlib
import CipherCalls.Registry

namespace CipherCalls

/-- No two different ciphertexts of a list have the same handle. -/
def CollisionFree (cs : List Ciphertext) : Prop :=
  ∀ c ∈ cs, ∀ d ∈ cs, c.handle = d.handle → c = d

instance (cs : List Ciphertext) : Decidable (CollisionFree cs) :=
  inferInstanceAs (Decidable (∀ c ∈ cs, ∀ d ∈ cs, c.handle = d.handle → c = d))

lemma CollisionFree.mono {cs ds : List Ciphertext} (h : CollisionFree ds) (hsub : cs ⊆ ds) :
    CollisionFree cs :=
  fun c hc d hd => h c (hsub hc) d (hsub hd)

lemma CollisionFree.singleton (c : Ciphertext) : CollisionFree [c] := by
  intro x hx y hy _
  rw [List.mem_singleton.mp hx, List.mem_singleton.mp hy]

lemma CollisionFree.pair {c d : Ciphertext} (h : c.handle ≠ d.handle) : CollisionFree [c, d] := by
  intro x hx y hy hxy
  simp only [List.mem_cons, List.not_mem_nil, or_false] at hx hy
  rcases hx with rfl | rfl <;> rcases hy with rfl | rfl
  · rfl
  · exact absurd hxy h
  · exact absurd hxy.symm h
  · rfl

namespace Entry

/-- What is left of an entry when a depth is retired. -/
lemma retire?_eq_some_iff {d : Nat} {e e' : Entry} :
    e.retire? d = some e' ↔
      e.depths.filter (· ≠ d) ≠ [] ∧ e' = { e with depths := e.depths.filter (· ≠ d) } := by
  by_cases hd : e.depths.filter (· ≠ d) = [] <;>
    simp only [retire?, hd, if_true, if_false, reduceCtorEq, ne_eq, not_true_eq_false,
      false_and, not_false_eq_true, true_and, Option.some.injEq]
  exact eq_comm

end Entry

namespace Registry

variable {r : Registry} {h h' : Handle} {d d' : Nat} {c c' : Ciphertext} {e e' : Entry}

/-- The ciphertexts of all entries. -/
def ciphertexts (r : Registry) : List Ciphertext := r.entries.map Entry.ciphertext

@[simp] lemma ciphertexts_empty : Registry.empty.ciphertexts = [] := rfl

/-! ## Entries by handle -/

/-- An entry is found under its handle and under no other one. -/
lemma find?_eq_some_iff : r.find? h = some e ↔ e ∈ r.entries ∧ e.handle = h := by
  constructor
  · intro he
    exact ⟨List.mem_of_find?_eq_some he, by simpa using List.find?_some he⟩
  · rintro ⟨he, rfl⟩
    cases hf : r.find? e.handle with
    | none => exact absurd rfl (handle_ne_of_find?_eq_none hf e he)
    | some e' =>
        have hhandle : e'.handle = e.handle := by simpa using List.find?_some hf
        rw [List.inj_on_of_nodup_map r.nodup (List.mem_of_find?_eq_some hf) he hhandle]

@[simp] lemma find?_empty : Registry.empty.find? h = none := rfl

lemma mem_ciphertexts_of_find? (he : r.find? h = some e) : e.ciphertext ∈ r.ciphertexts :=
  List.mem_map_of_mem (find?_eq_some_iff.mp he).1

lemma get?_eq_some_iff :
    r.get? h d = some c ↔ ∃ e, r.find? h = some e ∧ d ∈ e.depths ∧ e.ciphertext = c := by
  simp only [get?, Option.map_eq_some_iff, Option.filter_eq_some_iff, decide_eq_true_eq, and_assoc]

/-! ## Granting a depth -/

lemma find?_grant :
    (r.grant h d).find? h' = (r.find? h').map fun e => if h' = h then e.grant d else e := by
  have hhandle : ((fun e : Entry => decide (e.handle = h')) ∘
      fun e => if e.handle = h then e.grant d else e) = fun e => decide (e.handle = h') := by
    funext e
    by_cases he : e.handle = h <;> simp [he, Entry.grant]
  rw [find?, grant, List.find?_map, hhandle]
  refine Option.map_congr fun e he => ?_
  rw [(find?_eq_some_iff.mp he).2]

/-! ## Registering a ciphertext -/

lemma register_of_find? (he : r.find? c.handle = some e) :
    r.register c d = r.grant c.handle d := by
  unfold register
  dsimp only
  split
  · rfl
  · rename_i hn
    rw [he] at hn
    cases hn

lemma entries_register_of_none (hn : r.find? c.handle = none) :
    (r.register c d).entries = r.entries ++ [⟨c.handle, c, [d]⟩] := by
  unfold register
  dsimp only
  split
  · rename_i he
    rw [hn] at he
    cases he
  · rfl

/-- The entry under a handle once a ciphertext was registered: the entry that was there with one
depth more, or a new one. -/
lemma find?_register :
    (r.register c d).find? h =
      if h = c.handle then
        some ((r.find? c.handle).elim ⟨c.handle, c, [d]⟩ (Entry.grant · d))
      else r.find? h := by
  cases hf : r.find? c.handle with
  | some e =>
      rw [register_of_find? hf, find?_grant]
      by_cases hh : h = c.handle
      · subst hh
        simp [hf]
      · simp [hh]
  | none =>
      rw [find?, entries_register_of_none hf, List.find?_append]
      by_cases hh : h = c.handle
      · subst hh
        have hn : List.find? (fun x => decide (x.handle = c.handle)) r.entries = none := hf
        simp [hn]
      · have hne : ¬c.handle = h := fun hc => hh hc.symm
        simp [hh, hne, find?]

/-- Registering a ciphertext takes nothing away. -/
lemma get?_register_of_some (hc : r.get? h d' = some c') :
    (r.register c d).get? h d' = some c' := by
  obtain ⟨e, he, hd, rfl⟩ := get?_eq_some_iff.mp hc
  rw [get?_eq_some_iff, find?_register]
  by_cases hh : h = c.handle
  · subst hh
    refine ⟨e.grant d, by simp [he], ?_, rfl⟩
    exact List.mem_insert_of_mem hd
  · exact ⟨e, by simpa [hh] using he, hd, rfl⟩

/-- A ciphertext that was not there before is visible once it is registered. -/
lemma get?_register_new (hn : r.find? c.handle = none) :
    (r.register c d).get? c.handle d = some c := by
  rw [get?_eq_some_iff, find?_register, if_pos rfl, hn]
  exact ⟨_, rfl, List.mem_singleton.mpr rfl, rfl⟩

lemma ciphertexts_register_subset : (r.register c d).ciphertexts ⊆ c :: r.ciphertexts := by
  intro x hx
  cases hf : r.find? c.handle with
  | some e =>
      rw [register_of_find? hf] at hx
      -- Nothing but the depths of an entry has changed.
      refine List.mem_cons_of_mem _ ?_
      obtain ⟨e', he', rfl⟩ := List.mem_map.mp hx
      obtain ⟨e₀, he₀, rfl⟩ := List.mem_map.mp he'
      refine List.mem_map.mpr ⟨e₀, he₀, ?_⟩
      split <;> rfl
  | none =>
      rw [ciphertexts, entries_register_of_none hf] at hx
      simpa [ciphertexts, or_comm] using hx

/-! ## Retiring a depth -/

lemma find?_retire : (r.retire d).find? h = (r.find? h).bind (Entry.retire? d) := by
  ext e'
  rw [find?_eq_some_iff, Option.bind_eq_some_iff]
  constructor
  · rintro ⟨hmem, rfl⟩
    obtain ⟨e, he, hretire⟩ := List.mem_filterMap.mp hmem
    refine ⟨e, find?_eq_some_iff.mpr ⟨he, ?_⟩, hretire⟩
    rw [(Entry.retire?_eq_some_iff.mp hretire).2]
  · rintro ⟨e, he, hretire⟩
    obtain ⟨hmem, rfl⟩ := find?_eq_some_iff.mp he
    refine ⟨List.mem_filterMap.mpr ⟨e, hmem, hretire⟩, ?_⟩
    rw [(Entry.retire?_eq_some_iff.mp hretire).2]

/-! ## Content addressing -/

lemma contentAddressed_empty : Registry.empty.ContentAddressed := by
  intro e he
  cases he

/-- A registry is content addressed if whatever is found under a handle has that handle. -/
lemma contentAddressed_iff :
    r.ContentAddressed ↔ ∀ h e, r.find? h = some e → e.ciphertext.handle = h := by
  constructor
  · intro hr h e he
    obtain ⟨hmem, rfl⟩ := find?_eq_some_iff.mp he
    exact (hr e hmem).symm
  · intro hr e he
    exact (hr e.handle e (find?_eq_some_iff.mpr ⟨he, rfl⟩)).symm

namespace ContentAddressed

lemma register (hr : r.ContentAddressed) : (r.register c d).ContentAddressed := by
  rw [contentAddressed_iff] at hr ⊢
  intro h e he
  rw [find?_register] at he
  split at he
  · rename_i hh
    subst hh
    cases hf : r.find? c.handle with
    | none =>
        rw [hf] at he
        obtain rfl := Option.some.inj he
        rfl
    | some e₀ =>
        rw [hf] at he
        obtain rfl := Option.some.inj he
        -- The entry that was there keeps its ciphertext.
        show e₀.ciphertext.handle = c.handle
        exact hr c.handle e₀ hf
  · exact hr h e he

lemma grant (hr : r.ContentAddressed) : (r.grant h d).ContentAddressed := by
  rw [contentAddressed_iff] at hr ⊢
  intro h' e he
  rw [find?_grant, Option.map_eq_some_iff] at he
  obtain ⟨e₀, he₀, rfl⟩ := he
  have := hr h' e₀ he₀
  split <;> exact this

lemma retire (hr : r.ContentAddressed) : (r.retire d).ContentAddressed := by
  rw [contentAddressed_iff] at hr ⊢
  intro h e he
  rw [find?_retire, Option.bind_eq_some_iff] at he
  obtain ⟨e₀, he₀, hretire⟩ := he
  rw [(Entry.retire?_eq_some_iff.mp hretire).2]
  exact hr h e₀ he₀

/-- What was registered is found under its handle, unless a different ciphertext of the same
handle was there before. -/
lemma find?_register_self (hr : r.ContentAddressed) (hfree : CollisionFree (c :: r.ciphertexts)) :
    ∃ e, (r.register c d).find? c.handle = some e ∧ d ∈ e.depths ∧ e.ciphertext = c := by
  rw [find?_register, if_pos rfl]
  cases hf : r.find? c.handle with
  | none => exact ⟨_, rfl, List.mem_singleton.mpr rfl, rfl⟩
  | some e =>
      -- The entry that was there holds a ciphertext of the same handle.
      refine ⟨_, rfl, List.mem_insert_self, ?_⟩
      have hmem := List.mem_cons_of_mem c (mem_ciphertexts_of_find? hf)
      exact hfree _ hmem c List.mem_cons_self (contentAddressed_iff.mp hr _ e hf)

lemma get?_register_self (hr : r.ContentAddressed) (hfree : CollisionFree (c :: r.ciphertexts)) :
    (r.register c d).get? c.handle d = some c :=
  get?_eq_some_iff.mpr (hr.find?_register_self hfree)

end ContentAddressed

end Registry

end CipherCalls
