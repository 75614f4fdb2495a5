/-
# Registries that cover each other

An entry of one registry is *covered* by an entry of another one, under a handle of its own, if the
latter has the same width and is visible at all depths at which the former is.  This is preserved
by whatever happens to both registries, and by whatever is only added to the covering one.

It is a one-sided notion: the covering registry may show more.
-/
import Mathlib
import CipherCalls.Proofs.History
import CipherCalls.Proofs.Visibility

namespace CipherCalls

namespace Registry

variable {r r' : Registry} {h h' k : Handle} {c c' : Ciphertext} {d : Nat}

/-! ## Delegation and ciphertexts -/

lemma eq_of_entries (he : r.entries = r'.entries) : r = r' := by
  cases r
  cases r'
  cases he
  rfl

lemma grant_of_find?_eq_none (hn : r.find? h = none) : r.grant h d = r := by
  have hne := handle_ne_of_find?_eq_none hn
  refine eq_of_entries ((List.map_congr_left fun e he => if_neg (hne e he)).trans ?_)
  exact List.map_id r.entries

/-- An unknown handle cannot be delegated, and granting it a depth does nothing. -/
lemma getD_delegate? : (r.delegate? h d).getD r = r.grant h d := by
  rw [delegate?]
  cases hf : r.find? h with
  | some e => rfl
  | none => exact (grant_of_find?_eq_none hf).symm

lemma ciphertexts_grant : (r.grant h d).ciphertexts = r.ciphertexts := by
  rw [ciphertexts, grant, List.map_map]
  refine List.map_congr_left fun e _ => ?_
  show (if e.handle = h then e.grant d else e).ciphertext = e.ciphertext
  split <;> rfl

lemma ciphertexts_retire_subset : (r.retire d).ciphertexts ⊆ r.ciphertexts := by
  intro x hx
  obtain ⟨e', he', rfl⟩ := List.mem_map.mp hx
  obtain ⟨e, he, hretire⟩ := List.mem_filterMap.mp he'
  rw [(Entry.retire?_eq_some_iff.mp hretire).2]
  exact List.mem_map.mpr ⟨e, he, rfl⟩

end Registry

/-! ## Covering -/

/-- What a registry has under a handle is covered by what another one has under another handle. -/
def Covered (r r' : Registry) (h h' : Handle) : Prop :=
  ∀ e, r.find? h = some e →
    ∃ e', r'.find? h' = some e' ∧ e'.ciphertext.width = e.ciphertext.width ∧ e.depths ⊆ e'.depths

namespace Covered

variable {r r' : Registry} {h h' k : Handle} {c c' : Ciphertext} {d : Nat}

lemma refl (r : Registry) (h : Handle) : Covered r r h h :=
  fun e he => ⟨e, he, rfl, List.Subset.refl e.depths⟩

/-- A covered ciphertext is shown wherever the covering one is not hidden. -/
lemma get? (hcov : Covered r r' h h') {x : Ciphertext} (hx : r.get? h d = some x) :
    ∃ x', r'.get? h' d = some x' ∧ x'.width = x.width := by
  obtain ⟨e, he, hd, rfl⟩ := Registry.get?_eq_some_iff.mp hx
  obtain ⟨e', he', hw, hsub⟩ := hcov e he
  exact ⟨e'.ciphertext, Registry.get?_eq_some_iff.mpr ⟨e', he', hsub hd, rfl⟩, hw⟩

/-- Retiring a depth on both sides.  If another depth is left to the covered entry, it is left to
the covering one as well. -/
lemma retire (hcov : Covered r r' h h') : Covered (r.retire d) (r'.retire d) h h' := by
  intro e he
  rw [Registry.find?_retire, Option.bind_eq_some_iff] at he
  obtain ⟨e₀, he₀, hretire⟩ := he
  obtain ⟨hleft, rfl⟩ := Entry.retire?_eq_some_iff.mp hretire
  obtain ⟨e', he', hw, hsub⟩ := hcov e₀ he₀
  have hfilter : e₀.depths.filter (· ≠ d) ⊆ e'.depths.filter (· ≠ d) := List.filter_subset _ hsub
  have hleft' : e'.depths.filter (· ≠ d) ≠ [] := by
    intro hnil
    rw [hnil] at hfilter
    exact hleft (List.subset_nil.mp hfilter)
  refine ⟨{ e' with depths := e'.depths.filter (· ≠ d) }, ?_, hw, hfilter⟩
  rw [Registry.find?_retire, he']
  exact Entry.retire?_eq_some_iff.mpr ⟨hleft', rfl⟩

/-- Granting a depth to the covering registry only. -/
lemma grant_right (hcov : Covered r r' h h') : Covered r (r'.grant k d) h h' := by
  intro e he
  obtain ⟨e', he', hw, hsub⟩ := hcov e he
  refine ⟨if h' = k then e'.grant d else e', ?_, ?_, ?_⟩
  · rw [Registry.find?_grant, he']
    rfl
  · split <;> exact hw
  · split
    · exact List.Subset.trans hsub (List.subset_insert d e'.depths)
    · exact hsub

/-- Granting a depth to another handle of the covered registry. -/
lemma grant_left_of_ne (hcov : Covered r r' h h') (hne : h ≠ k) :
    Covered (r.grant k d) r' h h' := by
  intro e he
  rw [Registry.find?_grant, Option.map_eq_some_iff] at he
  obtain ⟨e₀, he₀, rfl⟩ := he
  rw [if_neg hne]
  exact hcov e₀ he₀

/-- Granting a depth to the handles of both sides. -/
lemma grant (hcov : Covered r r' h h') : Covered (r.grant h d) (r'.grant h' d) h h' := by
  intro e he
  rw [Registry.find?_grant, Option.map_eq_some_iff] at he
  obtain ⟨e₀, he₀, rfl⟩ := he
  obtain ⟨e', he', hw, hsub⟩ := hcov e₀ he₀
  refine ⟨e'.grant d, ?_, ?_, ?_⟩
  · rw [Registry.find?_grant, he', Option.map_some, if_pos rfl]
  · rw [if_pos rfl]
    exact hw
  · rw [if_pos rfl]
    intro x hx
    rcases List.mem_insert_iff.mp hx with rfl | hx
    · exact List.mem_insert_self
    · exact List.mem_insert_of_mem (hsub hx)

/-- Registering a ciphertext in the covering registry only. -/
lemma register_right (hcov : Covered r r' h h') : Covered r (r'.register c d) h h' := by
  intro e he
  obtain ⟨e', he', hw, hsub⟩ := hcov e he
  by_cases hh : h' = c.handle
  · -- The covering entry is there already, so that it only gains a depth.
    subst hh
    rw [Registry.register_of_find? he']
    exact hcov.grant_right e he
  · refine ⟨e', ?_, hw, hsub⟩
    rw [Registry.find?_register, if_neg hh, he']

/-- Registering a ciphertext of another handle in the covered registry. -/
lemma register_left_of_ne (hcov : Covered r r' h h') (hne : h ≠ c.handle) :
    Covered (r.register c d) r' h h' := by
  intro e he
  rw [Registry.find?_register, if_neg hne] at he
  exact hcov e he

/-- Registering two ciphertexts of one width, the first of which is new. -/
lemma register_new (hnew : r.find? c.handle = none) (hr' : r'.ContentAddressed)
    (hfree : CollisionFree (c' :: r'.ciphertexts)) (hw : c'.width = c.width) :
    Covered (r.register c d) (r'.register c' d) c.handle c'.handle := by
  intro e he
  rw [Registry.find?_register, if_pos rfl, hnew] at he
  obtain rfl := Option.some.inj he
  -- The covered entry is visible at the depth `d` only.
  obtain ⟨e', he', hd, rfl⟩ := hr'.find?_register_self (d := d) hfree
  refine ⟨e', he', hw, fun x hx => ?_⟩
  rw [List.mem_singleton.mp hx]
  exact hd

end Covered

end CipherCalls
