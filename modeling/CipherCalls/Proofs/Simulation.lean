/-
# Simulating a real run

A program is run twice, once while estimating and once for real.  The two runs hold different
handles, and equal results share a handle in the real run only.  Yet whatever the estimating run
shows under a reference is covered by what the real one shows under it.  This is the relation
`Simulates`, and here it is shown to be preserved by what the host does and by calls.

Two things are needed for it.  The stand-ins have to be *fresh*, that is, their handles are
different from each other and from those that were there before; otherwise two references would
become one in the estimating run.  And no two different ciphertexts of the real run may share a
digest, because the second one would be taken for the first one.
-/
import Mathlib
import CipherCalls.Engine.Clear
import CipherCalls.Proofs.Coverage
import CipherCalls.Proofs.Performing

namespace CipherCalls

/-! ## Assumptions on the two runs -/

/-- Handles that are different from each other and unknown to a registry. -/
def FreshOutputs (r : Registry) (outputs : List Handle) : Prop :=
  outputs.Nodup ∧ ∀ h ∈ outputs, r.find? h = none

lemma FreshOutputs.of_append {r : Registry} {outputs outputs' : List Handle}
    (h : FreshOutputs r (outputs ++ outputs')) : FreshOutputs r outputs :=
  ⟨(List.nodup_append.mp h.1).1, fun x hx => h.2 x (List.mem_append_left _ hx)⟩

/-- The ciphertexts that the clear engine gave in answer to some questions. -/
def Clear.answers (calls : List Engine.Call) : List Ciphertext :=
  calls.filterMap fun
    | .produce request => (Clear.produce request).toOption
    | .decrypt _ => none

lemma Clear.answers_subset {calls calls' : List Engine.Call} (h : calls <+: calls') :
    answers calls ⊆ answers calls' :=
  List.filterMap_subset _ h.subset

lemma collisionFree_of_calls {cs : List Ciphertext} {calls calls' : List Engine.Call}
    (h : calls <+: calls') (hfree : CollisionFree (cs ++ Clear.answers calls')) :
    CollisionFree (cs ++ Clear.answers calls) := by
  refine hfree.mono (List.append_subset.mpr ⟨List.subset_append_left _ _, ?_⟩)
  exact List.Subset.trans (Clear.answers_subset h) (List.subset_append_right _ _)

lemma Clear.mem_answers {calls : List Engine.Call} {request : Engine.Request} {c : Ciphertext}
    (hmem : .produce request ∈ calls) (hc : Clear.produce request = .ok c) : c ∈ answers calls := by
  refine List.mem_filterMap.mpr ⟨.produce request, hmem, ?_⟩
  simp only [hc]
  rfl

lemma Clear.width_of_combine {f : UInt64 → UInt64 → UInt64} {x y c : Ciphertext}
    (hc : Clear.combine f x y = .ok c) : c.width = x.width := by
  rw [Clear.combine] at hc
  split at hc
  · cases hc
  · obtain ⟨a, -, hc⟩ := bind_eq_ok hc
    obtain ⟨b, -, hc⟩ := bind_eq_ok hc
    cases hc
    rfl

/-- The answer to a request has the width of the request. -/
lemma Clear.width_of_produce {request : Engine.Request} {c : Ciphertext}
    (hc : Clear.produce request = .ok c) : c.width = request.width := by
  cases request with
  | add x y | sub x y | bitAnd x y => exact Clear.width_of_combine hc
  | addScalar x v | subScalar x v =>
      obtain ⟨u, -, hc⟩ := bind_eq_ok hc
      cases hc
      rfl
  | cast x w =>
      obtain ⟨u, -, hc⟩ := map_eq_ok hc
      cases hc
      rfl
  | encrypt v w =>
      cases hc
      rfl

/-! ## The simulation -/

/-- The handles that a reference may have in two runs: an entry of the initial registry has the
same handle in both, and an output has the handles at one position of the two lists. -/
def Paired (r : Registry) (outputs outputs' : List Handle) (h h' : Handle) : Prop :=
  h' = h ∧ (r.find? h).isSome ∨ (h, h') ∈ outputs.zip outputs'

/-- An estimating run simulates a real one. -/
structure Simulates (r : Registry) (p p' : Progress) : Prop where
  real : p'.context.mode ≠ .estimating
  /-- The mode is the only setting that differs. -/
  settings : p.context.settings = { p'.context.settings with mode := .estimating }
  contentAddressed : p'.registry.ContentAddressed
  ciphertexts : p'.registry.ciphertexts ⊆ r.ciphertexts ++ Clear.answers p'.calls
  /-- Everything in the estimating run has a reference. -/
  handles : ∀ h e, p.registry.find? h = some e → (r.find? h).isSome ∨ h ∈ p.outputs
  length : p'.outputs.length = p.outputs.length
  covered : ∀ h h', Paired r p.outputs p'.outputs h h' → Covered p.registry p'.registry h h'

namespace Simulates

variable {r : Registry} {p p' q q' : Progress}

lemma estimating (hsim : Simulates r p p') : p.context.mode = .estimating :=
  congrArg Context.mode hsim.settings

lemma depth_eq (hsim : Simulates r p p') : p.context.depth = p'.context.depth :=
  (congrArg Context.depth hsim.settings :)

lemma params_eq (hsim : Simulates r p p') : p.context.params = p'.context.params :=
  (congrArg Context.params hsim.settings :)

lemma gasLimit_eq (hsim : Simulates r p p') : p.context.gasLimit = p'.context.gasLimit :=
  (congrArg Context.gasLimit hsim.settings :)

lemma publicKey_eq (hsim : Simulates r p p') : p.context.publicKey = p'.context.publicKey :=
  (congrArg Context.publicKey hsim.settings :)

lemma recordedHash_eq (hsim : Simulates r p p') :
    p.context.recordedHash = p'.context.recordedHash :=
  (congrArg Context.recordedHash hsim.settings :)

/-- Whatever the estimating run shows under a reference, the real one shows as well. -/
lemma shows (hsim : Simulates r p p') {h h' : Handle} (hpair : Paired r p.outputs p'.outputs h h') :
    p.context.Shows p'.context h h' := by
  intro x hx
  have hshown := (hsim.covered h h' hpair).get? hx
  rwa [hsim.depth_eq] at hshown

/-- The handles of a valid reference are paired. -/
lemma paired (hsim : Simulates r p p') {ref : Ref} (hvalid : ref.Valid r p.outputs.length) :
    Paired r p.outputs p'.outputs (ref.handle p.outputs) (ref.handle p'.outputs) := by
  cases ref with
  | entry h => exact .inl ⟨rfl, hvalid⟩
  | output i =>
      have hi : i < p.outputs.length := hvalid
      have hi' : i < p'.outputs.length := hsim.length ▸ hi
      refine .inr (List.mem_iff_getElem.mpr ⟨i, ?_, ?_⟩)
      · rw [List.length_zip]
        omega
      · rw [List.getElem_zip, Ref.handle, Ref.handle, List.getD_eq_getElem _ _ hi,
          List.getD_eq_getElem _ _ hi']

/-- A fresh handle is paired with one handle only. -/
lemma pair_unique {outputs outputs' : List Handle} (hfresh : FreshOutputs r outputs)
    {h h' k' : Handle} (hpair : Paired r outputs outputs' h h')
    (hpair' : Paired r outputs outputs' h k') : h' = k' := by
  have hnot {x y : Handle} (hmem : (x, y) ∈ outputs.zip outputs') : ¬(r.find? x).isSome := by
    rw [hfresh.2 x (List.of_mem_zip hmem).1]
    exact Bool.false_ne_true
  rcases hpair with ⟨rfl, hknown⟩ | hmem
  · rcases hpair' with ⟨rfl, -⟩ | hmem'
    · rfl
    · exact absurd hknown (hnot hmem')
  · rcases hpair' with ⟨rfl, hknown⟩ | hmem'
    · exact absurd hknown (hnot hmem)
    · -- All outputs are different, so that the handle stands at one position only.
      obtain ⟨i, hi, heq⟩ := List.mem_iff_getElem.mp hmem
      obtain ⟨j, hj, heq'⟩ := List.mem_iff_getElem.mp hmem'
      rw [List.getElem_zip, Prod.mk.injEq] at heq heq'
      obtain rfl : i = j := hfresh.1.getElem_inj_iff.mp (heq.1.trans heq'.1.symm)
      exact heq.2.symm.trans heq'.2

/-- At the start everything is the same but the mode. -/
lemma start {c : Context} (hreal : c.mode ≠ .estimating)
    (hcontent : c.vault.registry.ContentAddressed) :
    Simulates c.vault.registry (.start { c with mode := .estimating }) (.start c) where
  real := hreal
  settings := rfl
  contentAddressed := hcontent
  ciphertexts := List.subset_append_left _ _
  handles h e he := .inl (by rw [show c.vault.registry.find? h = some e from he]; rfl)
  length := rfl
  covered h h' hpair := by
    rcases hpair with ⟨rfl, -⟩ | hmem
    · exact Covered.refl _ _
    · cases hmem

/-! ## What the host does -/

lemma setDepth (hsim : Simulates r p p') (d : Nat) :
    Simulates r (p.mapContext (·.setDepth d)) (p'.mapContext (·.setDepth d)) :=
  { hsim with
    real := hsim.real
    settings := congrArg (Context.setDepth · d) hsim.settings }

lemma retire (hsim : Simulates r p p') (d : Nat) :
    Simulates r (p.mapContext (·.retire d)) (p'.mapContext (·.retire d)) where
  real := hsim.real
  settings := hsim.settings
  contentAddressed := hsim.contentAddressed.retire
  ciphertexts := List.Subset.trans Registry.ciphertexts_retire_subset hsim.ciphertexts
  handles h e he := by
    obtain ⟨e₀, he₀, -⟩ := Option.bind_eq_some_iff.mp (Registry.find?_retire.symm.trans he)
    exact hsim.handles h e₀ he₀
  length := hsim.length
  covered h h' hpair := (hsim.covered h h' hpair).retire

/-- A delegation of a pair.  The depth is granted to one handle of the estimating run, and as this
is fresh, it is granted to whatever covers it. -/
lemma delegate (hsim : Simulates r p p') (hfresh : FreshOutputs r p.outputs) {k k' : Handle}
    (hpair : Paired r p.outputs p'.outputs k k') (d : Nat) :
    Simulates r (p.mapContext (·.delegate k d)) (p'.mapContext (·.delegate k' d)) := by
  have hregistry : (p.mapContext (·.delegate k d)).registry = p.registry.grant k d :=
    Registry.getD_delegate?
  have hregistry' : (p'.mapContext (·.delegate k' d)).registry = p'.registry.grant k' d :=
    Registry.getD_delegate?
  exact
    { real := hsim.real
      settings := hsim.settings
      contentAddressed := by
        rw [hregistry']
        exact hsim.contentAddressed.grant
      ciphertexts := by
        rw [hregistry', Registry.ciphertexts_grant]
        exact hsim.ciphertexts
      handles := fun h e he => by
        rw [hregistry, Registry.find?_grant, Option.map_eq_some_iff] at he
        obtain ⟨e₀, he₀, -⟩ := he
        exact hsim.handles h e₀ he₀
      length := hsim.length
      covered := fun h h' hpair' => by
        rw [hregistry, hregistry']
        have hcov := hsim.covered h h' hpair'
        by_cases hh : h = k
        · -- The fresh handle has one partner, and it is this one that gains the depth as well.
          subst hh
          obtain rfl := pair_unique hfresh hpair hpair'
          exact hcov.grant
        · exact hcov.grant_right.grant_left_of_ne hh }

/-! ## What calls do -/

/-- The real registry holds nothing but what was there and what the engine answered so far. -/
lemma ciphertexts_of_calls (hsim : Simulates r p p') {calls : List Engine.Call}
    (hcalls : p'.calls <+: calls) :
    p'.registry.ciphertexts ⊆ r.ciphertexts ++ Clear.answers calls := by
  refine List.Subset.trans hsim.ciphertexts ?_
  exact List.append_subset.mpr ⟨List.subset_append_left _ _,
    List.Subset.trans (Clear.answers_subset hcalls) (List.subset_append_right _ _)⟩

/-- A fresh handle has no entry in the estimating run. -/
lemma find?_eq_none (hsim : Simulates r p p') {h : Handle}
    (hfresh : FreshOutputs r (p.outputs ++ [h])) :
    r.find? h = none ∧ h ∉ p.outputs ∧ p.registry.find? h = none := by
  have hunknown : r.find? h = none := hfresh.2 h (by simp)
  have hunused : h ∉ p.outputs := by
    intro hmem
    exact (List.nodup_append.mp hfresh.1).2.2 h hmem h (List.mem_singleton.mpr rfl) rfl
  refine ⟨hunknown, hunused, ?_⟩
  cases hf : p.registry.find? h with
  | none => rfl
  | some e =>
      rcases hsim.handles h e hf with hknown | hmem
      · rw [hunknown] at hknown
        cases hknown
      · exact absurd hmem hunused

/-- Calls that leave both registries alone. -/
lemma of_quiet (hsim : Simulates r p p') (hq : p.Quiet q) (hq' : p'.Quiet q') :
    Simulates r q q' where
  real := by
    rw [show q'.context.mode = p'.context.mode from (congrArg Context.mode hq'.settings :)]
    exact hsim.real
  settings := by rw [hq.settings, hq'.settings, hsim.settings]
  contentAddressed := by
    rw [hq'.registry]
    exact hsim.contentAddressed
  ciphertexts := by
    rw [hq'.registry]
    exact hsim.ciphertexts_of_calls hq'.calls
  handles h e he := by
    rw [hq.registry] at he
    rw [hq.outputs]
    exact hsim.handles h e he
  length := by rw [hq.outputs, hq'.outputs, hsim.length]
  covered h h' hpair := by
    rw [hq.outputs, hq'.outputs] at hpair
    rw [hq.registry, hq'.registry]
    exact hsim.covered h h' hpair

/-- A call that produces a ciphertext, of the same width in both runs.  In the estimating run its
handle is new, so that nothing is known of it; in the real run it may have been there before. -/
lemma of_register (hsim : Simulates r p p') {c c' : Ciphertext}
    (hcontext : q.context = p.context.register c)
    (hcontext' : q'.context = p'.context.register c')
    (houtputs : q.outputs = p.outputs ++ [c.handle])
    (houtputs' : q'.outputs = p'.outputs ++ [c'.handle]) (hcalls : p'.calls <+: q'.calls)
    (hanswer : c' ∈ Clear.answers q'.calls) (hw : c'.width = c.width)
    (hfresh : FreshOutputs r q.outputs)
    (hfree : CollisionFree (r.ciphertexts ++ Clear.answers q'.calls)) : Simulates r q q' := by
  have hregistry : q.registry = p.registry.register c p.context.depth :=
    congrArg (·.vault.registry) hcontext
  have hregistry' : q'.registry = p'.registry.register c' p'.context.depth :=
    congrArg (·.vault.registry) hcontext'
  rw [houtputs] at hfresh
  -- Both the new ciphertext and all earlier ones are among those without collisions.
  have hsubset : c' :: p'.registry.ciphertexts ⊆ r.ciphertexts ++ Clear.answers q'.calls :=
    List.cons_subset.mpr
      ⟨List.mem_append_right _ hanswer, hsim.ciphertexts_of_calls hcalls⟩
  obtain ⟨hunknown, hunused, hnew⟩ := hsim.find?_eq_none hfresh
  exact
    { real := by
        rw [hcontext']
        exact hsim.real
      settings := by
        rw [hcontext, hcontext']
        exact hsim.settings
      contentAddressed := by
        rw [hregistry']
        exact hsim.contentAddressed.register
      ciphertexts := by
        rw [hregistry']
        exact List.Subset.trans Registry.ciphertexts_register_subset hsubset
      handles := fun h e he => by
        rw [hregistry, Registry.find?_register] at he
        rw [houtputs]
        split at he
        · rename_i hh
          exact .inr (List.mem_append_right _ (List.mem_singleton.mpr hh))
        · exact (hsim.handles h e he).imp_right (List.mem_append_left _)
      length := by
        rw [houtputs, houtputs', List.length_append, List.length_append, hsim.length]
        rfl
      covered := fun h h' hpair => by
        rw [houtputs, houtputs', Paired, List.zip_append hsim.length.symm, List.mem_append,
          ← or_assoc] at hpair
        rw [hregistry, hregistry']
        -- A pair was there before, or it is the pair of the two new outputs.
        rcases hpair with hpair | hmem
        · have hne : h ≠ c.handle := by
            rintro rfl
            rcases hpair with ⟨-, hknown⟩ | hmem
            · rw [hunknown] at hknown
              cases hknown
            · exact hunused (List.of_mem_zip hmem).1
          exact (hsim.covered h h' hpair).register_right.register_left_of_ne hne
        · obtain ⟨rfl, rfl⟩ := Prod.mk.inj (List.mem_singleton.mp hmem)
          rw [hsim.depth_eq]
          exact Covered.register_new hnew hsim.contentAddressed (hfree.mono hsubset) hw }

end Simulates

end CipherCalls
