/-
# Depths are isolated

All call depths share one registry, with one entry for each handle.  Nevertheless whatever is done
at one depth, be it by calls or by the host, leaves the lookups at all other depths as they were;
and what is visible at the depth itself remains so, with the same ciphertext, until this depth is
retired.

A registry is only touched by *changes*, each of which works at one depth, and a history of a
session makes the changes `Session.changes`.  So the isolation of depths is a property of changes.

As calls see nothing but their own depth, nobody there can tell what was done at other depths.  It
takes an engine that does not remember, and different ciphertexts must have different digests:
otherwise one that another depth has registered could be found in place of a result.
-/
import Mathlib
import CipherCalls.Proofs.Agreement
import CipherCalls.Proofs.Grants
import CipherCalls.Proofs.StandIns

namespace CipherCalls

/-! ## Changes of a registry -/

namespace Registry

/-- The depth at which a change works. -/
def Change.depth : Change → Nat
  | register _ d | delegate _ d | retire d => d

/-- The registry after some changes. -/
def after (r : Registry) (changes : List Change) : Registry := changes.foldl Change.apply r

section Changes

variable {r : Registry} {x : Change} {changes : List Change} {h h' : Handle} {d d' : Nat}
  {c c' : Ciphertext}

/-- A lookup finds an entry first, and then asks for its depths. -/
lemma get?_eq_bind :
    r.get? h d = (r.find? h).bind fun e => if d ∈ e.depths then some e.ciphertext else none := by
  rw [get?]
  cases r.find? h with
  | none => rfl
  | some e => by_cases hd : d ∈ e.depths <;> simp [hd]

/-- A handle that is granted a depth is visible there, if it is known. -/
lemma get?_grant :
    (r.grant h' d').get? h d =
      if h = h' ∧ d = d' then (r.find? h).map Entry.ciphertext else r.get? h d := by
  rw [get?_eq_bind, get?_eq_bind, find?_grant]
  cases r.find? h with
  | none => simp
  | some e => by_cases hh : h = h' <;> by_cases hd : d = d' <;> simp [hh, hd, Entry.grant]

/-- What is registered at a depth is visible there, unless the handle belongs to another ciphertext
already. -/
lemma get?_register :
    (r.register c d').get? h d =
      if h = c.handle ∧ d = d' then some ((r.find? h).elim c Entry.ciphertext) else r.get? h d := by
  rw [get?_eq_bind, get?_eq_bind, find?_register]
  by_cases hh : h = c.handle
  · subst hh
    cases r.find? c.handle with
    | none => by_cases hd : d = d' <;> simp [hd]
    | some e => by_cases hd : d = d' <;> simp [hd, Entry.grant]
  · simp [hh]

/-- Nothing is visible at a depth that was retired. -/
lemma get?_retire : (r.retire d').get? h d = if d = d' then none else r.get? h d := by
  rw [get?_eq_bind, get?_eq_bind, find?_retire]
  cases r.find? h with
  | none => simp
  | some e =>
      rw [Option.bind_some, Option.bind_some, Entry.retire?]
      split
      · -- If no depth is left, then the only one was that which is retired.
        rename_i hleft
        have hmem : d ∈ e.depths → d = d' := by simpa using List.filter_eq_nil_iff.mp hleft d
        by_cases hd : d = d'
        · simp [hd]
        · simp [hd, mt hmem hd]
      · by_cases hd : d = d' <;> simp [hd]

/-- A change makes no difference to other depths than its own. -/
lemma get?_apply_of_ne (hne : x.depth ≠ d) : (x.apply r).get? h d = r.get? h d := by
  cases x with
  | register c d' => rw [Change.apply, get?_register, if_neg fun hh => hne hh.2.symm]
  | delegate h' d' => rw [Change.apply, getD_delegate?, get?_grant, if_neg fun hh => hne hh.2.symm]
  | retire d' => rw [Change.apply, get?_retire, if_neg fun hd => hne hd.symm]

/-- What is visible at a depth remains so, unless the depth is retired. -/
lemma get?_apply_of_some (hc : r.get? h d = some c) (hne : x ≠ .retire d) :
    (x.apply r).get? h d = some c := by
  obtain ⟨e, he, -, rfl⟩ := get?_eq_some_iff.mp hc
  cases x with
  | register c' d' => exact get?_register_of_some hc
  | delegate h' d' =>
      rw [Change.apply, getD_delegate?, get?_grant, he]
      split
      · rfl
      · exact hc
  | retire d' =>
      have hd : d ≠ d' := by
        rintro rfl
        exact hne rfl
      rw [Change.apply, get?_retire, if_neg hd, hc]

/-- Changes at other depths make no difference, however many they are. -/
lemma get?_after_of_ne (hne : ∀ x ∈ changes, x.depth ≠ d) :
    (r.after changes).get? h d = r.get? h d := by
  induction changes generalizing r with
  | nil => rfl
  | cons x changes ih =>
      obtain ⟨hx, hrest⟩ := List.forall_mem_cons.mp hne
      exact (ih hrest).trans (get?_apply_of_ne hx)

/-- What is visible at a depth remains so until the depth is retired. -/
lemma get?_after_of_some (hc : r.get? h d = some c) (hkept : .retire d ∉ changes) :
    (r.after changes).get? h d = some c := by
  induction changes generalizing r with
  | nil => exact hc
  | cons x changes ih =>
      obtain ⟨hx, hrest⟩ := not_or.mp (List.mem_cons.not.mp hkept)
      exact ih (get?_apply_of_some hc (Ne.symm hx)) hrest

lemma ContentAddressed.after (hr : r.ContentAddressed) : (r.after changes).ContentAddressed := by
  induction changes generalizing r with
  | nil => exact hr
  | cons x changes ih => exact ih hr.apply

end Changes

end Registry

/-! ## The changes that a session makes -/

/-- What a step changes in the registry. -/
def Step.change? (b : Backend) (s : Session) : Step → Option Registry.Change
  | run input => (s.effect b input).ciphertext?.map (.register · s.context.depth)
  | register c => some (.register c s.context.depth)
  | delegate h d => some (.delegate h d)
  | retire d => some (.retire d)
  | meter .. | setDepth _ | handOver _ | settle => none

/-- What a history changes in the registry. -/
def Session.changes (b : Backend) (s : Session) : List Step → List Registry.Change
  | [] => []
  | x :: steps => (x.change? b s).toList ++ (x.apply b s).changes b steps

/-- A session to which a history leads from a fresh one. -/
def Session.Reachable (s : Session) : Prop :=
  ∃ b settings steps, s = (Session.fresh settings).after b steps

section Sessions

variable {b : Backend} {s : Session} {steps : List Step} {x : Step} {y : Registry.Change}
  {d : Nat}

lemma registry_apply :
    (x.apply b s).context.vault.registry =
      s.context.vault.registry.after (x.change? b s).toList := by
  cases x with
  | run input =>
      rw [Step.apply, context_run, Step.change?]
      cases s.effect b input <;> rfl
  | settle =>
      rw [Step.apply, context_settleRequires]
      rfl
  | meter supplied input =>
      rw [Step.apply, Session.context_logAll]
      rfl
  | register | delegate | retire | setDepth | handOver => rfl

/-- The registry after a history is the registry before it with the changes made. -/
theorem registry_after :
    (s.after b steps).context.vault.registry =
      s.context.vault.registry.after (s.changes b steps) := by
  induction steps generalizing s with
  | nil => rfl
  | cons x steps ih =>
      rw [Session.after_cons, ih, registry_apply, Session.changes, Registry.after, Registry.after,
        Registry.after, List.foldl_append]

/-- Whatever has happened so far, the registry is content addressed. -/
lemma Session.Reachable.contentAddressed (h : s.Reachable) :
    s.context.vault.registry.ContentAddressed := by
  obtain ⟨b, settings, steps, rfl⟩ := h
  rw [registry_after]
  exact Registry.contentAddressed_empty.after

/-! ## Steps at one depth -/

/-- A step of a session at a depth that works at this depth, and does not leave it. -/
def Step.At (d : Nat) : Step → Prop
  | run _ | meter .. | register _ | settle => True
  | delegate _ d' | retire d' | setDepth d' => d' = d
  | handOver settings => settings.depth = d

lemma depth_apply (hd : s.context.depth = d) (hx : x.At d) : (x.apply b s).context.depth = d := by
  cases x with
  | run input =>
      have hsettings := (run_framed b input s).1
      exact (congrArg Context.depth hsettings :).trans hd
  | settle =>
      rw [Step.apply, context_settleRequires]
      exact hd
  | meter supplied input =>
      rw [Step.apply, Session.context_logAll]
      exact hd
  | register | delegate | retire => exact hd
  | setDepth | handOver => exact hx

/-- What a step at a depth changes, it changes there; and only a retirement retires the depth. -/
lemma change_of_at (hd : s.context.depth = d) (hx : x.At d) (hy : x.change? b s = some y) :
    y.depth = d ∧ (y = .retire d → x = .retire d) := by
  cases x with
  | run input =>
      obtain ⟨c, -, rfl⟩ := Option.map_eq_some_iff.mp hy
      exact ⟨hd, nofun⟩
  | register c =>
      obtain rfl := Option.some.inj hy
      exact ⟨hd, nofun⟩
  | delegate h d' =>
      obtain rfl := Option.some.inj hy
      exact ⟨hx, nofun⟩
  | retire d' =>
      obtain rfl := Option.some.inj hy
      obtain rfl : d' = d := hx
      exact ⟨rfl, fun _ => rfl⟩
  | meter | setDepth | handOver | settle => cases hy

lemma changes_of_at (hd : s.context.depth = d) (hsteps : ∀ x ∈ steps, x.At d)
    (hy : y ∈ s.changes b steps) : y.depth = d ∧ (y = .retire d → .retire d ∈ steps) := by
  induction steps generalizing s with
  | nil => cases hy
  | cons x steps ih =>
      obtain ⟨hx, hrest⟩ := List.forall_mem_cons.mp hsteps
      rcases List.mem_append.mp hy with hfirst | hlater
      · obtain ⟨hdepth, hretire⟩ := change_of_at hd hx (Option.mem_toList.mp hfirst)
        exact ⟨hdepth, fun h => List.mem_cons.mpr (.inl (hretire h).symm)⟩
      · obtain ⟨hdepth, hretire⟩ := ih (depth_apply hd hx) hrest hlater
        exact ⟨hdepth, fun h => List.mem_cons_of_mem _ (hretire h)⟩

end Sessions

/-! ## Calls at a depth -/

/-- A step on behalf of calls that are executed for real at a depth: an input is run, its price is
computed, or the host goes on with other settings. -/
def Step.CallsAt (d : Nat) : Step → Prop
  | run _ | meter .. => True
  | handOver settings => settings.depth = d ∧ settings.mode ≠ .estimating
  | register _ | delegate .. | retire _ | setDepth _ | settle => False

namespace Session

variable {b : Backend} {known : List Ciphertext} {s s' t t' : Session} {d : Nat} {e : Effect}
  {x : Step} {calls : List Step}

lemma Within.of_effect (hs : s.Within known) (hcontext : t.context = e.apply s.context)
    (he : e.ciphertext?.toList ⊆ known) : t.Within known := by
  cases e with
  | registered c => exact hs.register (he List.mem_cons_self) hcontext
  | none | stated | drained =>
      exact
        { real := by rw [hcontext]; exact hs.real
          contentAddressed := by rw [hcontext]; exact hs.contentAddressed
          ciphertexts := by rw [hcontext]; exact hs.ciphertexts }

/-- Two sessions agree at a depth, and neither holds other ciphertexts than those of a list. -/
structure AgreeAt (d : Nat) (known : List Ciphertext) (s s' : Session) : Prop extends
    s.Agree s' where
  depth : s.context.depth = d
  within : s.Within known
  within' : s'.Within known

namespace AgreeAt

/-- A ciphertext that is registered in both sessions is visible in both, as no other one has its
digest. -/
lemma verified_register (h : s.AgreeAt d known s') (hfree : CollisionFree known) {c : Ciphertext}
    (hc : c ∈ known) (k : Handle) :
    (s'.context.register c).verified? k = (s.context.register c).verified? k := by
  have hself {s : Session} (hs : s.Within known) :
      (s.context.register c).verified? c.handle = some c :=
    hs.contentAddressed.get?_register_self
      (hfree.mono (List.cons_subset.mpr ⟨hc, hs.ciphertexts⟩))
  by_cases hk : k = c.handle
  · subst hk
    rw [hself h.within, hself h.within']
  · have hother (s : Session) : (s.context.register c).verified? k = s.context.verified? k :=
      Registry.get?_register.trans (if_neg fun h => hk h.1)
    rw [hother, hother, h.verified]

/-- The same effect on both sessions. -/
lemma of_effect (h : s.AgreeAt d known s') (hfree : CollisionFree known)
    (hcontext : t.context = e.apply s.context) (hcontext' : t'.context = e.apply s'.context)
    (he : e.ciphertext?.toList ⊆ known) : t.AgreeAt d known t' where
  settings := by rw [hcontext, hcontext', Effect.settings_apply, Effect.settings_apply, h.settings]
  verified k := by
    rw [hcontext, hcontext']
    cases e with
    | registered c => exact h.verified_register hfree (he List.mem_cons_self) k
    | none | stated | drained => exact h.verified k
  pending := by
    rw [Session.pending, Session.pending, hcontext, hcontext']
    cases e with
    | stated condition => exact congrArg (· ++ [condition]) h.pending
    | drained => rfl
    | none | registered => exact h.pending
  depth := by
    have hsettings := Effect.settings_apply e s.context
    rw [← hcontext] at hsettings
    exact (congrArg Context.depth hsettings :).trans h.depth
  within := h.within.of_effect hcontext he
  within' := h.within'.of_effect hcontext' he

/-- Two sessions agree as soon as they go on with the same settings, if the lookups at the depth of
these settings are the same. -/
lemma of_handOver {settings : Context} (hreal : settings.mode ≠ .estimating)
    (hdepth : settings.depth = d)
    (hget : ∀ k, s'.context.vault.registry.get? k d = s.context.vault.registry.get? k d)
    (hpending : s'.pending = s.pending)
    (hcontent : s.context.vault.registry.ContentAddressed)
    (hcontent' : s'.context.vault.registry.ContentAddressed)
    (hheld : s.context.vault.registry.ciphertexts ⊆ known)
    (hheld' : s'.context.vault.registry.ciphertexts ⊆ known) :
    ((Step.handOver settings).apply b s).AgreeAt d known
      ((Step.handOver settings).apply b s') where
  settings := rfl
  verified k := by
    show s'.context.vault.registry.get? k settings.depth =
      s.context.vault.registry.get? k settings.depth
    rw [hdepth, hget]
  pending := hpending
  depth := hdepth
  within := ⟨hreal, hcontent, hheld⟩
  within' := ⟨hreal, hcontent', hheld'⟩

lemma get?_eq (h : s.AgreeAt d known s') (k : Handle) :
    s'.context.vault.registry.get? k d = s.context.vault.registry.get? k d := by
  have hverified := h.verified k
  have hdepth' : s'.context.depth = s.context.depth := (congrArg Context.depth h.settings :)
  rwa [Context.verified?, Context.verified?, hdepth', h.depth] at hverified

section Steady

variable (hsteady : b.engine.Steady) (hfree : CollisionFree known)
include hsteady hfree

/-- One more step on behalf of calls. -/
lemma apply (h : s.AgreeAt d known s') (hx : x.CallsAt d)
    (hproduct : (x.product? b s).toList ⊆ known) :
    (x.apply b s).AgreeAt d known (x.apply b s') := by
  cases x with
  | run input =>
      have heffect : s'.effect b input = s.effect b input := h.effect_eq hsteady h.within.real
      refine h.of_effect hfree (context_run b input s) ?_ hproduct
      rw [← heffect]
      exact context_run b input s'
  | meter supplied input =>
      refine h.of_effect (e := .none) hfree ?_ ?_ (List.nil_subset _)
      · exact context_logAll s _
      · exact context_logAll s' _
  | handOver settings =>
      exact of_handOver hx.2 hx.1 h.get?_eq h.pending h.within.contentAddressed
        h.within'.contentAddressed h.within.ciphertexts h.within'.ciphertexts
  | register | delegate | retire | setDepth | settle => cases hx

/-- Any number of calls. -/
lemma after (h : s.AgreeAt d known s') (hcalls : ∀ x ∈ calls, x.CallsAt d)
    (hproduced : s.produced b calls ⊆ known) :
    (s.after b calls).AgreeAt d known (s'.after b calls) := by
  induction calls generalizing s s' with
  | nil => exact h
  | cons x calls ih =>
      obtain ⟨hx, hrest⟩ := List.forall_mem_cons.mp hcalls
      obtain ⟨hproduct, hlater⟩ := List.append_subset.mp hproduced
      exact ih (h.apply hsteady hfree hx hproduct) hrest hlater

end Steady

end AgreeAt

end Session

/-! ## The main statement -/

/-- **Depths are isolated.**  Whatever is done at a depth `d`, by calls in any mode and with any
engine or by the host:

* all lookups at another depth remain as they were;
* what is visible at `d` remains so, with the same ciphertext, if `d` is not retired;
* if the state was reachable, then calls that are executed for real at another depth afterwards,
  with an engine that does not remember, have the same results and the same prices as if nothing
  had been done at `d`, provided that the same requirements are pending.

For the last point, the ciphertexts of both registries and those that the calls produce are taken to
have different digests, unless they are equal. -/
theorem depths_isolated (b : Backend) (s : Session) (d d' : Nat) (steps : List Step)
    (hdepth : s.context.depth = d) (hsteps : ∀ x ∈ steps, x.At d) (hne : d' ≠ d) :
    (∀ h, (s.after b steps).context.vault.registry.get? h d' =
      s.context.vault.registry.get? h d') ∧
    (.retire d ∉ steps → ∀ h c, s.context.vault.registry.get? h d = some c →
      (s.after b steps).context.vault.registry.get? h d = some c) ∧
    ∀ (b' : Backend) (settings : Context) (calls : List Step) (input : Bytes),
      s.Reachable → b'.engine.Steady → settings.depth = d' → settings.mode ≠ .estimating →
      (∀ x ∈ calls, x.CallsAt d') → (s.after b steps).pending = s.pending →
      CollisionFree (s.context.vault.registry.ciphertexts ++
        (s.after b steps).context.vault.registry.ciphertexts ++
        s.produced b' (.handOver settings :: calls)) →
      (run b' input ((s.after b steps).after b' (.handOver settings :: calls))).1 =
          (run b' input (s.after b' (.handOver settings :: calls))).1 ∧
        ∀ supplied,
          ((s.after b steps).after b' (.handOver settings :: calls)).context.requiredGas supplied
              input =
            (s.after b' (.handOver settings :: calls)).context.requiredGas supplied input := by
  have hchanges := fun y => changes_of_at (b := b) (y := y) hdepth hsteps
  have hother : ∀ h, (s.after b steps).context.vault.registry.get? h d' =
      s.context.vault.registry.get? h d' := by
    intro h
    rw [registry_after]
    exact Registry.get?_after_of_ne fun y hy => (hchanges y hy).1.symm ▸ hne.symm
  refine ⟨hother, ?_, ?_⟩
  · intro hkept h c hc
    rw [registry_after]
    exact Registry.get?_after_of_some hc fun hmem => hkept ((hchanges _ hmem).2 rfl)
  · intro b' settings calls input hreachable hsteady hat hreal hcalls hpending hfree
    have hcontent := hreachable.contentAddressed
    have hcontent' : (s.after b steps).context.vault.registry.ContentAddressed := by
      rw [registry_after]
      exact hcontent.after
    -- What occurs in the one history or in the other.
    have hafter := List.subset_append_right s.context.vault.registry.ciphertexts
      (s.after b steps).context.vault.registry.ciphertexts
    have hbefore := List.subset_append_left s.context.vault.registry.ciphertexts
      (s.after b steps).context.vault.registry.ciphertexts
    have hheld := List.subset_append_left
      (s.context.vault.registry.ciphertexts ++ (s.after b steps).context.vault.registry.ciphertexts)
      (s.produced b' (.handOver settings :: calls))
    have hproduced := List.subset_append_right
      (s.context.vault.registry.ciphertexts ++ (s.after b steps).context.vault.registry.ciphertexts)
      (s.produced b' (.handOver settings :: calls))
    -- The sessions agree as soon as the calls begin.
    have hstart := Session.AgreeAt.of_handOver (b := b') hreal hat hother hpending hcontent
      hcontent' (List.Subset.trans hbefore hheld) (List.Subset.trans hafter hheld)
    have hend := hstart.after hsteady hfree hcalls hproduced
    exact ⟨hend.run_fst hsteady hend.within.real,
      fun supplied => hend.requiredGas_eq supplied input⟩

/-- A ciphertext is registered at two depths, of which the second one is the current. -/
def sharing (c : Ciphertext) : Session :=
  (Session.fresh { mode := .committing }).after ⟨Clear.engine, fun _ => .zero⟩
    [.register c, .setDepth 2, .register c]

lemma visible_sharing (c : Ciphertext) :
    (sharing c).context.vault.registry.get? c.handle 1 = some c :=
  Registry.get?_register_of_some
    (Registry.contentAddressed_empty.get?_register_self (.singleton c))

lemma ciphertexts_sharing (c : Ciphertext) :
    (sharing c).context.vault.registry.ciphertexts ⊆ [c] := by
  refine List.Subset.trans Registry.ciphertexts_register_subset ?_
  refine List.cons_subset.mpr ⟨List.mem_cons_self, ?_⟩
  exact Registry.ciphertexts_register_subset

/-- The ciphertext of 42 can still be decrypted at the one depth when the other one has been
retired. -/
theorem decrypted_after_retirement :
    ((sharing withheldAnswer).after ⟨Clear.engine, fun _ => .zero⟩
        [.retire 2]).context.vault.registry.get? withheldAnswer.handle 1 = some withheldAnswer ∧
      (run ⟨Clear.engine, fun _ => .zero⟩ (decryptCall withheldAnswer.handle)
        (((sharing withheldAnswer).after ⟨Clear.engine, fun _ => .zero⟩ [.retire 2]).after
          ⟨Clear.engine, fun _ => .zero⟩ [.handOver { mode := .staticCall }])).1 =
        .ok (Word.ofNat 42).bytes := by
  have hhides : Clear.Hides withheldAnswer 42 := Clear.hides_encodeNat (by decide)
  generalize withheldAnswer = c at hhides ⊢
  obtain ⟨hother, -, hcalls⟩ := depths_isolated ⟨Clear.engine, fun _ => .zero⟩ (sharing c) 2 1
    [.retire 2] rfl (by simp [Step.At]) (by decide)
  have hretired : ((sharing c).after ⟨Clear.engine, fun _ => .zero⟩
      [.retire 2]).context.vault.registry.ciphertexts ⊆ [c] :=
    List.Subset.trans Registry.ciphertexts_retire_subset (ciphertexts_sharing c)
  have hfree : CollisionFree ((sharing c).context.vault.registry.ciphertexts ++
      ((sharing c).after ⟨Clear.engine, fun _ => .zero⟩
        [.retire 2]).context.vault.registry.ciphertexts ++ []) :=
    (CollisionFree.singleton c).mono (List.append_subset.mpr
      ⟨List.append_subset.mpr ⟨ciphertexts_sharing c, hretired⟩, List.nil_subset _⟩)
  refine ⟨(hother _).trans (visible_sharing c), ?_⟩
  have hreal : Mode.staticCall ≠ .estimating := by decide
  refine (hcalls ⟨Clear.engine, fun _ => .zero⟩ { mode := .staticCall } [] (decryptCall c.handle)
    ⟨_, _, _, rfl⟩ Clear.engine_steady rfl hreal (by simp) rfl hfree).1.trans ?_
  exact run_decryptCall hreal (visible_sharing c) hhides rfl

end CipherCalls
