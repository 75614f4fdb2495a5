/-
# Independent calls

Calls that produce ciphertexts only ever add to what is visible.  So none of them can spoil another
one: if each of some calls succeeds when it is run alone, then all of them succeed in every order,
however often they are repeated, each with the same output and at the same price as alone.

What they leave behind does not depend on the order either.  A ciphertext is registered under its
own digest, and to register it again changes nothing; so the registry at the end is told by which
ciphertexts were registered, and not by when.
-/
import Mathlib
import CipherCalls.Proofs.Admission
import CipherCalls.Proofs.Agreement
import CipherCalls.Proofs.StandIns

namespace CipherCalls

/-! ## Registering several ciphertexts -/

/-- Granting a depth twice is granting it once. -/
lemma Entry.grant_grant (e : Entry) (d : Nat) : (e.grant d).grant d = e.grant d := by
  have hdepths : (e.depths.insert d).insert d = e.depths.insert d :=
    List.insert_of_mem List.mem_insert_self
  rw [grant, grant, hdepths]

namespace Context

/-- Some ciphertexts are made visible at the current depth, one after the other. -/
def registerAll (c : Context) (cs : List Ciphertext) : Context := cs.foldl register c

variable {c : Context} {cs cs' : List Ciphertext} {x : Ciphertext} {h : Handle}

lemma settings_registerAll : (c.registerAll cs).settings = c.settings := by
  induction cs generalizing c with
  | nil => rfl
  | cons y cs ih => exact ih (c := c.register y)

/-- What was visible stays visible. -/
lemma verified?_registerAll (hx : c.verified? h = some x) :
    (c.registerAll cs).verified? h = some x := by
  induction cs generalizing c with
  | nil => exact hx
  | cons y cs ih => exact ih (Registry.get?_register_of_some hx)

/-- Other handles have what they had. -/
lemma find?_registerAll_of_ne (hne : ∀ y ∈ cs, y.handle ≠ h) :
    (c.registerAll cs).vault.registry.find? h = c.vault.registry.find? h := by
  induction cs generalizing c with
  | nil => rfl
  | cons y cs ih =>
      obtain ⟨hy, hrest⟩ := List.forall_mem_cons.mp hne
      refine (ih hrest).trans ?_
      exact Registry.find?_register.trans (if_neg hy.symm)

/-- A registered ciphertext is found under its handle, unless there was an entry already.  In either
case the current depth is granted, as if nothing else had been registered. -/
lemma find?_registerAll (hfree : CollisionFree cs) (hx : x ∈ cs) :
    (c.registerAll cs).vault.registry.find? x.handle =
      some ((c.vault.registry.find? x.handle).elim ⟨x.handle, x, [c.depth]⟩
        (Entry.grant · c.depth)) := by
  induction cs generalizing c with
  | nil => cases hx
  | cons y cs ih =>
      have hrest : CollisionFree cs := hfree.mono (List.subset_cons_self y cs)
      by_cases hxy : x.handle = y.handle
      · obtain rfl := hfree x hx y List.mem_cons_self hxy
        have hfirst : (c.register x).vault.registry.find? x.handle = _ :=
          Registry.find?_register.trans (if_pos rfl)
        by_cases hagain : x ∈ cs
        · -- It is registered once more, which grants the depth a second time.
          refine (ih hrest hagain (c := c.register x)).trans ?_
          rw [hfirst]
          cases c.vault.registry.find? x.handle with
          | none => simp [Entry.grant, register]
          | some e => exact congrArg some (e.grant_grant c.depth)
        · have hne : ∀ z ∈ cs, z.handle ≠ x.handle := fun z hz hh =>
            hagain (hfree z (List.mem_cons_of_mem x hz) x hx hh ▸ hz)
          exact (find?_registerAll_of_ne hne (c := c.register x)).trans hfirst
      · have hmem : x ∈ cs :=
          (List.mem_cons.mp hx).resolve_left fun h => hxy (congrArg Ciphertext.handle h)
        have hkept : (c.register y).vault.registry.find? x.handle =
            c.vault.registry.find? x.handle := Registry.find?_register.trans (if_neg hxy)
        refine (ih hrest hmem (c := c.register y)).trans ?_
        rw [hkept]
        rfl

/-- **It only matters which ciphertexts are registered**, not in which order or how often. -/
theorem find?_registerAll_congr (hfree : CollisionFree cs) (hsame : ∀ y, y ∈ cs' ↔ y ∈ cs)
    (h : Handle) :
    (c.registerAll cs').vault.registry.find? h = (c.registerAll cs).vault.registry.find? h := by
  have hfree' : CollisionFree cs' := hfree.mono fun y hy => (hsame y).mp hy
  by_cases hh : ∃ y ∈ cs, y.handle = h
  · obtain ⟨y, hy, rfl⟩ := hh
    rw [find?_registerAll hfree hy, find?_registerAll hfree' ((hsame y).mpr hy)]
  · have hne : ∀ y ∈ cs, y.handle ≠ h := fun y hy hyh => hh ⟨y, hy, hyh⟩
    rw [find?_registerAll_of_ne hne, find?_registerAll_of_ne fun y hy => hne y ((hsame y).mp hy)]

/-- What a payload that resolves is charged depends on its demand, the price table and the gas
limit. -/
lemma requiredGas_eq_of_demand {c' : Context} {m : Method} {d : Demand} {input : Bytes}
    (hm : dispatch input = .ok m) (hd : c.demand (m.payload input) m = .ok d)
    (hd' : c'.demand (m.payload input) m = .ok d) (hparams : c'.params = c.params)
    (hgas : c'.gasLimit = c.gasLimit) (supplied : UInt64) :
    c'.requiredGas supplied input = c.requiredGas supplied input := by
  by_cases hcast : m = .cast
  · subst hcast
    simp only [requiredGas, hm, priceMethod, priceCast, hparams]
  · have hprice : c'.price supplied (m.payload input) d = c.price supplied (m.payload input) d :=
      price_eq_of_outline hparams hgas rfl (fun _ => rfl) supplied
    rw [requiredGas_of_demand_ok (s := ⟨c, {}⟩) hm hcast hd,
      requiredGas_of_demand_ok (s := ⟨c', {}⟩) hm hcast hd', hprice]

end Context

/-! ## Calls that produce a ciphertext -/

namespace Session

/-- What an input demands in a session, and the ciphertext that is registered for it. -/
structure Issues (b : Backend) (s : Session) (input : Bytes) (m : Method) (request : Engine.Request)
    (c : Ciphertext) : Prop where
  dispatched : dispatch input = .ok m
  demanded : s.context.demand (m.payload input) m = .ok (.produce request)
  answered : (obtain b request s).1 = .ok c

/-- The ciphertexts that some inputs produce, each of them run alone. -/
def yields (b : Backend) (s : Session) (inputs : List Bytes) : List Ciphertext :=
  inputs.filterMap fun input => (Step.run input).product? b s

variable {b : Backend} {s t : Session} {input : Bytes} {m : Method} {request : Engine.Request}
  {c : Ciphertext} {cs : List Ciphertext} {inputs inputs' : List Bytes}

/-- A method that produces ciphertexts has issued one if it succeeds. -/
lemma issues_of_ok {output : Bytes} (hm : dispatch input = .ok m) (hproduces : m.produces = true)
    (h : (run b input s).1 = .ok output) : ∃ request c, s.Issues b input m request c := by
  obtain ⟨m', d, hm', hd⟩ := demand_of_run_ok h
  obtain rfl : m = m' := Except.ok.inj (hm.symm.trans hm')
  obtain ⟨request, rfl⟩ := (produces_iff hd).mp hproduces
  obtain ⟨c, hc, -, -⟩ := registered_of_ok hm hd h
  exact ⟨request, c, hm, hd, hc⟩

namespace Issues

lemma effect_eq (h : s.Issues b input m request c) : s.effect b input = .registered c := by
  rw [effect_of_demand h.dispatched h.demanded]
  exact Demand.effect_eq_registered_iff.mpr ⟨request, rfl, h.answered⟩

lemma run_fst (h : s.Issues b input m request c) : (run b input s).1 = .ok c.handle.bytes :=
  run_of_registered h.effect_eq

lemma context_run (h : s.Issues b input m request c) :
    (run b input s).2.context = s.context.register c := by
  rw [CipherCalls.context_run, h.effect_eq]
  rfl

lemma product?_eq (h : s.Issues b input m request c) :
    (Step.run input).product? b s = some c := by
  rw [Step.product?, h.effect_eq]
  rfl

/-- The same is demanded and registered after other ciphertexts have been registered. -/
lemma of_registerAll (h : s.Issues b input m request c) (hsteady : b.engine.Steady)
    (hreal : s.context.mode ≠ .estimating) (ht : t.context = s.context.registerAll cs) :
    t.Issues b input m request c where
  dispatched := h.dispatched
  demanded := by
    rw [ht]
    exact Context.demand_of_shows_more (fun _ _ => Context.verified?_registerAll) h.demanded
  answered := by
    have hmode : t.context.mode = s.context.mode := by
      rw [ht]
      exact (congrArg Context.mode Context.settings_registerAll :)
    rw [obtain_fst_of_steady hsteady hreal (hmode ▸ hreal)]
    exact h.answered

/-- And it has the same price. -/
lemma requiredGas_eq (h : s.Issues b input m request c) (h' : t.Issues b input m request c)
    (ht : t.context = s.context.registerAll cs) (supplied : UInt64) :
    t.context.requiredGas supplied input = s.context.requiredGas supplied input := by
  refine Context.requiredGas_eq_of_demand h.dispatched h.demanded h'.demanded ?_ ?_ supplied
  · rw [ht]
    exact (congrArg Context.params Context.settings_registerAll :)
  · rw [ht]
    exact (congrArg Context.gasLimit Context.settings_registerAll :)

end Issues

/-- After any number of such calls, what each of them produces alone has been registered. -/
lemma context_after_runs (hsteady : b.engine.Steady) (hreal : s.context.mode ≠ .estimating)
    (hissues : ∀ input ∈ inputs, ∃ m request c, s.Issues b input m request c) :
    (s.after b (inputs.map .run)).context = s.context.registerAll (s.yields b inputs) := by
  induction inputs using List.reverseRecOn with
  | nil => rfl
  | append_singleton inputs input ih =>
      have hbefore := ih fun x hx => hissues x (List.mem_append_left _ hx)
      obtain ⟨m, request, c, h⟩ := hissues input (by simp)
      have hyields : s.yields b (inputs ++ [input]) = s.yields b inputs ++ [c] := by
        simp [yields, h.product?_eq]
      rw [List.map_append, List.map_singleton, after_append_singleton, hyields,
        Context.registerAll, List.foldl_append]
      refine (h.of_registerAll hsteady hreal hbefore).context_run.trans ?_
      rw [hbefore]
      rfl

/-- The same inputs yield the same ciphertexts. -/
lemma mem_yields_congr (hsame : ∀ input, input ∈ inputs' ↔ input ∈ inputs) (c : Ciphertext) :
    c ∈ s.yields b inputs' ↔ c ∈ s.yields b inputs := by
  simp only [yields, List.mem_filterMap, hsame]

end Session

/-! ## The main statement -/

/-- **Independent calls commute and can be repeated.**  Let some calls be given that produce
ciphertexts, and that all succeed when each of them is run alone, for real, in one session with an
engine that does not remember.  Then each of them succeeds also after any of the others, in every
order and with repetitions, with the same output and with the same price as alone.

And the registry at the end depends only on which calls were run: under each handle there is the
same ciphertext, visible at the same depths.  For this, the ciphertexts that the calls produce are
taken to have different digests, unless they are equal. -/
theorem producing_calls_commute (b : Backend) (s : Session) (calls : List Bytes)
    (hsteady : b.engine.Steady) (hreal : s.context.mode ≠ .estimating)
    (hcalls : ∀ input ∈ calls, ∃ m output, dispatch input = .ok m ∧ m.produces = true ∧
      (run b input s).1 = .ok output) :
    (∀ before input, before ⊆ calls → input ∈ calls →
      (∃ output, (run b input s).1 = .ok output ∧
        (run b input (s.after b (before.map .run))).1 = .ok output) ∧
      ∀ supplied, (s.after b (before.map .run)).context.requiredGas supplied input =
        s.context.requiredGas supplied input) ∧
    (CollisionFree (calls.filterMap fun input => (Step.run input).product? b s) →
      ∀ order order' : List Bytes, order ⊆ calls → (∀ input, input ∈ order' ↔ input ∈ order) →
        ∀ h, (s.after b (order'.map .run)).context.vault.registry.find? h =
          (s.after b (order.map .run)).context.vault.registry.find? h) := by
  have hissues : ∀ input ∈ calls, ∃ m request c, s.Issues b input m request c := by
    intro input hinput
    obtain ⟨m, output, hm, hproduces, houtput⟩ := hcalls input hinput
    exact ⟨m, Session.issues_of_ok hm hproduces houtput⟩
  have hcontext {inputs : List Bytes} (hinputs : inputs ⊆ calls) :
      (s.after b (inputs.map .run)).context = s.context.registerAll (s.yields b inputs) :=
    Session.context_after_runs hsteady hreal fun input h => hissues input (hinputs h)
  constructor
  · intro before input hbefore hinput
    obtain ⟨m, request, c, h⟩ := hissues input hinput
    have h' := h.of_registerAll hsteady hreal (hcontext hbefore)
    exact ⟨⟨c.handle.bytes, h.run_fst, h'.run_fst⟩, h.requiredGas_eq h' (hcontext hbefore)⟩
  · intro hfree order order' horder hsame h
    have horder' : order' ⊆ calls := fun x hx => horder ((hsame x).mp hx)
    rw [hcontext horder, hcontext horder']
    refine Context.find?_registerAll_congr (hfree.mono ?_) (Session.mem_yields_congr hsame) h
    exact List.filterMap_subset _ horder

/-- The encryption of a number with 8 bits. -/
def eightBitCall (n : Nat) : Bytes := widthCall Method.encrypt.signature (.ofNat n) .euint8

/-- The call that takes 5 away from what stands under a handle. -/
def lessFiveCall (h : Handle) : Bytes := binaryCall BinaryOp.sub.method.signature h (.ofNat 5) true

/-- A session in which one ciphertext is visible. -/
def lendingSession (c : Ciphertext) : Session where
  context := { mode := .committing, vault := { registry := Registry.empty.register c 1 } }

lemma issues_eightBitCall (s : Session) (n : Nat) (hreal : s.context.mode ≠ .estimating) :
    s.Issues ⟨Clear.engine, fun _ => .zero⟩ (eightBitCall n) .encrypt
      (.encrypt (Bytes.low64 (Word.ofNat n).bytes) .euint8)
      (Clear.encode (Bytes.low64 (Word.ofNat n).bytes) .euint8) where
  dispatched := dispatch_encodeCall .encrypt _
  demanded := demand_encrypt _ _
  answered := by
    rw [obtain_of_real _ _ _ hreal]
    rfl

lemma issues_lessFiveCall {s : Session} {c c' : Ciphertext} (hreal : s.context.mode ≠ .estimating)
    (hc : s.context.verified? c.handle = some c)
    (hc' : Clear.produce (.subScalar c (Bytes.low64 (Word.ofNat 5).bytes)) = .ok c') :
    s.Issues ⟨Clear.engine, fun _ => .zero⟩ (lessFiveCall c.handle) .sub
      (.subScalar c (Bytes.low64 (Word.ofNat 5).bytes)) c' where
  dispatched := dispatch_encodeCall .sub _
  demanded := by
    have hdemand : s.context.demand (BinaryOp.sub.method.payload (lessFiveCall c.handle))
        BinaryOp.sub.method = .ok (.produce (.subScalar c (Bytes.low64 (Word.ofNat 5).bytes))) :=
      demand_combineScalar hc rfl rfl
    exact hdemand
  answered := by
    rw [obtain_of_real _ _ _ hreal]
    exact hc'

/-- From 3, which is visible already, 5 is taken away, and 3 is encrypted once more.  The difference
is the same after two encryptions, and the order makes no difference to the registry. -/
theorem difference_among_encryptions :
    (run ⟨Clear.engine, fun _ => .zero⟩ (lessFiveCall (Clear.encode 3 .euint8).handle)
        ((lendingSession (Clear.encode 3 .euint8)).after ⟨Clear.engine, fun _ => .zero⟩
          [.run (eightBitCall 3), .run (eightBitCall 3)])).1 =
      .ok (Clear.encode 254 .euint8).handle.bytes ∧
    ∀ h, ((lendingSession (Clear.encode 3 .euint8)).after ⟨Clear.engine, fun _ => .zero⟩
        [.run (eightBitCall 3), .run (lessFiveCall (Clear.encode 3 .euint8).handle)]
          ).context.vault.registry.find? h =
      ((lendingSession (Clear.encode 3 .euint8)).after ⟨Clear.engine, fun _ => .zero⟩
        [.run (lessFiveCall (Clear.encode 3 .euint8).handle), .run (eightBitCall 3),
          .run (eightBitCall 3)]).context.vault.registry.find? h := by
  have hfree : CollisionFree [Clear.encode 3 .euint8, Clear.encode 254 .euint8] :=
    results_borrowing ▸ collisionFree_borrowing
  have hdifference : Clear.produce (.subScalar (Clear.encode 3 .euint8)
      (Bytes.low64 (Word.ofNat 5).bytes)) = .ok (Clear.encode 254 .euint8) := by decide
  have hthree : Clear.encode (Bytes.low64 (Word.ofNat 3).bytes) .euint8 =
      Clear.encode 3 .euint8 := by decide
  generalize Clear.encode 3 .euint8 = c at hfree hdifference hthree ⊢
  generalize Clear.encode 254 .euint8 = c' at hfree hdifference ⊢
  have hreal : (lendingSession c).context.mode ≠ .estimating := nofun
  have hvisible : (lendingSession c).context.verified? c.handle = some c :=
    Registry.contentAddressed_empty.get?_register_self (.singleton c)
  have hencrypt := hthree ▸ issues_eightBitCall (lendingSession c) 3 hreal
  have hsub := issues_lessFiveCall hreal hvisible hdifference
  have hcalls : ∀ input ∈ [eightBitCall 3, lessFiveCall c.handle], ∃ m output,
      dispatch input = .ok m ∧ m.produces = true ∧
        (run ⟨Clear.engine, fun _ => .zero⟩ input (lendingSession c)).1 = .ok output := by
    simp only [List.forall_mem_cons]
    exact ⟨⟨_, _, hencrypt.dispatched, rfl, hencrypt.run_fst⟩,
      ⟨_, _, hsub.dispatched, rfl, hsub.run_fst⟩, by simp⟩
  obtain ⟨hruns, hregistry⟩ := producing_calls_commute ⟨Clear.engine, fun _ => .zero⟩
    (lendingSession c) [eightBitCall 3, lessFiveCall c.handle] Clear.engine_steady hreal hcalls
  constructor
  · obtain ⟨output, halone, hafter⟩ :=
      (hruns [eightBitCall 3, eightBitCall 3] (lessFiveCall c.handle) (by simp) (by simp)).1
    rw [hsub.run_fst] at halone
    exact hafter.trans halone.symm
  · have hyields : [eightBitCall 3, lessFiveCall c.handle].filterMap (fun input =>
        (Step.run input).product? ⟨Clear.engine, fun _ => .zero⟩ (lendingSession c)) = [c, c'] := by
      simp only [List.filterMap_cons, hencrypt.product?_eq, hsub.product?_eq, List.filterMap_nil]
    have hsame := hregistry (hyields ▸ hfree)
      [lessFiveCall c.handle, eightBitCall 3, eightBitCall 3]
      [eightBitCall 3, lessFiveCall c.handle] (by simp) (by simp [or_comm])
    simpa only [List.map_cons, List.map_nil] using hsame

end CipherCalls
