/-
# Stand-ins

While estimating, the engine has no part in what happens.  A method that produces a ciphertext
registers a stand-in with an arbitrary payload, a decryption answers with all bits set, and nothing
can fail in evaluation.

Yet the stand-ins can be used like real results.  The handle that a call returns is visible from
then on, whatever is called later, and its ciphertext has the width that the call promises.  This
needs the digests of the ciphertexts that occur to be different, those of the initial registry and
the stand-ins; otherwise a stand-in could be taken for a ciphertext of another width.
-/
import Mathlib
import CipherCalls.Proofs.Admission
import CipherCalls.Proofs.Expression
import CipherCalls.Proofs.Framing

namespace CipherCalls

/-! ## Histories of calls -/

/-- A step that is done on behalf of a caller: an input is run, or its price is computed. -/
def Step.IsCall : Step → Prop
  | run _ | meter _ _ => True
  | register _ | delegate .. | retire _ | setDepth _ | handOver _ | settle => False

/-- The ciphertext that an effect adds. -/
def Effect.ciphertext? : Effect → Option Ciphertext
  | registered c => some c
  | none | stated _ | drained => .none

/-- The ciphertext that a step produces. -/
def Step.product? (b : Backend) (s : Session) : Step → Option Ciphertext
  | run input => (s.effect b input).ciphertext?
  | meter .. | register _ | delegate .. | retire _ | setDepth _ | handOver _ | settle => none

namespace Session

/-- The ciphertexts that the runs of a history produce, the first one first. -/
def produced (b : Backend) (s : Session) : List Step → List Ciphertext
  | [] => []
  | x :: steps => (x.product? b s).toList ++ (x.apply b s).produced b steps

section Histories

variable {b : Backend} {s : Session} {before later : List Step} {x : Step}

lemma produced_append :
    s.produced b (before ++ later) =
      s.produced b before ++ (s.after b before).produced b later := by
  induction before generalizing s with
  | nil => rfl
  | cons y before ih =>
      rw [List.cons_append, produced, ih, produced, List.append_assoc]
      rfl

end Histories

/-! ## What estimation leaves alone -/

/-- One session has become another one by estimation.  The settings and the questions to the engine
are the same, and requirements and visible ciphertexts may only have been added. -/
structure EstimatesTo (s s' : Session) : Prop where
  settings : s'.context.settings = s.context.settings
  calls : s'.journal.calls = s.journal.calls
  pending : s.pending <+: s'.pending
  visible : ∀ h d c, s.context.vault.registry.get? h d = some c →
    s'.context.vault.registry.get? h d = some c
  contentAddressed : s.context.vault.registry.ContentAddressed →
    s'.context.vault.registry.ContentAddressed

namespace EstimatesTo

variable {s s' s'' : Session}

lemma refl (s : Session) : s.EstimatesTo s :=
  ⟨rfl, rfl, List.prefix_refl _, fun _ _ _ h => h, fun h => h⟩

lemma trans (h : s.EstimatesTo s') (h' : s'.EstimatesTo s'') : s.EstimatesTo s'' where
  settings := h'.settings.trans h.settings
  calls := h'.calls.trans h.calls
  pending := h.pending.trans h'.pending
  visible x d c hc := h'.visible x d c (h.visible x d c hc)
  contentAddressed hc := h'.contentAddressed (h.contentAddressed hc)

lemma mode_eq (h : s.EstimatesTo s') : s'.context.mode = s.context.mode :=
  (congrArg Context.mode h.settings :)

lemma depth_eq (h : s.EstimatesTo s') : s'.context.depth = s.context.depth :=
  (congrArg Context.depth h.settings :)

/-- Of the effects of a run, only the use of the requirements takes anything away. -/
lemma of_effect {e : Effect} (hcontext : s'.context = e.apply s.context) (he : e ≠ .drained)
    (hcalls : s'.journal.calls = s.journal.calls) : s.EstimatesTo s' where
  settings := by rw [hcontext, Effect.settings_apply]
  calls := hcalls
  pending := by
    rw [Session.pending, Session.pending, hcontext]
    cases e with
    | stated condition => exact List.prefix_append _ _
    | drained => exact absurd rfl he
    | none | registered => exact List.prefix_refl _
  visible h d c hc := by
    rw [hcontext]
    cases e with
    | registered x => exact Registry.get?_register_of_some hc
    | none | stated | drained => exact hc
  contentAddressed hc := by
    rw [hcontext]
    cases e with
    | registered x => exact hc.register
    | none | stated | drained => exact hc

end EstimatesTo

end Session

/-! ## Runs while estimating -/

section Run

variable {b : Backend} {s : Session} {input : Bytes}

/-- While estimating, the engine is not asked. -/
lemma calls_run_of_estimating (h : s.context.mode = .estimating) :
    (run b input s).2.journal.calls = s.journal.calls := by
  rw [run_eq]
  cases dispatch input with
  | error cause => rfl
  | ok m =>
      simp only
      cases s.context.demand (m.payload input) m with
      | error cause => rfl
      | ok d =>
          cases d with
          | produce request =>
              simp only [meet, calls_reported, calls_produce, obtain_of_estimating b request s h]
              rfl
          | reveal target => simp only [meet, calls_reported, reveal_of_estimating h]
          | state condition => rfl
          | serveKey => simp only [meet, calls_runPublicKey]
          | pad => rfl

/-- While estimating, evaluation does not fail, for nothing is evaluated. -/
lemma isEvaluation_of_estimating (hmode : s.context.mode = .estimating) {cause : CallError}
    (h : (run b input s).1 = .error cause) : cause.isEvaluation = false := by
  rcases run_eq_error h with hm | hrejection | ⟨m, d, -, -, hfailed⟩
  · rcases dispatch_eq_error hm with ⟨n, rfl⟩ | ⟨selector, rfl⟩ <;> rfl
  · exact CallError.isEvaluation_of_isRejection hrejection
  · cases d with
    | produce request =>
        rw [meet, reported_fst, produce_fst, obtain_of_estimating b request s hmode] at hfailed
        cases hfailed
    | reveal target =>
        rw [meet, reported_fst, reveal_of_estimating hmode] at hfailed
        cases hfailed
    | serveKey => obtain rfl | rfl := runPublicKey_eq_error hfailed <;> rfl
    | state | pad => cases hfailed

/-- While estimating, a decryption that succeeds answers with all bits set. -/
lemma run_decrypt_of_estimating (hmode : s.context.mode = .estimating) {output : Bytes}
    (hm : dispatch input = .ok .decrypt) (h : (run b input s).1 = .ok output) :
    output = Word.full.bytes := by
  obtain ⟨m, d, hm', hd⟩ := demand_of_run_ok h
  obtain rfl : Method.decrypt = m := Except.ok.inj (hm.symm.trans hm')
  obtain ⟨target, -, rfl⟩ := map_eq_ok hd
  rw [run_of_demand hm hd, meet, reported_fst, reveal_of_estimating hmode] at h
  exact (Except.ok.inj h).symm

/-- While estimating, no requirement is used up. -/
lemma estimatesTo_run (hmode : s.context.mode = .estimating) :
    s.EstimatesTo (run b input s).2 := by
  refine .of_effect (context_run b input s) (fun he => ?_) (calls_run_of_estimating hmode)
  obtain ⟨target, htarget⟩ := effect_eq_drained_iff.mp he
  exact htarget.real hmode

end Run

/-! ## Histories while estimating -/

section Histories

variable {b : Backend} {s : Session} {steps before later : List Step} {x : Step}

lemma estimatesTo_apply (hmode : s.context.mode = .estimating) (hx : x.IsCall) :
    s.EstimatesTo (x.apply b s) := by
  cases x with
  | run input => exact estimatesTo_run hmode
  | meter supplied input =>
      exact .of_effect (e := .none) (Session.context_logAll _ _) (by simp)
        (Session.calls_logAll _ _)
  | register | delegate | retire | setDepth | handOver | settle => cases hx

/-- Any number of calls while estimating. -/
lemma estimatesTo_after (hmode : s.context.mode = .estimating) (hcalls : ∀ x ∈ steps, x.IsCall) :
    s.EstimatesTo (s.after b steps) := by
  induction steps using List.reverseRecOn with
  | nil => exact .refl s
  | append_singleton steps x ih =>
      have hbefore := ih fun y hy => hcalls y (List.mem_append_left _ hy)
      rw [Session.after_append_singleton]
      refine hbefore.trans (estimatesTo_apply (hbefore.mode_eq.trans hmode) ?_)
      exact hcalls x (List.mem_append_right _ (List.mem_singleton.mpr rfl))

lemma ciphertexts_apply_subset (hx : x.IsCall) :
    (x.apply b s).context.vault.registry.ciphertexts ⊆
      s.context.vault.registry.ciphertexts ++ (x.product? b s).toList := by
  cases x with
  | run input =>
      rw [Step.apply, context_run, Step.product?]
      cases s.effect b input with
      | registered c =>
          refine List.Subset.trans Registry.ciphertexts_register_subset ?_
          rw [Effect.ciphertext?, Option.toList_some]
          exact List.cons_subset.mpr ⟨by simp, List.subset_append_left _ _⟩
      | none | stated | drained => exact List.subset_append_left _ _
  | meter supplied input =>
      rw [Step.apply, Session.context_logAll]
      exact List.subset_append_left _ _
  | register | delegate | retire | setDepth | handOver | settle => cases hx

/-- After any number of calls, the registry holds nothing but what was there and what the calls
have produced. -/
lemma ciphertexts_after_subset (hcalls : ∀ x ∈ steps, x.IsCall) :
    (s.after b steps).context.vault.registry.ciphertexts ⊆
      s.context.vault.registry.ciphertexts ++ s.produced b steps := by
  induction steps using List.reverseRecOn with
  | nil => exact List.subset_append_left _ _
  | append_singleton steps x ih =>
      have hbefore := ih fun y hy => hcalls y (List.mem_append_left _ hy)
      have hx := hcalls x (List.mem_append_right _ (List.mem_singleton.mpr rfl))
      rw [Session.after_append_singleton, Session.produced_append, Session.produced,
        Session.produced, List.append_nil, ← List.append_assoc]
      refine List.Subset.trans (ciphertexts_apply_subset hx) ?_
      exact List.append_subset.mpr
        ⟨List.Subset.trans hbefore (List.subset_append_left _ _), List.subset_append_right _ _⟩

/-- A method that does not produce a ciphertext does not add one. -/
lemma product?_of_not_produces {input : Bytes} {m : Method} (hm : dispatch input = .ok m)
    (hnot : m.produces = false) : (Step.run input).product? b s = none := by
  rw [Step.product?]
  cases he : s.effect b input with
  | registered c =>
      obtain ⟨m', d, hm', hd, hregistered⟩ := demand_of_effect he (by simp)
      obtain rfl : m = m' := Except.ok.inj (hm.symm.trans hm')
      obtain ⟨request, rfl, -⟩ := Demand.effect_eq_registered_iff.mp hregistered
      rw [(produces_iff hd).mpr ⟨request, rfl⟩] at hnot
      cases hnot
  | none | stated | drained => rfl

end Histories

/-! ## The width of a stand-in -/

/-- The width that a call promises for its result: that of the left operand, or the one that the
last byte stands for. -/
def Context.promisedWidth? (c : Context) (payload : Bytes) : Method → Option Width
  | .add | .sub | .bitAnd => (c.verified? (.ofTail (firstSlot payload))).map Ciphertext.width
  | .cast | .encrypt => Width.ofByte? (payload.getD 32 0)
  | .decrypt | .publicKey | .require | .padGas => none

namespace Context

variable {c : Context} {m : Method} {payload : Bytes} {request : Engine.Request}

/-- The left operand is named by the first word of the payload. -/
lemma verified?_of_resolveBinary {op : BinaryOp} {o : Operands}
    (h : c.resolveBinary op payload = .ok o) :
    c.verified? (.ofTail (firstSlot payload)) = some o.lhs := by
  cases o with
  | encrypted lhs rhs => exact (resolveBinary_eq_encrypted_iff.mp h).2.2.1
  | scalar lhs rhs => exact (resolveBinary_eq_scalar_iff.mp h).2.2.2.1

lemma width_of_request {op : BinaryOp} {o : Operands} (h : op.request o = .ok request) :
    request.width = o.width := by
  cases op <;> cases o <;> cases h <;> rfl

/-- A call that asks for a ciphertext asks for one of the width that it promises. -/
lemma promisedWidth?_of_demand (hd : c.demand payload m = .ok (.produce request)) :
    c.promisedWidth? payload m = some request.width := by
  cases m with
  | add | sub | bitAnd =>
      obtain ⟨request', hrequest, hproduce⟩ := map_eq_ok hd
      cases hproduce
      obtain ⟨o, ho, hrequest⟩ := bind_eq_ok hrequest
      rw [promisedWidth?, verified?_of_resolveBinary ho, width_of_request hrequest]
      rfl
  | cast =>
      obtain ⟨⟨source, w⟩, ho, hproduce⟩ := map_eq_ok hd
      cases hproduce
      exact (resolveCast_eq_ok_iff.mp ho).2.2
  | encrypt =>
      obtain ⟨w, hw, hproduce⟩ := map_eq_ok hd
      cases hproduce
      exact (resolveEncryptWidth_eq_ok_iff.mp hw).2
  | decrypt | require =>
      obtain ⟨_, _, hproduce⟩ := map_eq_ok hd
      cases hproduce
  | publicKey | padGas => cases hd

end Context

section Usable

variable {b : Backend} {s : Session} {input output : Bytes} {m : Method}

/-- A stand-in that is registered under a handle of its own, or that was there before, is visible
from then on, and it has the width that the call promised. -/
lemma usable_of_ok (hmode : s.context.mode = .estimating)
    (hcontent : s.context.vault.registry.ContentAddressed) (hm : dispatch input = .ok m)
    (hproduces : m.produces = true) (h : (run b input s).1 = .ok output)
    (hfree : CollisionFree (s.context.vault.registry.ciphertexts ++
      ((Step.run input).product? b s).toList)) :
    ∃ c : Ciphertext, output = c.handle.bytes ∧
      s.context.promisedWidth? (m.payload input) m = some c.width ∧
      (run b input s).2.context.vault.registry.get? c.handle s.context.depth = some c := by
  obtain ⟨m', d, hm', hd⟩ := demand_of_run_ok h
  obtain rfl : m = m' := Except.ok.inj (hm.symm.trans hm')
  obtain ⟨request, rfl⟩ := (produces_iff hd).mp hproduces
  obtain ⟨c, hc, he, rfl⟩ := registered_of_ok hm hd h
  have hwidth : c.width = request.width := by
    rw [obtain_of_estimating b request s hmode] at hc
    rw [← Except.ok.inj hc]
    rfl
  refine ⟨c, rfl, ?_, ?_⟩
  · rw [hwidth, Context.promisedWidth?_of_demand hd]
  · rw [context_run, he]
    refine hcontent.get?_register_self (hfree.mono ?_)
    rw [Step.product?, he, Effect.ciphertext?, Option.toList_some]
    exact List.cons_subset.mpr ⟨by simp, List.subset_append_left _ _⟩

end Usable

/-! ## The main statement -/

/-- **Estimation spares the engine, and its results can be used.**  For any history of calls while
estimating:

* the engine is never asked;
* no requirement is lost;
* no run fails in evaluation;
* a decryption that succeeds answers with 32 bytes of ones;
* a call that succeeds in producing a ciphertext returns the handle of one that has the width
  promised, and that is visible at the depth of the call from then on, whatever is called later.

For the last point, the ciphertexts of the initial registry and the stand-ins are taken to have
different digests, unless they are equal. -/
theorem estimation_spares_engine (b : Backend) (s : Session) (steps : List Step)
    (hmode : s.context.mode = .estimating)
    (hcontent : s.context.vault.registry.ContentAddressed) (hcalls : ∀ x ∈ steps, x.IsCall) :
    (s.after b steps).journal.calls = s.journal.calls ∧
    (∀ before later, steps = before ++ later →
      (s.after b before).pending <+: (s.after b steps).pending) ∧
    ∀ before input later, steps = before ++ .run input :: later →
      (∀ cause, (run b input (s.after b before)).1 = .error cause → cause.isEvaluation = false) ∧
      ∀ output, (run b input (s.after b before)).1 = .ok output →
        (dispatch input = .ok .decrypt → output = List.replicate 32 0xFF) ∧
        (CollisionFree (s.context.vault.registry.ciphertexts ++ s.produced b steps) →
          ∀ m, dispatch input = .ok m → m.produces = true →
            ∃ (h : Handle) (c : Ciphertext), output = h.bytes ∧ c.handle = h ∧
              (s.after b before).context.promisedWidth? (m.payload input) m = some c.width ∧
              ∀ middle, middle <+: later →
                (s.after b (before ++ .run input :: middle)).context.vault.registry.get? h
                  s.context.depth = some c) := by
  refine ⟨(estimatesTo_after hmode hcalls).calls, ?_, ?_⟩
  · rintro before later rfl
    obtain ⟨hbefore, hlater⟩ := List.forall_mem_append.mp hcalls
    have hestimates := estimatesTo_after (b := b) hmode hbefore
    rw [Session.after_append]
    exact (estimatesTo_after (hestimates.mode_eq.trans hmode) hlater).pending
  · rintro before input later rfl
    obtain ⟨hbefore, hlater⟩ := List.forall_mem_append.mp hcalls
    have hestimates := estimatesTo_after (b := b) hmode hbefore
    have hmode' : (s.after b before).context.mode = .estimating := hestimates.mode_eq.trans hmode
    refine ⟨fun cause => isEvaluation_of_estimating hmode', fun output h => ⟨?_, ?_⟩⟩
    · exact fun hm => run_decrypt_of_estimating hmode' hm h
    · intro hfree m hm hproduces
      -- What is known when the call is made occurs in the whole history.
      have hfree' : CollisionFree ((s.after b before).context.vault.registry.ciphertexts ++
          ((Step.run input).product? b (s.after b before)).toList) := by
        refine hfree.mono ?_
        rw [Session.produced_append, Session.produced, ← List.append_assoc, ← List.append_assoc]
        refine List.subset_append_of_subset_left _ ?_
        exact List.append_subset.mpr
          ⟨List.subset_append_of_subset_left _ (ciphertexts_after_subset hbefore),
            List.subset_append_right _ _⟩
      obtain ⟨c, rfl, hwidth, hvisible⟩ :=
        usable_of_ok hmode' (hestimates.contentAddressed hcontent) hm hproduces h hfree'
      refine ⟨c.handle, c, rfl, rfl, hwidth, fun middle hmiddle => ?_⟩
      have hmode'' : (run b input (s.after b before)).2.context.mode = .estimating :=
        (estimatesTo_run hmode').mode_eq.trans hmode'
      rw [Session.after_append, Session.after_cons, ← hestimates.depth_eq]
      exact (estimatesTo_after hmode'' fun x hx =>
        hlater x (List.mem_cons_of_mem _ (hmiddle.subset hx))).visible _ _ _ hvisible

/-- A stand-in for an encryption. -/
def zeroStandIn : Ciphertext := ⟨.euint8, Word.zero.bytes⟩

/-- The call that encrypts a number. -/
def sevenCall : Bytes := widthCall Method.encrypt.signature (.ofNat 7) .euint8

lemma effect_sevenCall {b : Backend} (hzero : b.standIn = fun _ => .zero) :
    (Session.fresh { mode := .estimating }).effect b sevenCall = .registered zeroStandIn := by
  have hm : dispatch sevenCall = .ok .encrypt := dispatch_encodeCall .encrypt _
  rw [effect_of_demand hm (demand_encrypt _ _)]
  refine Demand.effect_eq_registered_iff.mpr ⟨_, rfl, ?_⟩
  rw [obtain_of_estimating b _ _ rfl, hzero]
  rfl

/-- A number is encrypted, and the result is decrypted. -/
def roundTrip : List Step := [.run sevenCall, .run (decryptCall zeroStandIn.handle)]

lemma produced_roundTrip {b : Backend} (hzero : b.standIn = fun _ => .zero) :
    (Session.fresh { mode := .estimating }).produced b roundTrip = [zeroStandIn] := by
  have hm : dispatch (decryptCall zeroStandIn.handle) = .ok .decrypt :=
    dispatch_encodeCall .decrypt _
  rw [roundTrip, Session.produced, Session.produced, Session.produced, Step.product?,
    effect_sevenCall hzero, product?_of_not_produces hm rfl]
  rfl

/-- The handle of the stand-in is returned for the encryption, and a ciphertext of 8 bits is still
visible under it after the decryption.  The engine is not asked for either. -/
theorem roundTrip_estimated :
    (run ⟨Clear.engine, fun _ => .zero⟩ sevenCall (.fresh { mode := .estimating })).1 =
        .ok zeroStandIn.handle.bytes ∧
      ((Session.fresh { mode := .estimating }).after ⟨Clear.engine, fun _ => .zero⟩
        roundTrip).journal.calls = [] ∧
      ∃ c : Ciphertext, c.width = .euint8 ∧
        ((Session.fresh { mode := .estimating }).after ⟨Clear.engine, fun _ => .zero⟩
          roundTrip).context.vault.registry.get? zeroStandIn.handle 1 = some c := by
  have hcalls : ∀ x ∈ roundTrip, x.IsCall := by
    simp [roundTrip, Step.IsCall]
  obtain ⟨hasked, -, hrun⟩ := estimation_spares_engine ⟨Clear.engine, fun _ => .zero⟩
    (.fresh { mode := .estimating }) roundTrip rfl Registry.contentAddressed_empty hcalls
  have houtput : (run ⟨Clear.engine, fun _ => .zero⟩ sevenCall (.fresh { mode := .estimating })).1 =
      .ok zeroStandIn.handle.bytes := run_of_registered (effect_sevenCall rfl)
  have hfree : CollisionFree ([] ++ (Session.fresh { mode := .estimating }).produced
      ⟨Clear.engine, fun _ => .zero⟩ roundTrip) := by
    rw [produced_roundTrip rfl]
    exact .singleton _
  obtain ⟨h, c, hhandle, -, hwidth, hvisible⟩ :=
    ((hrun [] sevenCall [.run (decryptCall zeroStandIn.handle)] rfl).2 _ houtput).2 hfree .encrypt
      (dispatch_encodeCall .encrypt _) rfl
  obtain rfl : zeroStandIn.handle = h := by
    simpa using congrArg Handle.ofBytes? hhandle
  have hlast := hvisible _ (List.prefix_refl _)
  rw [List.nil_append, ← roundTrip] at hlast
  refine ⟨houtput, hasked, c, ?_, hlast⟩
  rw [sevenCall, payload_widthCall rfl, Context.promisedWidth?,
    getD_append_singleton (Word.length_bytes _)] at hwidth
  exact (Option.some.inj hwidth).symm

end CipherCalls
