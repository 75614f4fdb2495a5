/-
# Estimation simulates execution

The estimating run of a program tells what the real one costs.  A call that succeeds while
estimating has the same price in both runs, and if it fails for real, then it was the engine or a
requirement.  A call that fails while estimating, for another reason than a handle, fails for real
in the same way.

A single call is treated by the demands it makes in the two runs, which have the same outline; it
preserves the simulation, and so does a whole program by induction.
-/
import Mathlib
import CipherCalls.Proofs.Simulation

namespace CipherCalls

namespace Simulates

variable {r : Registry} {p p' q : Progress} {standIn : Nat → Word} {call : Call}

/-- The payloads of a valid call are alike in the two runs. -/
lemma alike (hsim : Simulates r p p') (hvalid : call.Valid r p.outputs.length) :
    call.method.Alike (Paired r p.outputs p'.outputs)
      (call.method.payload (call.input p.outputs)) (call.method.payload (call.input p'.outputs)) :=
  call.alike hvalid.1 fun _ href => hsim.paired (hvalid.2 _ href)

/-- The demand of a valid call in the real run follows the one in the estimating run. -/
lemma demand (hsim : Simulates r p p') (hvalid : call.Valid r p.outputs.length) :
    Follows (fun d d' => d'.outline = d.outline) (call.demand p) (call.demand p') :=
  demand_follows (fun _ _ hpair => hsim.shows hpair) (hsim.alike hvalid)

/-- A call for which an estimating run and a real one were successful, or evaluation failed in the
real one. -/
def Matched (r : Registry) (standIn : Nat → Word) (call : Call) (p' q : Progress) (output : Bytes) :
    Prop :=
  (∃ output' q', call.perform ⟨Clear.engine, standIn⟩ p' = (.ok output', q') ∧
    Simulates r q q' ∧ output'.length = output.length ∧
    (call.method.produces = true →
      ∃ x x', Returned q output x ∧ Returned q' output' x' ∧ x'.width = x.width)) ∨
  ∃ cause, (call.perform ⟨Clear.engine, standIn⟩ p').1 = .error cause ∧ cause.isEvaluation = true

/-- A valid call that produces a ciphertext while estimating. -/
lemma call_produce (hsim : Simulates r p p') {request request' : Engine.Request}
    (hd : call.demand p = .ok (.produce request)) (hd' : call.demand p' = .ok (.produce request'))
    (hw : request'.width = request.width) {output : Bytes}
    (hok : call.perform ⟨Clear.engine, standIn⟩ p = (.ok output, q))
    (hfresh : FreshOutputs r q.outputs)
    (hfree : CollisionFree (r.ciphertexts ++
      Clear.answers (call.perform ⟨Clear.engine, standIn⟩ p').2.calls)) :
    Matched r standIn call p' q output := by
  obtain ⟨c, hc, hwidth⟩ : ∃ c, (obtain ⟨Clear.engine, standIn⟩ request p.session).1 = .ok c ∧
      c.width = request.width := by
    rw [obtain_of_estimating _ _ _ hsim.estimating]
    exact ⟨_, rfl, rfl⟩
  have hobtain := obtain_of_real ⟨Clear.engine, standIn⟩ request' p'.session hsim.real
  have hprefix := calls_prefix_perform ⟨Clear.engine, standIn⟩ call p'
  cases hc' : Clear.produce request' with
  | error cause =>
      refine .inr ⟨.engine cause, perform_refused hd' ?_, rfl⟩
      rw [hobtain]
      exact hc'
  | ok c' =>
      have hsucceed : (obtain ⟨Clear.engine, standIn⟩ request' p'.session).1 = .ok c' := by
        rw [hobtain]
        exact hc'
      obtain ⟨q₀, hq₀, hcontext, houtputs, -⟩ := perform_produce hd hc
      obtain ⟨rfl, rfl⟩ : output = c.handle.bytes ∧ q = q₀ := by
        rw [hok, Prod.mk.injEq, Except.ok.injEq] at hq₀
        exact hq₀
      obtain ⟨q', hq', hcontext', houtputs', hcalls⟩ := perform_produce hd' hsucceed
      rw [hq'] at hfree hprefix
      have hanswer : c' ∈ Clear.answers q'.calls := by
        rw [hcalls, hobtain]
        exact Clear.mem_answers (List.mem_append_right _ (List.mem_singleton.mpr rfl)) hc'
      have hwidth' : c'.width = c.width := by
        rw [Clear.width_of_produce hc', hw, hwidth]
      have hsim' : Simulates r q q' :=
        hsim.of_register hcontext hcontext' houtputs houtputs' hprefix hanswer hwidth' hfresh hfree
      rw [houtputs] at hfresh
      have hvisible : q.context.verified? c.handle = some c := by
        rw [hcontext]
        exact Registry.get?_register_new (hsim.find?_eq_none hfresh).2.2
      -- The real handle may have been there before, and then with the same ciphertext.
      have hvisible' : q'.context.verified? c'.handle = some c' := by
        rw [hcontext']
        refine hsim.contentAddressed.get?_register_self (hfree.mono ?_)
        exact List.cons_subset.mpr
          ⟨List.mem_append_right _ hanswer, hsim.ciphertexts_of_calls hprefix⟩
      refine .inl ⟨c'.handle.bytes, q', hq', hsim', ?_, fun _ => ?_⟩
      · rw [Handle.length_bytes, Handle.length_bytes]
      · exact ⟨c, c', ⟨c.handle, rfl, hvisible⟩, ⟨c'.handle, rfl, hvisible'⟩, hwidth'⟩

/-- A valid call that does not produce a ciphertext. -/
lemma call_quiet (hsim : Simulates r p p') (hvalid : call.Valid r p.outputs.length) {d d' : Demand}
    (hd : call.demand p = .ok d) (hd' : call.demand p' = .ok d') (houtline : d'.outline = d.outline)
    (hquiet : ∀ request, d ≠ .produce request) {output : Bytes}
    (hok : call.perform ⟨Clear.engine, standIn⟩ p = (.ok output, q)) :
    Matched r standIn call p' q output := by
  have hquiet' : ∀ request, d' ≠ .produce request := by
    rintro request rfl
    obtain ⟨request', hrequest, -⟩ := Demand.outline_eq_produce_iff.mp houtline.symm
    exact hquiet request' hrequest
  have hmet := perform_fst ⟨Clear.engine, standIn⟩ call p
  rw [hok, run_input_of_demand hd] at hmet
  -- The real run may fail in evaluation only, for the same demand is met there.
  rcases hok' : call.perform ⟨Clear.engine, standIn⟩ p' with ⟨result', q'⟩
  have hmet' := perform_fst ⟨Clear.engine, standIn⟩ call p'
  rw [hok', run_input_of_demand hd'] at hmet'
  rcases meet_of_quiet hquiet houtline
      (fun hserve => payload_eq_of_alike hd (hsim.alike hvalid) (.inl hserve))
      hsim.publicKey_eq.symm hsim.recordedHash_eq.symm hmet.symm with
    ⟨output', hresult', hlen⟩ | ⟨cause, hresult', hcause⟩
  · obtain rfl : result' = .ok output' := hmet'.trans hresult'
    have hq := perform_quiet hd hquiet hok
    have hq' := perform_quiet hd' hquiet' hok'
    refine .inl ⟨output', q', hok', hsim.of_quiet hq hq', hlen, fun hproduces => ?_⟩
    obtain ⟨request, hrequest⟩ := (produces_iff hd).mp hproduces
    exact absurd hrequest (hquiet request)
  · refine .inr ⟨cause, ?_, hcause⟩
    rw [hok']
    exact hmet'.trans hresult'

/-- A valid call that succeeds while estimating succeeds for real, or evaluation fails. -/
lemma call_of_ok (hsim : Simulates r p p') (hvalid : call.Valid r p.outputs.length) {output : Bytes}
    (hok : call.perform ⟨Clear.engine, standIn⟩ p = (.ok output, q))
    (hfresh : FreshOutputs r q.outputs)
    (hfree : CollisionFree (r.ciphertexts ++
      Clear.answers (call.perform ⟨Clear.engine, standIn⟩ p').2.calls)) :
    Matched r standIn call p' q output := by
  cases hd : call.demand p with
  | error cause =>
      have hfail : (call.perform ⟨Clear.engine, standIn⟩ p).1 = .error cause :=
        perform_of_demand_error hd
      rw [hok] at hfail
      cases hfail
  | ok d =>
      obtain ⟨d', hd', houtline⟩ := (hsim.demand hvalid).ok d hd
      cases d with
      | produce request =>
          obtain ⟨request', rfl, hrequest⟩ := Demand.outline_eq_produce_iff.mp houtline
          have hw : request'.width = request.width := by
            rw [← request'.width_outline, hrequest, request.width_outline]
          exact hsim.call_produce hd hd' hw hok hfresh hfree
      | reveal | state | serveKey | pad =>
          exact hsim.call_quiet hvalid hd hd' houtline (by simp) hok

/-- A valid call that fails while estimating, but not because of a handle, fails for real in the
same way. -/
lemma call_of_error (hsim : Simulates r p p') (hvalid : call.Valid r p.outputs.length)
    {cause : CallError} (hfail : (call.perform ⟨Clear.engine, standIn⟩ p).1 = .error cause)
    (hvisible : cause.isUnverified = false) :
    (call.perform ⟨Clear.engine, standIn⟩ p').1 = .error cause := by
  cases hd : call.demand p with
  | error cause' =>
      rw [perform_of_demand_error hd] at hfail
      obtain rfl : cause' = cause := Except.error.inj hfail
      exact perform_of_demand_error ((hsim.demand hvalid).error _ hd hvisible)
  | ok d =>
      rw [perform_fst, run_input_of_demand hd] at hfail
      obtain ⟨d', hd', houtline⟩ := (hsim.demand hvalid).ok d hd
      -- Of all demands, only the one for the key can fail while estimating.
      cases d with
      | produce request =>
          rw [meet, reported_fst, produce_fst, obtain_of_estimating _ _ _ hsim.estimating] at hfail
          cases hfail
      | reveal target =>
          rw [meet, reported_fst, reveal_of_estimating hsim.estimating] at hfail
          cases hfail
      | state condition => cases hfail
      | pad => cases hfail
      | serveKey =>
          obtain rfl := Demand.outline_eq_serveKey_iff.mp houtline
          rw [perform_fst, run_input_of_demand hd', meet,
            payload_eq_of_alike hd (hsim.alike hvalid) (.inl rfl),
            runPublicKey_fst hsim.publicKey_eq.symm hsim.recordedHash_eq.symm]
          exact hfail

/-- The price of a valid call is the same, unless it fails while estimating because of a handle. -/
lemma price_eq (hsim : Simulates r p p') (hvalid : call.Valid r p.outputs.length) (b : Backend)
    (hvisible : ∀ cause, (call.perform b p).1 = .error cause → cause.isUnverified = false)
    (supplied : UInt64) :
    call.price supplied p' = call.price supplied p := by
  have hprice := price_eq_of_alike hsim.params_eq.symm hsim.gasLimit_eq.symm
    (fun _ _ hpair => hsim.shows hpair) (hsim.alike hvalid)
    (fun cause hd => hvisible cause (perform_of_demand_error hd)) supplied
  simp only [Call.price, Context.requiredGas, Call.dispatch_input]
  exact hprice

end Simulates

/-! ## The run of a program -/

namespace Simulates

variable {r : Registry} {p p' q q' : Progress} {standIn : Nat → Word}

/-- Every valid instruction that both runs execute preserves the simulation. -/
lemma step (hsim : Simulates r p p') {x : Instruction} (hvalid : x.Valid r p.outputs.length)
    (hx : x.execute ⟨Clear.engine, standIn⟩ p = some q)
    (hx' : x.execute ⟨Clear.engine, standIn⟩ p' = some q') (hfresh : FreshOutputs r q.outputs)
    (hfree : CollisionFree (r.ciphertexts ++ Clear.answers q'.calls)) : Simulates r q q' := by
  cases x with
  | call c =>
      obtain ⟨output, hok⟩ := execute_call_iff.mp hx
      obtain ⟨output', hok'⟩ := execute_call_iff.mp hx'
      rcases hsim.call_of_ok hvalid hok hfresh (by rw [hok']; exact hfree) with
        ⟨_, q₁, hq₁, hsim', -⟩ | ⟨cause, hcause, -⟩
      · rw [hok'] at hq₁
        obtain rfl := (Prod.mk.inj hq₁).2
        exact hsim'
      · rw [hok'] at hcause
        cases hcause
  | setDepth d =>
      obtain rfl := Option.some.inj hx
      obtain rfl := Option.some.inj hx'
      exact hsim.setDepth d
  | delegate ref d =>
      obtain rfl := Option.some.inj hx
      obtain rfl := Option.some.inj hx'
      exact hsim.delegate hfresh (hsim.paired hvalid) d
  | retire d =>
      obtain rfl := Option.some.inj hx
      obtain rfl := Option.some.inj hx'
      exact hsim.retire d

/-- Two runs of a valid program, as long as they both go on. -/
lemma of_execute {c : Context} (hreal : c.mode ≠ .estimating)
    (hcontent : c.vault.registry.ContentAddressed) {program : List Instruction}
    (hvalid : ValidProgram c.vault.registry program)
    (hp : execute ⟨Clear.engine, standIn⟩ program (.start { c with mode := .estimating }) = some p)
    (hp' : execute ⟨Clear.engine, standIn⟩ program (.start c) = some p')
    (hfresh : FreshOutputs c.vault.registry p.outputs)
    (hfree : CollisionFree (c.vault.registry.ciphertexts ++ Clear.answers p'.calls)) :
    Simulates c.vault.registry p p' ∧ p.outputs.length = outputCount program := by
  induction program using List.reverseRecOn generalizing p p' with
  | nil =>
      obtain rfl := Option.some.inj hp
      obtain rfl := Option.some.inj hp'
      exact ⟨.start hreal hcontent, rfl⟩
  | append_singleton program x ih =>
      rw [execute_append_singleton, Option.bind_eq_some_iff] at hp hp'
      obtain ⟨p₀, hp₀, hx⟩ := hp
      obtain ⟨p₀', hp₀', hx'⟩ := hp'
      obtain ⟨more, houtputs, hmore, -⟩ := outputs_execute hx
      obtain ⟨-, -, -, hcalls⟩ := outputs_execute hx'
      obtain ⟨hprogram, hinstruction⟩ := hvalid.of_append
      -- What is assumed at the end held before the last instruction, for less was there then.
      have hfresh₀ : FreshOutputs c.vault.registry p₀.outputs := by
        rw [houtputs] at hfresh
        exact hfresh.of_append
      have hfree₀ : CollisionFree (c.vault.registry.ciphertexts ++ Clear.answers p₀'.calls) :=
        collisionFree_of_calls hcalls hfree
      obtain ⟨hsim, hlength⟩ := ih hprogram hp₀ hp₀' hfresh₀ hfree₀
      refine ⟨hsim.step (hlength ▸ hinstruction) hx hx' hfresh hfree, ?_⟩
      rw [houtputs, List.length_append, hlength, hmore, outputCount, outputCount, List.map_append,
        List.sum_append]
      simp

end Simulates

/-! ## The main statement -/

/-- **Estimation simulates execution.**  A valid program is run while estimating and for real, from
contexts that differ in nothing but the mode, and all its calls succeed in both runs.  Then for one
more call:

* if it succeeds while estimating, then its price is the same in both runs, and for real it either
  succeeds with an output of the same length, and a ciphertext of the same width if it produces
  one, or evaluation fails;
* if it fails while estimating, for another reason than a handle that is not visible, then it fails
  for real for the same reason, and its price is the same.

The outputs of the estimating run are taken to be fresh, and different ciphertexts of the real one
to have different digests. -/
theorem estimation_simulates (standIn : Nat → Word) (c : Context) (program : List Instruction)
    (call : Call) {p p' q q' : Progress} {result result' : Except CallError Bytes}
    (hreal : c.mode ≠ .estimating) (hcontent : c.vault.registry.ContentAddressed)
    (hvalid : ValidProgram c.vault.registry (program ++ [.call call]))
    (hp : execute ⟨Clear.engine, standIn⟩ program (.start { c with mode := .estimating }) = some p)
    (hp' : execute ⟨Clear.engine, standIn⟩ program (.start c) = some p')
    (hq : call.perform ⟨Clear.engine, standIn⟩ p = (result, q))
    (hq' : call.perform ⟨Clear.engine, standIn⟩ p' = (result', q'))
    (hfresh : FreshOutputs c.vault.registry q.outputs)
    (hfree : CollisionFree (c.vault.registry.ciphertexts ++ Clear.answers q'.calls)) :
    (∀ output, result = .ok output →
      (∀ supplied, call.price supplied p' = call.price supplied p) ∧
      ((∃ output', result' = .ok output' ∧ output'.length = output.length ∧
          (call.method.produces = true →
            ∃ x x', Returned q output x ∧ Returned q' output' x' ∧ x'.width = x.width)) ∨
        ∃ cause, result' = .error cause ∧ cause.isEvaluation = true)) ∧
    ∀ cause, result = .error cause → cause.isUnverified = false →
      result' = .error cause ∧ ∀ supplied, call.price supplied p' = call.price supplied p := by
  obtain ⟨hprogram, hcall⟩ := hvalid.of_append
  obtain ⟨more, hmore⟩ : ∃ more, q.outputs = p.outputs ++ more := by
    have houtputs := outputs_perform ⟨Clear.engine, standIn⟩ call p
    rwa [hq] at houtputs
  have hcalls : p'.calls <+: q'.calls := by
    have hprefix := calls_prefix_perform ⟨Clear.engine, standIn⟩ call p'
    rwa [hq'] at hprefix
  obtain ⟨hsim, hlength⟩ := Simulates.of_execute hreal hcontent hprogram hp hp'
    (FreshOutputs.of_append (hmore ▸ hfresh)) (collisionFree_of_calls hcalls hfree)
  have hvalid' : call.Valid c.vault.registry p.outputs.length := hlength ▸ hcall
  constructor
  · rintro output rfl
    constructor
    · refine hsim.price_eq hvalid' ⟨Clear.engine, standIn⟩ fun cause hcause => ?_
      rw [hq] at hcause
      cases hcause
    · rcases hsim.call_of_ok hvalid' hq hfresh (by rw [hq']; exact hfree) with
        ⟨output', q₁, hq₁, -, hlen, hproduced⟩ | ⟨cause, hcause, heval⟩
      · rw [hq'] at hq₁
        obtain ⟨rfl, rfl⟩ := Prod.mk.inj hq₁
        exact .inl ⟨output', rfl, hlen, hproduced⟩
      · rw [hq'] at hcause
        exact .inr ⟨cause, hcause, heval⟩
  · rintro cause rfl hvisible
    have hfail : (call.perform ⟨Clear.engine, standIn⟩ p).1 = .error cause := by rw [hq]
    have hfail' := hsim.call_of_error hvalid' hfail hvisible
    rw [hq'] at hfail'
    refine ⟨hfail', hsim.price_eq hvalid' ⟨Clear.engine, standIn⟩ fun cause' hcause => ?_⟩
    rw [hfail] at hcause
    obtain rfl : cause = cause' := Except.error.inj hcause
    exact hvisible

/-- The encryption of 7 with 8 bits. -/
def encryptSeven : Call := ⟨.encrypt, [], (Word.ofNat 7).bytes ++ [Width.euint8.toByte]⟩

/-- The first output is required. -/
def requireFirst : Call := ⟨.require, [.output 0], []⟩

lemma demand_encryptSeven (p : Progress) :
    encryptSeven.demand p = .ok (.produce (.encrypt 7 .euint8)) := by
  have hpayload : Method.encrypt.payload (encryptSeven.input p.outputs) =
      (Word.ofNat 7).bytes ++ [Width.euint8.toByte] := by
    refine (encryptSeven.payload_input p.outputs).trans ?_
    exact List.take_of_length_le (show (Word.ofNat 7).bytes.length + 1 ≤ 33 by decide)
  have hseven : Bytes.low64 (Word.ofNat 7).bytes = 7 := by decide
  rw [← hseven, ← Context.demand_encrypt_append]
  exact congrArg (p.context.demand · .encrypt) hpayload

/-- A requirement on the first output succeeds, and neither asks the engine nor adds an output. -/
lemma perform_requireFirst {b : Backend} {p : Progress} {x : Ciphertext}
    (houtputs : p.outputs = [x.handle]) (hx : p.context.verified? x.handle = some x) :
    ∃ q, requireFirst.perform b p = (.ok [], q) ∧ q.outputs = p.outputs ∧ q.calls = p.calls := by
  have hpayload : Method.require.payload (requireFirst.input p.outputs) = x.handle.bytes := by
    have hrefs : requireFirst.refs = [.output 0] := rfl
    rw [houtputs]
    refine (Call.payload_of_singleton hrefs).trans ?_
    refine (congrArg (List.take 32) (List.append_nil _)).trans ?_
    exact List.take_of_length_le x.handle.length_bytes.le
  have hd : requireFirst.demand p = .ok (.state x) := by
    refine Context.demand_eq_state_iff.mpr ?_
    rw [show requireFirst.method = .require from rfl, hpayload, Handle.ofTail_bytes]
    exact ⟨rfl, x.handle.length_bytes, hx⟩
  have hrun := run_input_of_demand (b := b) hd
  have hok : (run b (requireFirst.input p.outputs) p.session).1 = .ok [] := by
    rw [hrun]
    rfl
  refine ⟨_, perform_of_ok hok, List.append_nil _, ?_⟩
  rw [Progress.calls, hrun]
  rfl

/-- The first call of a program encrypts 7. -/
lemma execute_encryptSeven {b : Backend} {c : Context} {x : Ciphertext}
    (hempty : c.vault.registry = .empty)
    (hx : (obtain b (.encrypt 7 .euint8) ⟨c, {}⟩).1 = .ok x) :
    ∃ p, execute b [.call encryptSeven] (.start c) = some p ∧ p.outputs = [x.handle] ∧
      p.context.verified? x.handle = some x ∧
      p.calls = (obtain b (.encrypt 7 .euint8) ⟨c, {}⟩).2.journal.calls := by
  obtain ⟨p, hp, hcontext, houtputs, hcalls⟩ := perform_produce (demand_encryptSeven (.start c)) hx
  refine ⟨p, ?_, houtputs, ?_, hcalls⟩
  · exact (execute_singleton b _ _).trans (execute_call_iff.mpr ⟨_, hp⟩)
  · have hnew : c.vault.registry.find? x.handle = none := by
      rw [hempty]
      rfl
    rw [hcontext]
    exact Registry.get?_register_new hnew

lemma validProgram_requireFirst :
    ValidProgram .empty ([.call encryptSeven] ++ [.call requireFirst]) := by
  intro before x after h
  rcases before with _ | ⟨y, _ | ⟨z, before⟩⟩
  · obtain ⟨rfl, -⟩ := List.cons.inj h
    refine ⟨.inl rfl, ?_⟩
    rintro ref ⟨⟩
  · obtain ⟨rfl, hrest⟩ := List.cons.inj h
    obtain ⟨rfl, -⟩ := List.cons.inj hrest
    refine ⟨.inl rfl, fun ref href => ?_⟩
    rw [List.mem_singleton.mp href]
    exact Nat.zero_lt_one
  · have hlen := congrArg List.length h
    simp at hlen

/-- A requirement on the first output costs the same in both runs. -/
theorem requirement_estimated :
    ∃ p p',
      execute ⟨Clear.engine, fun _ => .zero⟩ [.call encryptSeven] (.start { mode := .estimating }) =
        some p ∧
      execute ⟨Clear.engine, fun _ => .zero⟩ [.call encryptSeven] (.start { mode := .committing }) =
        some p' ∧
      ∀ supplied, requireFirst.price supplied p' = requireFirst.price supplied p := by
  obtain ⟨p, hp, houtputs, hvisible, -⟩ := execute_encryptSeven
    (b := ⟨Clear.engine, fun _ => .zero⟩) (c := { mode := .estimating })
    (x := ⟨.euint8, Word.zero.bytes⟩) rfl rfl
  obtain ⟨p', hp', houtputs', hvisible', hcalls'⟩ := execute_encryptSeven
    (b := ⟨Clear.engine, fun _ => .zero⟩) (c := { mode := .committing })
    (x := Clear.encode 7 .euint8) rfl rfl
  obtain ⟨q, hq, hqoutputs, -⟩ :=
    perform_requireFirst (b := ⟨Clear.engine, fun _ => .zero⟩) houtputs hvisible
  obtain ⟨q', hq', -, hqcalls'⟩ :=
    perform_requireFirst (b := ⟨Clear.engine, fun _ => .zero⟩) houtputs' hvisible'
  have hfresh : FreshOutputs .empty q.outputs := by
    rw [hqoutputs, houtputs]
    exact ⟨List.nodup_singleton _, fun _ _ => rfl⟩
  have hfree : CollisionFree (Registry.empty.ciphertexts ++ Clear.answers q'.calls) := by
    rw [hqcalls', hcalls']
    intro x hx y hy _
    exact (List.mem_singleton.mp hx).trans (List.mem_singleton.mp hy).symm
  have h := estimation_simulates (fun _ => .zero) { mode := .committing } [.call encryptSeven]
    requireFirst (by decide) Registry.contentAddressed_empty validProgram_requireFirst hp hp' hq hq'
    hfresh hfree
  exact ⟨p, p', hp, hp', (h.1 [] rfl).1⟩

end CipherCalls
