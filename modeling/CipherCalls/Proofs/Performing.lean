/-
# Performing calls

What a call of a program does is told by the demand it makes.  A call that demands a ciphertext
registers it and adds its handle to the outputs of the program.  Any other call leaves the
registry and the outputs as they are, and may only use the requirements up.

No call changes the settings of the context, takes an output away or makes the engine forget what
it was asked.
-/
import Mathlib
import CipherCalls.Proofs.Program
import CipherCalls.Proofs.Reveal

namespace CipherCalls

/-! ## Calls by their demand -/

/-- Whether a failure comes from the engine, or from the requirements that are checked before a
decryption. -/
def CallError.isEvaluation : CallError → Bool
  | engine _ | reverted | requireEvaluation _ => true
  | _ => false

/-- The methods that produce a ciphertext are those that demand one. -/
lemma produces_iff {c : Context} {m : Method} {payload : Bytes} {d : Demand}
    (hd : c.demand payload m = .ok d) : m.produces = true ↔ ∃ request, d = .produce request := by
  cases m with
  | add | sub | bitAnd | cast | encrypt =>
      obtain ⟨_, -, rfl⟩ := map_eq_ok hd
      exact iff_of_true rfl ⟨_, rfl⟩
  | decrypt | require =>
      obtain ⟨_, -, rfl⟩ := map_eq_ok hd
      exact iff_of_false Bool.false_ne_true (by simp)
  | publicKey | padGas =>
      cases hd
      exact iff_of_false Bool.false_ne_true (by simp)

section Meeting

variable {b : Backend} {m : Method} {payload : Bytes} {s s' : Session}

lemma length_reveal {target : Ciphertext} {output : Bytes}
    (h : (reveal b payload target s).1 = .ok output) : output.length = 32 := by
  by_cases hmode : s.context.mode = .estimating
  · rw [reveal_of_estimating hmode] at h
    cases h
    rfl
  · by_cases hverdict : (s.verdict b).1 = .ok true
    · rw [reveal_of_granted hmode hverdict] at h
      split at h <;> cases h
      exact Word.length_bytes _
    · rw [(reveal_of_refused hmode hverdict).1] at h
      cases h

lemma isEvaluation_reveal {target : Ciphertext} {cause : CallError}
    (h : (reveal b payload target s).1 = .error cause) : cause.isEvaluation = true := by
  by_cases hmode : s.context.mode = .estimating
  · rw [reveal_of_estimating hmode] at h
    cases h
  · by_cases hverdict : (s.verdict b).1 = .ok true
    · rw [reveal_of_granted hmode hverdict] at h
      split at h <;> cases h
      rfl
    · rw [(reveal_of_refused hmode hverdict).1] at h
      cases h
      cases (s.verdict b).1 <;> rfl

/-- Serving the key depends on nothing but the key and the digest on record. -/
lemma runPublicKey_fst (hkey : s'.context.publicKey = s.context.publicKey)
    (hhash : s'.context.recordedHash = s.context.recordedHash) :
    (runPublicKey payload s').1 = (runPublicKey payload s).1 := by
  unfold runPublicKey
  rw [hkey, hhash]
  cases s.context.publicKey with
  | none => rfl
  | some key =>
      simp only
      split <;> rfl

/-- A demand for anything but a ciphertext leaves the registry alone. -/
lemma registry_meet {d : Demand} (hquiet : ∀ request, d ≠ .produce request) :
    (meet b m payload d s).2.context.vault.registry = s.context.vault.registry := by
  rw [context_meet]
  cases d with
  | produce request => exact absurd rfl (hquiet request)
  | reveal target =>
      rw [Demand.effect]
      split <;> rfl
  | state | serveKey | pad => rfl

/-- Demands of one outline for anything but a ciphertext, met in two sessions: if the first one is
met, then the second one is met with an answer of the same length, or evaluation fails. -/
lemma meet_of_quiet {d d' : Demand} (hquiet : ∀ request, d ≠ .produce request)
    (houtline : d'.outline = d.outline) {payload' : Bytes}
    (hserve : d = .serveKey → payload' = payload)
    (hkey : s'.context.publicKey = s.context.publicKey)
    (hhash : s'.context.recordedHash = s.context.recordedHash) {output : Bytes}
    (hok : (meet b m payload d s).1 = .ok output) :
    (∃ output', (meet b m payload' d' s').1 = .ok output' ∧ output'.length = output.length) ∨
      ∃ cause, (meet b m payload' d' s').1 = .error cause ∧ cause.isEvaluation = true := by
  cases d with
  | produce request => exact absurd rfl (hquiet request)
  | reveal target =>
      obtain ⟨target', rfl, -⟩ := Demand.outline_eq_reveal_iff.mp houtline
      simp only [meet, reported_fst] at hok ⊢
      cases hresult : (reveal b payload' target' s').1 with
      | error cause => exact .inr ⟨cause, rfl, isEvaluation_reveal hresult⟩
      | ok output' =>
          exact .inl ⟨output', rfl, (length_reveal hresult).trans (length_reveal hok).symm⟩
  | state condition =>
      obtain ⟨condition', rfl, -⟩ := Demand.outline_eq_state_iff.mp houtline
      cases hok
      exact .inl ⟨[], rfl, rfl⟩
  | serveKey =>
      obtain rfl := Demand.outline_eq_serveKey_iff.mp houtline
      obtain rfl := hserve rfl
      refine .inl ⟨output, ?_, rfl⟩
      rw [meet, runPublicKey_fst hkey hhash]
      exact hok
  | pad =>
      obtain rfl := Demand.outline_eq_pad_iff.mp houtline
      cases hok
      exact .inl ⟨[], rfl, rfl⟩

end Meeting

/-! ## The progress after a call -/

/-- The settings of a context. -/
def Context.settings (c : Context) : Context := { c with vault := {} }

lemma Effect.settings_apply (e : Effect) (c : Context) : (e.apply c).settings = c.settings := by
  cases e <;> rfl

/-- Nothing has changed but the requirements and the journal. -/
structure Progress.Quiet (p q : Progress) : Prop where
  settings : q.context.settings = p.context.settings
  registry : q.registry = p.registry
  outputs : q.outputs = p.outputs
  calls : p.calls <+: q.calls

/-- The output of a call is the handle of a ciphertext that is visible now. -/
def Returned (q : Progress) (output : Bytes) (x : Ciphertext) : Prop :=
  ∃ h : Handle, output = h.bytes ∧ q.context.verified? h = some x

/-- What a call demands. -/
def Call.demand (call : Call) (p : Progress) : Except CallError Demand :=
  p.context.demand (call.method.payload (call.input p.outputs)) call.method

section Results

variable {b : Backend} {call : Call} {p : Progress}

lemma run_input_of_demand {d : Demand} (hd : call.demand p = .ok d) :
    run b (call.input p.outputs) p.session =
      meet b call.method (call.method.payload (call.input p.outputs)) d p.session :=
  run_of_demand (call.dispatch_input p.outputs) hd

lemma run_input_of_demand_error {cause : CallError} (hd : call.demand p = .error cause) :
    (run b (call.input p.outputs) p.session).1 = .error cause := by
  rw [run_of_demand_error (call.dispatch_input p.outputs) hd]

lemma perform_of_ok {output : Bytes}
    (h : (run b (call.input p.outputs) p.session).1 = .ok output) :
    call.perform b p =
      (.ok output, ⟨(run b (call.input p.outputs) p.session).2,
        p.outputs ++ call.method.handles output⟩) := by
  unfold Call.perform
  generalize run b (call.input p.outputs) p.session = o at h ⊢
  obtain ⟨result, s⟩ := o
  obtain rfl : result = .ok output := h
  rfl

lemma perform_of_error {cause : CallError}
    (h : (run b (call.input p.outputs) p.session).1 = .error cause) :
    call.perform b p =
      (.error cause, ⟨(run b (call.input p.outputs) p.session).2, p.outputs⟩) := by
  unfold Call.perform
  generalize run b (call.input p.outputs) p.session = o at h ⊢
  obtain ⟨result, s⟩ := o
  obtain rfl : result = .error cause := h
  rfl

end Results

section Perform

variable (b : Backend) (call : Call) (p : Progress)

/-- The result of a call is that of its run. -/
lemma perform_fst : (call.perform b p).1 = (run b (call.input p.outputs) p.session).1 := by
  cases h : (run b (call.input p.outputs) p.session).1 with
  | error cause => rw [perform_of_error h]
  | ok output => rw [perform_of_ok h]

lemma session_perform :
    (call.perform b p).2.session = (run b (call.input p.outputs) p.session).2 := by
  cases h : (run b (call.input p.outputs) p.session).1 with
  | error cause => rw [perform_of_error h]
  | ok output => rw [perform_of_ok h]

/-- A call does not change the settings. -/
lemma settings_perform : (call.perform b p).2.context.settings = p.context.settings := by
  rw [Progress.context, session_perform, context_run, Effect.settings_apply]
  rfl

/-- A call makes the engine forget nothing. -/
lemma calls_prefix_perform : p.calls <+: (call.perform b p).2.calls := by
  rw [Progress.calls, Progress.calls, session_perform]
  exact calls_prefix_run b _ _

/-- A call takes no outputs away. -/
lemma outputs_perform : ∃ more, (call.perform b p).2.outputs = p.outputs ++ more := by
  cases h : (run b (call.input p.outputs) p.session).1 with
  | error cause => exact ⟨[], by rw [perform_of_error h, List.append_nil]⟩
  | ok output => exact ⟨call.method.handles output, by rw [perform_of_ok h]⟩

end Perform

section Demands

variable {b : Backend} {call : Call} {p q : Progress}

lemma perform_of_demand_error {cause : CallError} (hd : call.demand p = .error cause) :
    (call.perform b p).1 = .error cause := by
  rw [perform_fst, run_input_of_demand_error hd]

/-- A call that demands a ciphertext and gets one. -/
lemma perform_produce {request : Engine.Request} {c : Ciphertext}
    (hd : call.demand p = .ok (.produce request))
    (hc : (obtain b request p.session).1 = .ok c) :
    ∃ q, call.perform b p = (.ok c.handle.bytes, q) ∧ q.context = p.context.register c ∧
      q.outputs = p.outputs ++ [c.handle] ∧
      q.calls = (obtain b request p.session).2.journal.calls := by
  have hrun := run_input_of_demand (b := b) hd
  obtain ⟨hresult, hcontext⟩ := meet_produce_of_ok (m := call.method) hc
  have hproduces : call.method.produces = true := (produces_iff hd).mpr ⟨request, rfl⟩
  refine ⟨_, perform_of_ok (by rw [hrun]; exact hresult), ?_, ?_, ?_⟩
  · rw [Progress.context, hrun]
    exact hcontext
  · rw [Method.handles, if_pos hproduces, Handle.ofBytes?_bytes]
    rfl
  · rw [Progress.calls, hrun, meet, calls_reported, calls_produce]

/-- A call that demands a ciphertext which the engine refuses. -/
lemma perform_refused {request : Engine.Request} {cause : EngineError}
    (hd : call.demand p = .ok (.produce request))
    (hc : (obtain b request p.session).1 = .error cause) :
    (call.perform b p).1 = .error (.engine cause) := by
  rw [perform_fst, run_input_of_demand hd]
  exact meet_produce_of_error hc

/-- A successful call that demands something else. -/
lemma perform_quiet {d : Demand} {output : Bytes} (hd : call.demand p = .ok d)
    (hquiet : ∀ request, d ≠ .produce request) (hok : call.perform b p = (.ok output, q)) :
    p.Quiet q := by
  have hq : q = (call.perform b p).2 := by rw [hok]
  have hresult : (run b (call.input p.outputs) p.session).1 = .ok output := by
    rw [← perform_fst, hok]
  have hproduces : ¬call.method.produces = true := by
    intro hproduces
    obtain ⟨request, hrequest⟩ := (produces_iff hd).mp hproduces
    exact hquiet request hrequest
  rw [hq]
  exact
    { settings := settings_perform b call p
      registry := by
        rw [Progress.registry, session_perform, run_input_of_demand hd]
        exact registry_meet hquiet
      outputs := by
        rw [perform_of_ok hresult, Method.handles, if_neg hproduces, List.append_nil]
      calls := calls_prefix_perform b call p }

/-- A successful call returns one handle if it produces a ciphertext. -/
lemma length_handles {output : Bytes}
    (hok : (run b (call.input p.outputs) p.session).1 = .ok output) :
    (call.method.handles output).length = (Instruction.call call).yield := by
  rw [Method.handles, Instruction.yield]
  split
  · rename_i hproduces
    cases hd : call.demand p with
    | error cause =>
        rw [run_input_of_demand_error hd] at hok
        cases hok
    | ok d =>
        obtain ⟨request, rfl⟩ := (produces_iff hd).mp hproduces
        rw [run_input_of_demand hd, meet, reported_fst, produce_fst] at hok
        split at hok
        · cases hok
        · obtain rfl := Except.ok.inj hok
          rw [Handle.ofBytes?_bytes]
          rfl
  · rfl

/-- An instruction adds its outputs, and the engine is only asked more. -/
lemma outputs_execute {x : Instruction} (hx : x.execute b p = some q) :
    ∃ more, q.outputs = p.outputs ++ more ∧ more.length = x.yield ∧ p.calls <+: q.calls := by
  cases x with
  | call c =>
      obtain ⟨output, hok⟩ := execute_call_iff.mp hx
      have hcalls := calls_prefix_perform b c p
      have hrun : (run b (c.input p.outputs) p.session).1 = .ok output := by
        rw [← perform_fst, hok]
      have hq := perform_of_ok hrun
      rw [hok] at hcalls hq
      obtain rfl := (Prod.mk.inj hq).2
      exact ⟨c.method.handles output, rfl, length_handles hrun, hcalls⟩
  | setDepth d | delegate ref d | retire d =>
      obtain rfl := Option.some.inj hx
      exact ⟨[], (List.append_nil _).symm, rfl, List.prefix_refl _⟩

end Demands

end CipherCalls
