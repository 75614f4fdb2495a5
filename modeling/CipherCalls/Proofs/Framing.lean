/-
# What a run leaves alone

A run that fails leaves the registry as it was.  It leaves the pending requirements as they were,
too, with one exception: a real decryption that has found its ciphertext uses them up before
anything else can go wrong.

A run that succeeds changes what its method is for, and nothing else; this is `Method.Frame`.  In
particular, a method that produces a ciphertext touches the registry at the handle it returns only.

Both follow from the effect of a run.  A failure has no effect, except that the requirements may be
used up, because a ciphertext is registered and a requirement is stated at the very end of a run.
-/
import Mathlib
import CipherCalls.Proofs.Pending
import CipherCalls.Proofs.Performing

namespace CipherCalls

/-! ## Registries that differ at one handle -/

/-- A registry has gained a depth at a handle, or an entry that is visible at this depth only, and
is the same elsewhere. -/
structure Registry.GainsAt (r r' : Registry) (h : Handle) (d : Nat) : Prop where
  elsewhere : ∀ h', h' ≠ h → r'.find? h' = r.find? h'
  known : ∀ e, r.find? h = some e → r'.find? h = some (e.grant d)
  unknown : r.find? h = none → ∃ c : Ciphertext, c.handle = h ∧ r'.find? h = some ⟨h, c, [d]⟩

lemma Registry.gainsAt_register (r : Registry) (c : Ciphertext) (d : Nat) :
    r.GainsAt (r.register c d) c.handle d where
  elsewhere h' hne := by rw [find?_register, if_neg hne]
  known e he := by
    rw [find?_register, if_pos rfl, he]
    rfl
  unknown hnone := by
    refine ⟨c, rfl, ?_⟩
    rw [find?_register, if_pos rfl, hnone]
    rfl

/-! ## Results by effect -/

section Results

variable {b : Backend} {s : Session} {input : Bytes} {cause : CallError} {output : Bytes}

/-- What is registered is the last thing to happen in a run. -/
lemma run_of_registered {c : Ciphertext} (he : s.effect b input = .registered c) :
    (run b input s).1 = .ok c.handle.bytes := by
  obtain ⟨m, d, hm, hd, he⟩ := demand_of_effect he (by simp)
  obtain ⟨request, rfl, hc⟩ := Demand.effect_eq_registered_iff.mp he
  rw [run_of_demand hm hd]
  exact (meet_produce_of_ok hc).1

lemma run_of_stated {condition : Ciphertext} (he : s.effect b input = .stated condition) :
    (run b input s).1 = .ok [] := by
  obtain ⟨m, d, hm, hd, he⟩ := demand_of_effect he (by simp)
  obtain rfl := Demand.effect_eq_stated_iff.mp he
  rw [run_of_demand hm hd]
  rfl

/-- A failure has no effect, unless it comes after the requirements were used up. -/
lemma effect_of_error (h : (run b input s).1 = .error cause) :
    s.effect b input = .none ∨ s.effect b input = .drained := by
  cases he : s.effect b input with
  | none => exact .inl rfl
  | drained => exact .inr rfl
  | registered c =>
      rw [run_of_registered he] at h
      cases h
  | stated condition =>
      rw [run_of_stated he] at h
      cases h

/-- A run that succeeds in producing a ciphertext registers it and returns its handle. -/
lemma registered_of_ok {m : Method} {request : Engine.Request} (hm : dispatch input = .ok m)
    (hd : s.context.demand (m.payload input) m = .ok (.produce request))
    (h : (run b input s).1 = .ok output) :
    ∃ c, (obtain b request s).1 = .ok c ∧ s.effect b input = .registered c ∧
      output = c.handle.bytes := by
  cases hc : (obtain b request s).1 with
  | error cause =>
      rw [run_of_demand hm hd, meet_produce_of_error hc] at h
      cases h
  | ok c =>
      have he : s.effect b input = .registered c := by
        rw [effect_of_demand hm hd]
        exact Demand.effect_eq_registered_iff.mpr ⟨request, rfl, hc⟩
      exact ⟨c, rfl, he, Except.ok.inj (h.symm.trans (run_of_registered he))⟩

end Results

/-! ## Failures -/

section Failures

variable {b : Backend} {s : Session} {input : Bytes} {cause : CallError}

/-- A failure leaves the registry alone. -/
lemma registry_of_error (h : (run b input s).1 = .error cause) :
    (run b input s).2.context.vault.registry = s.context.vault.registry := by
  rw [context_run]
  rcases effect_of_error h with he | he
  · rw [he]
    rfl
  · rw [he]
    rfl

/-- A failure that is not one of a real decryption leaves the requirements alone. -/
lemma pending_of_error (h : (run b input s).1 = .error cause)
    (hnot : ∀ target, ¬s.Reveals input target) : (run b input s).2.pending = s.pending := by
  rw [Session.pending, context_run]
  rcases effect_of_error h with he | he
  · rw [he]
    rfl
  · obtain ⟨target, htarget⟩ := effect_eq_drained_iff.mp he
    exact absurd htarget (hnot target)

/-- A real decryption uses the requirements up. -/
lemma pending_of_reveals {target : Ciphertext} (h : s.Reveals input target) :
    (run b input s).2.pending = [] := by
  rw [Session.pending, context_run, effect_eq_drained_iff.mpr ⟨target, h⟩]
  rfl

end Failures

/-! ## Successes -/

/-- What a successful run of a method may have changed. -/
def Method.Frame (payload output : Bytes) (s s' : Session) : Method → Prop
  | add | sub | bitAnd | cast | encrypt =>
    s'.pending = s.pending ∧ ∃ h : Handle, output = h.bytes ∧
      s.context.vault.registry.GainsAt s'.context.vault.registry h s.context.depth
  | require =>
    s'.context.vault.registry = s.context.vault.registry ∧
      ∃ condition, s.context.verified? (.ofTail payload) = some condition ∧
        s'.pending = s.pending ++ [condition]
  | decrypt =>
    s'.context.vault.registry = s.context.vault.registry ∧
      s'.pending = if s.context.mode = .estimating then s.pending else []
  | publicKey | padGas => s'.context = s.context

section Successes

variable {b : Backend} {s : Session} {input output : Bytes} {m : Method}

/-- A method that produces a ciphertext registers it at the handle it returns. -/
lemma frame_of_produces {request : Engine.Request} (hm : dispatch input = .ok m)
    (hd : s.context.demand (m.payload input) m = .ok (.produce request))
    (h : (run b input s).1 = .ok output) :
    m.Frame (m.payload input) output s (run b input s).2 := by
  obtain ⟨c, -, he, rfl⟩ := registered_of_ok hm hd h
  have hcontext : (run b input s).2.context = s.context.register c := by
    rw [context_run, he]
    rfl
  have hgains : (run b input s).2.pending = s.pending ∧
      ∃ h' : Handle, c.handle.bytes = h'.bytes ∧ s.context.vault.registry.GainsAt
        (run b input s).2.context.vault.registry h' s.context.depth := by
    rw [Session.pending, hcontext]
    exact ⟨rfl, c.handle, rfl, Registry.gainsAt_register _ c _⟩
  have hproduces := (produces_iff hd).mpr ⟨request, rfl⟩
  cases m with
  | add | sub | bitAnd | cast | encrypt => exact hgains
  | decrypt | publicKey | require | padGas => cases hproduces

/-- A success changes no more than its method is for. -/
theorem frame_of_ok (h : (run b input s).1 = .ok output) :
    ∃ m, dispatch input = .ok m ∧ m.Frame (m.payload input) output s (run b input s).2 := by
  obtain ⟨m, d, hm, hd⟩ := demand_of_run_ok h
  refine ⟨m, hm, ?_⟩
  have hcontext := context_run b input s
  rw [effect_of_demand hm hd] at hcontext
  cases d with
  | produce request => exact frame_of_produces hm hd h
  | reveal target =>
      obtain ⟨rfl, -, -⟩ := Context.demand_eq_reveal_iff.mp hd
      rw [Method.Frame, Session.pending, hcontext, Demand.effect]
      split <;> exact ⟨rfl, rfl⟩
  | state condition =>
      obtain ⟨rfl, -, hverified⟩ := Context.demand_eq_state_iff.mp hd
      rw [Method.Frame, Session.pending, hcontext, Demand.effect]
      exact ⟨rfl, condition, hverified, rfl⟩
  | serveKey =>
      obtain rfl := Context.demand_eq_serveKey_iff.mp hd
      exact hcontext
  | pad =>
      obtain rfl := Context.demand_eq_pad_iff.mp hd
      exact hcontext

end Successes

/-! ## The main statement -/

/-- **Runs are atomic and framed**, whatever the engine answers:

* no run changes the settings of the host: the mode, the depth, the gas limit, the prices, the
  public key and the digest on record;
* a run that fails leaves the registry alone, and also the requirements, unless it is a real
  decryption that has found its ciphertext, in which case none are left;
* a run that succeeds changes no more than its method is for. -/
theorem run_framed (b : Backend) (input : Bytes) (s : Session) :
    (run b input s).2.context.settings = s.context.settings ∧
    (∀ cause, (run b input s).1 = .error cause →
      (run b input s).2.context.vault.registry = s.context.vault.registry ∧
      ((∀ target, ¬s.Reveals input target) → (run b input s).2.pending = s.pending) ∧
      ∀ target, s.Reveals input target → (run b input s).2.pending = []) ∧
    ∀ output, (run b input s).1 = .ok output →
      ∃ m, dispatch input = .ok m ∧ m.Frame (m.payload input) output s (run b input s).2 := by
  refine ⟨?_, fun cause h => ⟨registry_of_error h, pending_of_error h, ?_⟩,
    fun output => frame_of_ok⟩
  · rw [context_run, Effect.settings_apply]
  · exact fun target => pending_of_reveals

/-- The refused decryption leaves the registry alone and no requirements behind.  An input without
a selector leaves the requirements alone as well, and one more requirement is added to them. -/
theorem refusal_framed :
    (run ⟨Clear.engine, fun _ => .zero⟩ withheldCall withheldSession).2.context.vault.registry =
        withheldSession.context.vault.registry ∧
      (run ⟨Clear.engine, fun _ => .zero⟩ withheldCall withheldSession).2.pending = [] ∧
      (run ⟨Clear.engine, fun _ => .zero⟩ [] withheldSession).2.pending =
        withheldSession.pending ∧
      (run ⟨Clear.engine, fun _ => .zero⟩ (requireCall withheldAnswer.handle)
        withheldSession).2.pending = withheldSession.pending ++ [withheldAnswer] := by
  have hverdict : (withheldSession.verdict ⟨Clear.engine, fun _ => .zero⟩).1 ≠ .ok true := by
    decide
  have hrefused := (run_framed ⟨Clear.engine, fun _ => .zero⟩ withheldCall withheldSession).2.1 _
    (withheldSession_reveals.refused hverdict).1
  refine ⟨hrefused.1, hrefused.2.2 withheldAnswer withheldSession_reveals, ?_, ?_⟩
  · refine ((run_framed _ [] withheldSession).2.1 (.missingSelector 0) rfl).2.1 fun target h => ?_
    cases h.dispatched
  · have hanswer :
        withheldSession.context.verified? withheldAnswer.handle = some withheldAnswer := by
      have hverified := withheldSession_reveals.verified
      rwa [withheldCall_payload, Handle.ofTail_bytes] at hverified
    obtain ⟨m, hm, hframe⟩ := (run_framed ⟨Clear.engine, fun _ => .zero⟩ _ withheldSession).2.2 []
      (run_of_stated (effect_requireCall hanswer))
    obtain rfl : Method.require = m :=
      Except.ok.inj ((dispatch_encodeCall .require [withheldAnswer.handle.bytes]).symm.trans hm)
    obtain ⟨-, condition, hcondition, hpending⟩ := hframe
    rw [requireCall, payload_encodeCall_handle rfl, Handle.ofTail_bytes, hanswer] at hcondition
    rw [hpending, Option.some.inj hcondition]

end CipherCalls
