/-
# Pending requirements along a history

Which requirements are pending can be told from the history of a session alone.  A step leaves one
of three marks: it states a requirement, it drains the pending ones, or neither.  The pending
requirements are those stated since the last drain, in the order in which they were stated and as
often as they were stated.

What comes of a drain is of no importance: the requirements are gone also when the check fails or
an engine error ends it.  Nor does the registry matter once a requirement is stated.
-/
import Mathlib
import CipherCalls.Proofs.History
import CipherCalls.Proofs.Reveal

namespace CipherCalls

/-! ## Marks -/

/-- What a step does to the pending requirements. -/
inductive Mark where
  /-- It states one more. -/
  | stated (condition : Ciphertext)
  /-- It uses them up. -/
  | drained
  /-- It leaves them alone. -/
  | quiet
deriving DecidableEq

/-- The requirement a mark speaks of. -/
def Mark.condition? : Mark → Option Ciphertext
  | stated condition => some condition
  | drained | quiet => none

/-- The mark of a run.  A requirement is stated by a successful run of the method for it; it is the
ciphertext named by the payload.  A decryption drains once it is real and has a payload of 32 bytes
that names a visible ciphertext. -/
def Session.markOfRun (b : Backend) (s : Session) (input : Bytes) : Mark :=
  match dispatch input with
  | .ok .require =>
    match (run b input s).1, s.context.verified? (.ofTail (Method.require.payload input)) with
    | .ok _, some condition => .stated condition
    | _, _ => .quiet
  | .ok .decrypt =>
    if s.context.mode ≠ .estimating ∧ (Method.decrypt.payload input).length = 32 ∧
        (s.context.verified? (.ofTail (Method.decrypt.payload input))).isSome then .drained
    else .quiet
  | _ => .quiet

/-- The mark of a step. -/
def Step.mark (b : Backend) (s : Session) : Step → Mark
  | run input => s.markOfRun b input
  | settle => .drained
  | meter .. | register _ | delegate .. | retire _ | setDepth _ | handOver _ => .quiet

/-- The marks that a history leaves. -/
def Session.marks (b : Backend) (s : Session) : List Step → List Mark
  | [] => []
  | x :: steps => x.mark b s :: (x.apply b s).marks b steps

/-- The requirements stated after the last drain. -/
def statedSinceDrain (marks : List Mark) : List Ciphertext :=
  (marks.reverse.takeWhile (· ≠ .drained)).reverse.filterMap Mark.condition?

lemma Session.marks_append_singleton (b : Backend) (s : Session) (steps : List Step) (x : Step) :
    s.marks b (steps ++ [x]) = s.marks b steps ++ [x.mark b (s.after b steps)] := by
  induction steps generalizing s with
  | nil => rfl
  | cons y steps ih =>
      rw [List.cons_append, marks, ih, marks, List.cons_append]
      rfl

/-- The pending requirements after a step with a given mark. -/
def Mark.update : Mark → List Ciphertext → List Ciphertext
  | stated condition, pending => pending ++ [condition]
  | drained, _ => []
  | quiet, pending => pending

lemma statedSinceDrain_append_singleton (marks : List Mark) (m : Mark) :
    statedSinceDrain (marks ++ [m]) = m.update (statedSinceDrain marks) := by
  cases m with
  | stated condition => simp [statedSinceDrain, Mark.update, Mark.condition?]
  | drained => simp [statedSinceDrain, Mark.update]
  | quiet => simp [statedSinceDrain, Mark.update, Mark.condition?]

/-! ## The mark of a run is that of its effect -/

/-- The mark an effect leaves. -/
def Effect.mark : Effect → Mark
  | none | registered _ => .quiet
  | stated condition => .stated condition
  | drained => .drained

/-- Two marks are the same if they state the same and drain alike. -/
lemma Mark.ext_of_iff {m m' : Mark} (hdrained : m = .drained ↔ m' = .drained)
    (hstated : ∀ condition, m = .stated condition ↔ m' = .stated condition) : m = m' := by
  cases m with
  | stated condition => exact ((hstated condition).mp rfl).symm
  | drained => exact (hdrained.mp rfl).symm
  | quiet =>
      cases m' with
      | stated condition => exact (hstated condition).mpr rfl
      | drained => exact hdrained.mpr rfl
      | quiet => rfl

section MarkOfRun

variable {b : Backend} {s : Session} {input : Bytes} {condition : Ciphertext}

/-- A run that has an effect meets a demand, and the effect is that of the demand. -/
lemma demand_of_effect {e : Effect} (he : s.effect b input = e) (hne : e ≠ .none) :
    ∃ m demand, dispatch input = .ok m ∧ s.context.demand (m.payload input) m = .ok demand ∧
      demand.effect b s = e := by
  subst he
  cases hm : dispatch input with
  | error cause => simp [Session.effect, hm] at hne
  | ok m =>
      cases hd : s.context.demand (m.payload input) m with
      | error cause => simp [Session.effect, hm, hd] at hne
      | ok demand => exact ⟨m, demand, rfl, hd, (effect_of_demand hm hd).symm⟩

lemma effect_eq_drained_iff : s.effect b input = .drained ↔ ∃ target, s.Reveals input target := by
  constructor
  · intro h
    obtain ⟨m, demand, hm, hd, he⟩ := demand_of_effect h (by simp)
    obtain ⟨hreal, target, rfl⟩ := Demand.effect_eq_drained_iff.mp he
    obtain ⟨rfl, hlen, htarget⟩ := Context.demand_eq_reveal_iff.mp hd
    exact ⟨target, hreal, hm, hlen, htarget⟩
  · rintro ⟨target, hreveals⟩
    rw [effect_of_demand hreveals.dispatched hreveals.demand_eq]
    exact Demand.effect_eq_drained_iff.mpr ⟨hreveals.real, target, rfl⟩

lemma effect_eq_stated_iff :
    s.effect b input = .stated condition ↔
      dispatch input = .ok .require ∧ (Method.require.payload input).length = 32 ∧
        s.context.verified? (.ofTail (Method.require.payload input)) = some condition := by
  constructor
  · intro h
    obtain ⟨m, demand, hm, hd, he⟩ := demand_of_effect h (by simp)
    obtain rfl := Demand.effect_eq_stated_iff.mp he
    obtain ⟨rfl, hresolved⟩ := Context.demand_eq_state_iff.mp hd
    exact ⟨hm, hresolved⟩
  · rintro ⟨hm, hresolved⟩
    have hd : s.context.demand (Method.require.payload input) .require = .ok (.state condition) :=
      Context.demand_eq_state_iff.mpr ⟨rfl, hresolved⟩
    rw [effect_of_demand hm hd]
    rfl

/-- A run of the method for requirements succeeds only on a payload of 32 bytes that names a
visible ciphertext. -/
lemma run_require_eq_ok_iff (hm : dispatch input = .ok .require) :
    (∃ output, (run b input s).1 = .ok output) ↔
      (Method.require.payload input).length = 32 ∧
        (s.context.verified? (.ofTail (Method.require.payload input))).isSome := by
  constructor
  · rintro ⟨output, houtput⟩
    cases hd : s.context.demand (Method.require.payload input) .require with
    | error cause =>
        rw [run_of_demand_error hm hd] at houtput
        cases houtput
    | ok demand =>
        obtain ⟨condition, hcondition, -⟩ := map_eq_ok hd
        obtain ⟨hlen, hverified⟩ := Context.resolveTarget_eq_ok_iff.mp hcondition
        exact ⟨hlen, Option.isSome_iff_exists.mpr ⟨condition, hverified⟩⟩
  · rintro ⟨hlen, hverified⟩
    obtain ⟨condition, hcondition⟩ := Option.isSome_iff_exists.mp hverified
    have hd : s.context.demand (Method.require.payload input) .require = .ok (.state condition) :=
      Context.demand_eq_state_iff.mpr ⟨rfl, hlen, hcondition⟩
    refine ⟨[], ?_⟩
    rw [run_of_demand hm hd]
    rfl

lemma markOfRun_eq_drained_iff :
    s.markOfRun b input = .drained ↔ ∃ target, s.Reveals input target := by
  constructor
  · intro h
    rw [Session.markOfRun] at h
    split at h
    · split at h <;> cases h
    · rename_i hm
      split at h
      · rename_i hc
        obtain ⟨hreal, hlen, hverified⟩ := hc
        obtain ⟨target, htarget⟩ := Option.isSome_iff_exists.mp hverified
        exact ⟨target, hreal, hm, hlen, htarget⟩
      · cases h
    · cases h
  · rintro ⟨target, hreal, hm, hlen, htarget⟩
    rw [Session.markOfRun]
    simp only [hm]
    exact if_pos ⟨hreal, hlen, Option.isSome_iff_exists.mpr ⟨target, htarget⟩⟩

lemma markOfRun_eq_stated_iff :
    s.markOfRun b input = .stated condition ↔
      dispatch input = .ok .require ∧ (Method.require.payload input).length = 32 ∧
        s.context.verified? (.ofTail (Method.require.payload input)) = some condition := by
  constructor
  · intro h
    rw [Session.markOfRun] at h
    split at h
    · rename_i hm
      split at h
      · rename_i output condition' houtput hverified
        cases h
        exact ⟨hm, ((run_require_eq_ok_iff hm).mp ⟨output, houtput⟩).1, hverified⟩
      · cases h
    · split at h <;> cases h
    · cases h
  · rintro ⟨hm, hlen, hverified⟩
    obtain ⟨output, houtput⟩ : ∃ output, (run b input s).1 = .ok output :=
      (run_require_eq_ok_iff hm).mpr ⟨hlen, Option.isSome_iff_exists.mpr ⟨condition, hverified⟩⟩
    rw [Session.markOfRun]
    simp only [hm, houtput, hverified]

/-- The mark of a run is that of its effect. -/
lemma mark_effect : (s.effect b input).mark = s.markOfRun b input := by
  refine Mark.ext_of_iff ?_ fun condition => ?_
  · rw [markOfRun_eq_drained_iff, ← effect_eq_drained_iff (b := b)]
    cases s.effect b input <;> simp [Effect.mark]
  · rw [markOfRun_eq_stated_iff, ← effect_eq_stated_iff (b := b)]
    cases s.effect b input <;> simp [Effect.mark]

end MarkOfRun

/-! ## Along a history -/

/-- The pending requirements of a session, oldest first. -/
def Session.pending (s : Session) : List Ciphertext := s.context.vault.requires.conditions

lemma pending_run (b : Backend) (s : Session) (input : Bytes) :
    (run b input s).2.pending = (s.markOfRun b input).update s.pending := by
  rw [Session.pending, context_run, ← mark_effect]
  cases s.effect b input <;> rfl

lemma pending_settle (b : Backend) (s : Session) : (settleRequires b s).2.pending = [] := by
  rw [Session.pending, context_settleRequires]
  rfl

/-- A step changes the pending requirements as its mark says. -/
theorem pending_apply (b : Backend) (s : Session) (x : Step) :
    (x.apply b s).pending = (x.mark b s).update s.pending := by
  cases x with
  | run input => exact pending_run b s input
  | settle => exact pending_settle b s
  | meter supplied input =>
      rw [Step.apply, Session.pending, Session.context_logAll]
      rfl
  | register | delegate | retire | setDepth | handOver => rfl

/-- After a history from a fresh session, the pending requirements are those stated since the last
drain. -/
lemma pending_after (b : Backend) (settings : Context) (steps : List Step) :
    ((Session.fresh settings).after b steps).pending =
      statedSinceDrain ((Session.fresh settings).marks b steps) := by
  induction steps using List.reverseRecOn with
  | nil => rfl
  | append_singleton steps x ih =>
      rw [Session.after_append_singleton, pending_apply, ih, Session.marks_append_singleton,
        statedSinceDrain_append_singleton]

/-- A decryption that does not get as far as its requirements leaves them alone. -/
lemma pending_run_of_not_reveals {b : Backend} {s : Session} {input : Bytes}
    (hm : dispatch input = .ok .decrypt) (hnot : ∀ target, ¬s.Reveals input target) :
    (run b input s).2.pending = s.pending := by
  have hquiet : s.markOfRun b input = .quiet := by
    cases hmark : s.markOfRun b input with
    | quiet => rfl
    | drained =>
        obtain ⟨target, htarget⟩ := markOfRun_eq_drained_iff.mp hmark
        exact absurd htarget (hnot target)
    | stated condition =>
        have hrequire := (markOfRun_eq_stated_iff.mp hmark).1
        rw [hm] at hrequire
        cases hrequire
  rw [pending_run, hquiet]
  rfl

/-- **The pending requirements are those stated since the last drain**, whatever the engine
answers: in the order in which they were stated, as often as they were stated, and no others.  In
particular they survive the depth they were stated at, and decryptions that are only estimated,
have a payload of another length or name no visible ciphertext; and nothing is left after a drain,
whatever its outcome. -/
theorem pending_along_history (b : Backend) (settings : Context) :
    (∀ steps : List Step,
      ((Session.fresh settings).after b steps).pending =
        statedSinceDrain ((Session.fresh settings).marks b steps)) ∧
    ∀ s : Session,
      (∀ d, ((Step.retire d).apply b s).pending = s.pending) ∧
      (∀ input, dispatch input = .ok .decrypt →
        (s.context.mode = .estimating ∨ (Method.decrypt.payload input).length ≠ 32 ∨
          s.context.verified? (.ofTail (Method.decrypt.payload input)) = none) →
        (run b input s).2.pending = s.pending) ∧
      (∀ input target, s.Reveals input target → (run b input s).2.pending = []) ∧
      ((Step.settle).apply b s).pending = [] := by
  refine ⟨pending_after b settings, fun s => ⟨fun d => rfl, ?_, ?_, pending_settle b s⟩⟩
  · intro input hm hfails
    refine pending_run_of_not_reveals hm fun target h => ?_
    rcases hfails with hmode | hlen | hnone
    · exact h.real hmode
    · exact hlen h.length_payload
    · rw [h.verified] at hnone
      cases hnone
  · intro input target h
    rw [pending_run, markOfRun_eq_drained_iff.mpr ⟨target, h⟩]
    rfl

/-- The call that states a requirement. -/
def requireCall (h : Handle) : Bytes := encodeCall Method.require.signature [h.bytes]

lemma effect_requireCall {b : Backend} {s : Session} {c : Ciphertext} {h : Handle}
    (hc : s.context.verified? h = some c) : s.effect b (requireCall h) = .stated c := by
  have hpayload : Method.require.payload (requireCall h) = h.bytes :=
    payload_encodeCall_handle rfl h
  refine effect_eq_stated_iff.mpr ⟨dispatch_encodeCall .require _, ?_, ?_⟩
  · rw [hpayload, Handle.length_bytes]
  · rw [hpayload, Handle.ofTail_bytes, hc]

lemma markOfRun_requireCall {b : Backend} {s : Session} {c : Ciphertext} {h : Handle}
    (hc : s.context.verified? h = some c) : s.markOfRun b (requireCall h) = .stated c := by
  rw [← mark_effect, effect_requireCall hc]
  rfl

/-- A ciphertext is imported, required twice, and its depth is retired. -/
def assertion (c : Ciphertext) : List Step :=
  [.register c, .run (requireCall c.handle), .run (requireCall c.handle), .retire 1]

lemma marks_assertion (b : Backend) (settings : Context) (c : Ciphertext) :
    (Session.fresh settings).marks b (assertion c) = [.quiet, .stated c, .stated c, .quiet] := by
  have hregistered :
      ((Step.register c).apply b (.fresh settings)).context.verified? c.handle = some c :=
    Registry.contentAddressed_empty.get?_register_self (.singleton c)
  set s := (Step.register c).apply b (.fresh settings) with hs
  have hfirst := markOfRun_requireCall (b := b) hregistered
  -- The first requirement leaves the registry as it is, so that the second one is stated too.
  have heffect : s.effect b (requireCall c.handle) = .stated c := effect_requireCall hregistered
  have hkept : (run b (requireCall c.handle) s).2.context.verified? c.handle = some c := by
    rw [context_run, heffect]
    exact hregistered
  have hsecond := markOfRun_requireCall (b := b) hkept
  simp only [assertion, Session.marks, Step.mark, Step.apply] at hs hfirst hsecond ⊢
  rw [← hs, hfirst, hsecond]

/-- The session with withheld answer, while it is only estimated. -/
def estimatedSession : Session :=
  { withheldSession with context := { withheldSession.context with mode := .estimating } }

/-- Both requirements are pending, although the ciphertext is not visible any more.  The decryption
that is refused drains the requirements, and its estimation does not. -/
theorem pending_until_drained :
    ((Session.fresh { mode := .committing }).after ⟨Clear.engine, fun _ => .zero⟩
      (assertion (Clear.encode 1 .euint8))).pending =
        [Clear.encode 1 .euint8, Clear.encode 1 .euint8] ∧
      (run ⟨Clear.engine, fun _ => .zero⟩ withheldCall withheldSession).2.pending = [] ∧
      (run ⟨Clear.engine, fun _ => .zero⟩ withheldCall estimatedSession).2.pending =
        [Clear.encode 1 .euint8, Clear.encode 0 .euint8] := by
  have h := pending_along_history ⟨Clear.engine, fun _ => .zero⟩ { mode := .committing }
  refine ⟨?_, ?_, ?_⟩
  · rw [h.1, marks_assertion]
    rfl
  · exact (h.2 withheldSession).2.2.1 withheldCall withheldAnswer withheldSession_reveals
  · exact (h.2 estimatedSession).2.1 withheldCall withheldSession_reveals.dispatched (.inl rfl)

end CipherCalls
