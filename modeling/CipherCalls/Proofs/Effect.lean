/-
# What a run changes

A run touches at most one thing in the context: it registers a ciphertext, states a requirement,
or uses the pending requirements up.  Which of these happens is its *effect*, and the main
statement `context_run` says that the context after a run is the context before it with the effect
applied.  The settings of the host are not touched at all.

The reports of a run stand in the journal between the questions to the engine, and they are of no
consequence to either.
-/
import Mathlib
import CipherCalls.Proofs.Demand

namespace CipherCalls

/-- What a run changes in the context. -/
inductive Effect where
  | none
  /-- A ciphertext was registered. -/
  | registered (c : Ciphertext)
  /-- A requirement was stated. -/
  | stated (condition : Ciphertext)
  /-- The pending requirements were used up. -/
  | drained
deriving DecidableEq

/-- A context without pending requirements. -/
def Context.drain (c : Context) : Context :=
  { c with vault := { c.vault with requires := .empty } }

/-- The context after an effect. -/
def Effect.apply : Effect → Context → Context
  | none, c => c
  | registered ct, c => c.register ct
  | stated condition, c => c.require condition
  | drained, c => c.drain

/-! ## Reports -/

namespace Session

@[simp] lemma context_log (s : Session) (e : Event) : (s.log e).context = s.context := rfl

@[simp] lemma calls_log (s : Session) (e : Event) :
    (s.log e).journal.calls = s.journal.calls := rfl

@[simp] lemma drawn_log (s : Session) (e : Event) :
    (s.log e).journal.drawn = s.journal.drawn := rfl

@[simp] lemma context_logCommitted (s : Session) (e : Event) :
    (s.logCommitted e).context = s.context := by
  rw [logCommitted]
  split <;> rfl

@[simp] lemma calls_logCommitted (s : Session) (e : Event) :
    (s.logCommitted e).journal.calls = s.journal.calls := by
  rw [logCommitted]
  split <;> rfl

@[simp] lemma drawn_logCommitted (s : Session) (e : Event) :
    (s.logCommitted e).journal.drawn = s.journal.drawn := by
  rw [logCommitted]
  split <;> rfl

end Session

section Reported

variable {α : Type} (m : Method) (payload : Bytes) (o : Outcome α)

@[simp] lemma reported_fst : (reported m payload o).1 = o.1 := by
  rcases o with ⟨_ | _, _⟩ <;> rfl

@[simp] lemma context_reported : (reported m payload o).2.context = o.2.context := by
  rcases o with ⟨_ | _, _⟩ <;> rfl

@[simp] lemma calls_reported : (reported m payload o).2.journal.calls = o.2.journal.calls := by
  rcases o with ⟨_ | _, _⟩ <;> rfl

@[simp] lemma drawn_reported : (reported m payload o).2.journal.drawn = o.2.journal.drawn := by
  rcases o with ⟨_ | _, _⟩ <;> rfl

end Reported

/-! ## Producing -/

section Produce

variable (b : Backend) (request : Engine.Request) (success : Handle → Event) (s : Session)

/-- While estimating, a stand-in is drawn. -/
lemma obtain_of_estimating (h : s.context.mode = .estimating) :
    obtain b request s =
      (.ok (s.journal.draw b.standIn request.width).1,
        { s with journal := (s.journal.draw b.standIn request.width).2 }) := by
  rw [obtain, if_pos h]

/-- Otherwise the engine is asked once. -/
lemma obtain_of_real (h : s.context.mode ≠ .estimating) :
    obtain b request s =
      (b.engine.produce s.journal.calls request,
        { s with journal := (s.journal.produce b.engine request).2 }) := by
  rw [obtain, if_neg h]
  rfl

@[simp] lemma context_obtain : (obtain b request s).2.context = s.context := by
  by_cases h : s.context.mode = .estimating
  · rw [obtain_of_estimating b request s h]
  · rw [obtain_of_real b request s h]

lemma produce_fst :
    (produce b request success s).1 =
      match (obtain b request s).1 with
      | .error cause => .error (.engine cause)
      | .ok c => .ok c.handle.bytes := by
  rw [produce]
  rcases obtain b request s with ⟨_ | _, _⟩ <;> rfl

variable {b request success s} in
/-- Only the engine can fail. -/
lemma produce_eq_error {cause : CallError} (h : (produce b request success s).1 = .error cause) :
    ∃ failure, cause = .engine failure := by
  rw [produce_fst] at h
  split at h <;> cases h
  exact ⟨_, rfl⟩

lemma context_produce :
    (produce b request success s).2.context =
      match (obtain b request s).1 with
      | .error _ => s.context
      | .ok c => s.context.register c := by
  have hcontext := context_obtain b request s
  rw [produce]
  rcases h : obtain b request s with ⟨_ | c, s'⟩ <;> rw [h] at hcontext
  · exact hcontext
  · -- The handle is registered before the success is reported.
    show ((_ : Session).logCommitted (success c.handle)).context = s.context.register c
    rw [Session.context_logCommitted, hcontext]

@[simp] lemma calls_produce :
    (produce b request success s).2.journal.calls = (obtain b request s).2.journal.calls := by
  rw [produce]
  rcases obtain b request s with ⟨_ | _, _⟩
  · rfl
  · simp

end Produce

/-! ## Settling requirements and revealing -/

/-- What comes of checking the pending requirements. -/
def Session.verdict (b : Backend) (s : Session) : Except EngineError Bool × Journal :=
  evaluateConditions b.engine s.context.vault.requires.conditions s.journal

lemma settleRequires_eq (b : Backend) (s : Session) :
    settleRequires b s =
      match s.verdict b with
      | (.ok true, journal) => (.ok (), ⟨s.context.drain, journal⟩)
      | (.ok false, journal) =>
        (.error .reverted,
          (⟨s.context.drain, journal⟩ : Session).log
            (.requireUnmet s.context.vault.requires.size))
      | (.error cause, journal) =>
        (.error (.requireEvaluation cause),
          (⟨s.context.drain, journal⟩ : Session).log
            (.requireFailed s.context.vault.requires.size cause)) := by
  rw [settleRequires, Session.verdict]
  simp only [Requires.evaluate, Requires.take]
  rcases evaluateConditions b.engine s.context.vault.requires.conditions s.journal with
    ⟨_ | _ | _, _⟩ <;> rfl

/-- The requirements are used up whatever comes of checking them. -/
@[simp] lemma context_settleRequires (b : Backend) (s : Session) :
    (settleRequires b s).2.context = s.context.drain := by
  rw [settleRequires_eq]
  rcases s.verdict b with ⟨_ | _ | _, _⟩ <;> rfl

lemma reveal_of_estimating {s : Session} (h : s.context.mode = .estimating) (b : Backend)
    (payload : Bytes) (target : Ciphertext) :
    reveal b payload target s = (.ok Word.full.bytes, s) := by
  rw [reveal, if_pos h]

lemma context_reveal (b : Backend) (payload : Bytes) (target : Ciphertext) (s : Session) :
    (reveal b payload target s).2.context =
      if s.context.mode = .estimating then s.context else s.context.drain := by
  have hsettled := context_settleRequires b s
  rw [reveal]
  split
  · rfl
  · rcases h : settleRequires b s with ⟨_ | _, s'⟩ <;> rw [h] at hsettled
    · exact hsettled
    · simp only
      rcases s'.journal.decrypt b.engine target with ⟨_ | _, journal⟩
      · exact hsettled
      · rw [← hsettled]
        exact Session.context_logCommitted _ _

lemma context_runPublicKey (payload : Bytes) (s : Session) :
    (runPublicKey payload s).2.context = s.context := by
  rw [runPublicKey]
  split
  · rfl
  · split
    · rfl
    · exact Session.context_logCommitted _ _

lemma runPublicKey_eq_error {payload : Bytes} {s : Session} {cause : CallError}
    (h : (runPublicKey payload s).1 = .error cause) :
    cause = .keyMissing ∨ cause = .keyMismatch := by
  rw [runPublicKey] at h
  split at h
  · cases h
    exact .inl rfl
  · split at h <;> cases h
    exact .inr rfl

/-! ## Whole runs -/

/-- A run dispatches its input, resolves the payload and meets the demand. -/
lemma run_eq (b : Backend) (input : Bytes) (s : Session) :
    run b input s =
      match dispatch input with
      | .error cause => (.error cause, s.log (.runUndispatched cause input))
      | .ok m =>
        match s.context.demand (m.payload input) m with
        | .error cause => (.error cause, s.log (.runFailed m cause (m.payload input)))
        | .ok demand => meet b m (m.payload input) demand s := by
  rw [run]
  cases dispatch input with
  | error cause => rfl
  | ok m => exact runMethod_eq_meet b (m.payload input) s m

/-- A payload that does not resolve changes nothing. -/
lemma run_of_demand_error {b : Backend} {input : Bytes} {s : Session} {m : Method}
    {cause : CallError} (hm : dispatch input = .ok m)
    (hd : s.context.demand (m.payload input) m = .error cause) :
    run b input s = (.error cause, s.log (.runFailed m cause (m.payload input))) := by
  rw [run_eq, hm]
  simp only [hd]

lemma run_of_demand {b : Backend} {input : Bytes} {s : Session} {m : Method} {demand : Demand}
    (hm : dispatch input = .ok m) (hd : s.context.demand (m.payload input) m = .ok demand) :
    run b input s = meet b m (m.payload input) demand s := by
  rw [run_eq, hm]
  simp only [hd]

/-- A run that succeeds has a method, and its payload resolves. -/
lemma demand_of_run_ok {b : Backend} {input : Bytes} {s : Session} {output : Bytes}
    (h : (run b input s).1 = .ok output) :
    ∃ m demand, dispatch input = .ok m ∧ s.context.demand (m.payload input) m = .ok demand := by
  cases hm : dispatch input with
  | error cause =>
      rw [run_eq, hm] at h
      cases h
  | ok m =>
      cases hd : s.context.demand (m.payload input) m with
      | error cause =>
          rw [run_of_demand_error hm hd] at h
          cases h
      | ok demand => exact ⟨m, demand, rfl, hd⟩

/-- A run fails in one of three stages. -/
lemma run_eq_error {b : Backend} {input : Bytes} {s : Session} {cause : CallError}
    (h : (run b input s).1 = .error cause) :
    dispatch input = .error cause ∨ cause.isRejection = true ∨
      ∃ m demand, dispatch input = .ok m ∧ s.context.demand (m.payload input) m = .ok demand ∧
        (meet b m (m.payload input) demand s).1 = .error cause := by
  cases hm : dispatch input with
  | error other =>
      rw [run_eq, hm] at h
      exact .inl (congrArg Except.error (Except.error.inj h))
  | ok m =>
      cases hd : s.context.demand (m.payload input) m with
      | error other =>
          rw [run_of_demand_error hm hd] at h
          obtain rfl := Except.error.inj h
          exact .inr (.inl (s.context.isRejection_of_demand m _ hd))
      | ok demand =>
          rw [run_of_demand hm hd] at h
          exact .inr (.inr ⟨m, demand, rfl, hd, h⟩)

section MeetProduce

variable {b : Backend} {m : Method} {payload : Bytes} {request : Engine.Request} {s : Session}

lemma meet_produce_of_ok {c : Ciphertext} (h : (obtain b request s).1 = .ok c) :
    (meet b m payload (.produce request) s).1 = .ok c.handle.bytes ∧
      (meet b m payload (.produce request) s).2.context = s.context.register c := by
  rw [meet, reported_fst, context_reported, produce_fst, context_produce, h]
  exact ⟨rfl, rfl⟩

lemma meet_produce_of_error {cause : EngineError} (h : (obtain b request s).1 = .error cause) :
    (meet b m payload (.produce request) s).1 = .error (.engine cause) := by
  rw [meet, reported_fst, produce_fst, h]

end MeetProduce

/-- The effect of meeting a demand. -/
def Demand.effect (b : Backend) (s : Session) : Demand → Effect
  | produce request =>
    match (obtain b request s).1 with
    | .error _ => .none
    | .ok c => .registered c
  | reveal _ => if s.context.mode = .estimating then .none else .drained
  | state condition => .stated condition
  | serveKey | pad => .none

namespace Demand

variable {b : Backend} {s : Session} {d : Demand} {condition : Ciphertext}

/-- Only a plaintext that is really wanted uses the requirements up. -/
lemma effect_eq_drained_iff :
    d.effect b s = .drained ↔ s.context.mode ≠ .estimating ∧ ∃ target, d = .reveal target := by
  cases d with
  | produce request =>
      rw [effect]
      cases (obtain b request s).1 <;> simp
  | reveal target =>
      rw [effect]
      split <;> simp [*]
  | state | serveKey | pad => simp [effect]

/-- Only a ciphertext that was asked for and obtained is registered. -/
lemma effect_eq_registered_iff {c : Ciphertext} :
    d.effect b s = .registered c ↔
      ∃ request, d = .produce request ∧ (obtain b request s).1 = .ok c := by
  cases d with
  | produce request =>
      rw [effect]
      cases hc : (obtain b request s).1 <;> simp [hc]
  | reveal target =>
      rw [effect]
      split <;> simp
  | state | serveKey | pad => simp [effect]

lemma effect_eq_stated_iff : d.effect b s = .stated condition ↔ d = .state condition := by
  cases d with
  | produce request =>
      rw [effect]
      cases (obtain b request s).1 <;> simp
  | reveal target =>
      rw [effect]
      split <;> simp
  | state | serveKey | pad => simp [effect]

end Demand

/-- The effect of a run. -/
def Session.effect (b : Backend) (input : Bytes) (s : Session) : Effect :=
  match dispatch input with
  | .error _ => .none
  | .ok m =>
    match s.context.demand (m.payload input) m with
    | .error _ => .none
    | .ok demand => demand.effect b s

lemma effect_of_demand {b : Backend} {input : Bytes} {s : Session} {m : Method} {demand : Demand}
    (hm : dispatch input = .ok m) (hd : s.context.demand (m.payload input) m = .ok demand) :
    s.effect b input = demand.effect b s := by
  rw [Session.effect, hm]
  simp only [hd]

lemma context_meet (b : Backend) (m : Method) (payload : Bytes) (demand : Demand) (s : Session) :
    (meet b m payload demand s).2.context = (demand.effect b s).apply s.context := by
  cases demand with
  | produce request =>
      rw [meet, context_reported, context_produce, Demand.effect]
      cases (obtain b request s).1 <;> rfl
  | reveal target =>
      rw [meet, context_reported, context_reveal, Demand.effect]
      split <;> rfl
  | state condition => rfl
  | serveKey => exact context_runPublicKey payload s
  | pad => rfl

/-- The context after a run is the context before it with the effect applied. -/
theorem context_run (b : Backend) (input : Bytes) (s : Session) :
    (run b input s).2.context = (s.effect b input).apply s.context := by
  rw [run_eq, Session.effect]
  cases dispatch input with
  | error cause => rfl
  | ok m =>
      simp only
      cases s.context.demand (m.payload input) m with
      | error cause => rfl
      | ok demand => exact context_meet b m (m.payload input) demand s

/-! ## Questions to the engine -/

section Calls

variable (b : Backend)

lemma calls_prefix_conjoin (e : Engine) (first : Ciphertext) (conditions : List Ciphertext)
    (j : Journal) : j.calls <+: (conjoin e first conditions j).2.calls := by
  induction conditions generalizing first j with
  | nil => exact List.prefix_refl _
  | cons next rest ih =>
      rw [conjoin, Journal.produce]
      -- The question is asked whatever the answer, and only then the conjunction may end.
      cases e.produce j.calls (.bitAnd first next) with
      | error cause => exact List.prefix_append _ _
      | ok both =>
          refine List.IsPrefix.trans ?_ (ih both _)
          exact List.prefix_append _ _

lemma calls_prefix_verdict (s : Session) : s.journal.calls <+: (s.verdict b).2.calls := by
  rw [Session.verdict]
  cases s.context.vault.requires.conditions with
  | nil => exact List.prefix_refl _
  | cons first rest =>
      have hconjoin := calls_prefix_conjoin b.engine first rest s.journal
      rw [evaluateConditions]
      generalize conjoin b.engine first rest s.journal = o at hconjoin ⊢
      rcases o with ⟨cause | all, j⟩
      · exact hconjoin
      · have hdecrypted := hconjoin.trans (List.prefix_append j.calls [.decrypt all])
        simp only [Journal.decrypt]
        cases b.engine.decrypt j.calls all <;> exact hdecrypted

lemma calls_prefix_reveal (payload : Bytes) (target : Ciphertext) (s : Session) :
    s.journal.calls <+: (reveal b payload target s).2.journal.calls := by
  have hverdict := calls_prefix_verdict b s
  rw [reveal]
  split
  · exact List.prefix_refl _
  · rw [settleRequires_eq]
    generalize s.verdict b = o at hverdict ⊢
    rcases o with ⟨cause | (_ | _), j⟩
    · exact hverdict
    · exact hverdict
    · -- The plaintext is asked for behind the verdict.
      have hdecrypted := hverdict.trans (List.prefix_append j.calls [.decrypt target])
      simp only [Journal.decrypt]
      cases b.engine.decrypt j.calls target with
      | error cause => exact hdecrypted
      | ok value =>
          simp only [Session.calls_logCommitted]
          exact hdecrypted

lemma calls_prefix_obtain (request : Engine.Request) (s : Session) :
    s.journal.calls <+: (obtain b request s).2.journal.calls := by
  by_cases h : s.context.mode = .estimating
  · rw [obtain_of_estimating b request s h]
    exact List.prefix_refl _
  · rw [obtain_of_real b request s h]
    exact List.prefix_append _ _

lemma calls_runPublicKey (payload : Bytes) (s : Session) :
    (runPublicKey payload s).2.journal.calls = s.journal.calls := by
  rw [runPublicKey]
  split
  · rfl
  · split
    · rfl
    · exact Session.calls_logCommitted _ _

/-- A run forgets nothing that the engine was asked. -/
theorem calls_prefix_run (input : Bytes) (s : Session) :
    s.journal.calls <+: (run b input s).2.journal.calls := by
  rw [run_eq]
  cases dispatch input with
  | error cause => exact List.prefix_refl _
  | ok m =>
      simp only
      cases s.context.demand (m.payload input) m with
      | error cause => exact List.prefix_refl _
      | ok demand =>
          cases demand with
          | produce request =>
              simp only [meet, calls_reported, calls_produce]
              exact calls_prefix_obtain b request s
          | reveal target =>
              simp only [meet, calls_reported]
              exact calls_prefix_reveal b _ target s
          | state condition => exact List.prefix_refl _
          | serveKey =>
              simp only [meet, calls_runPublicKey]
              exact List.prefix_refl _
          | pad => exact List.prefix_refl _

end Calls

end CipherCalls
