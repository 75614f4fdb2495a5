/-
# What is reported

A failure is reported by errors only, and the last of them names the method, the cause and the
payload.  A success is reported by nothing at all unless the host commits; then there is one report,
except that a requirement and padding are no news.

Every part of a run keeps to this, with the exception of the errors: a part that fails may leave it
to the caller to say so.  What the parts have in common is `Journal.Tells`, and the last error is
added by the method itself.
-/
import Mathlib
import CipherCalls.Proofs.Admission
import CipherCalls.Proofs.History

namespace CipherCalls

/-! ## Reports that fit a result -/

/-- A failure is reported by errors, and a success by events of certain levels. -/
def Fits {ε α : Type} (levels : List Level) (emitted : List Event) : Except ε α → Prop
  | .error _ => ∀ e ∈ emitted, e.level = .error
  | .ok _ => emitted.map Event.level = levels

/-- The events that were added to a journal fit a result. -/
def Journal.Tells {ε α : Type} (j j' : Journal) (levels : List Level) (result : Except ε α) :
    Prop :=
  ∃ emitted, j'.events = j.events ++ emitted ∧ Fits levels emitted result

/-- The levels of the reports on a success in a context. -/
def Context.announcement (c : Context) : List Level :=
  if c.mode = .committing then [.info] else []

lemma level_of_mem_singleton {e e' : Event} (he : e.level = .error) (hmem : e' ∈ [e]) :
    e'.level = .error := by
  rwa [List.mem_singleton.mp hmem]

section Fits

variable {ε ε' α α' : Type} {j j' : Journal} {levels : List Level} {e : Event}

/-- A success that is not reported leaves the events alone. -/
lemma Journal.Tells.events_eq {a : α} (h : j.Tells j' [] (.ok a : Except ε α)) :
    j'.events = j.events := by
  obtain ⟨emitted, hevents, hfits⟩ := h
  obtain rfl := List.map_eq_nil_iff.mp hfits
  rw [hevents, List.append_nil]

lemma Journal.tells_nothing (h : j'.events = j.events) (a : α) :
    j.Tells j' [] (.ok a : Except ε α) :=
  ⟨[], by rw [h, List.append_nil], rfl⟩

lemma Journal.tells_failure (h : j'.events = j.events) (cause : ε) :
    j.Tells j' levels (.error cause : Except ε α) :=
  ⟨[], by rw [h, List.append_nil], fun _ he => absurd he List.not_mem_nil⟩

/-- What fits a failure still does so with one more error. -/
lemma Journal.Tells.log {cause : ε} (h : j.Tells j' levels (.error cause : Except ε α))
    (he : e.level = .error) (cause' : ε') :
    j.Tells (j'.log e) levels (.error cause' : Except ε' α') := by
  obtain ⟨emitted, hevents, hfits⟩ := h
  exact ⟨emitted ++ [e], by rw [Journal.log, hevents, List.append_assoc],
    List.forall_mem_append.mpr ⟨hfits, fun _ => level_of_mem_singleton he⟩⟩

lemma Journal.tells_error (h : j'.events = j.events) (he : e.level = .error) (cause : ε) :
    j.Tells (j'.log e) levels (.error cause : Except ε α) := by
  have hfailure : j.Tells j' levels (.error cause : Except ε α) := tells_failure h cause
  exact hfailure.log he cause

/-- A success is reported if the host commits. -/
lemma Session.tells_logCommitted {s s' : Session} (hevents : s'.journal.events = s.journal.events)
    (hmode : s'.context.mode = s.context.mode) (he : e.level = .info) (a : α) :
    s.journal.Tells (s'.logCommitted e).journal s.context.announcement (.ok a : Except ε α) := by
  rw [Session.logCommitted, Context.announcement, hmode]
  split
  · exact ⟨[e], by rw [← hevents]; rfl, by rw [Fits, List.map_singleton, he]⟩
  · exact Journal.tells_nothing hevents a

end Fits

/-! ## The parts of a run -/

section Parts

lemma tells_conjoin (e : Engine) (first : Ciphertext) (rest : List Ciphertext) (j : Journal) :
    j.Tells (conjoin e first rest j).2 [] (conjoin e first rest j).1 := by
  induction rest generalizing first j with
  | nil => exact Journal.tells_nothing rfl first
  | cons next rest ih =>
      simp only [conjoin, Journal.produce]
      cases e.produce j.calls (.bitAnd first next) with
      | error cause => exact Journal.tells_error rfl rfl cause
      | ok both => exact ih both _

lemma tells_evaluateConditions (e : Engine) (conditions : List Ciphertext) (j : Journal) :
    j.Tells (evaluateConditions e conditions j).2 [] (evaluateConditions e conditions j).1 := by
  cases conditions with
  | nil => exact Journal.tells_nothing rfl true
  | cons first rest =>
      have hconjoin := tells_conjoin e first rest j
      simp only [evaluateConditions]
      generalize conjoin e first rest j = o at hconjoin ⊢
      obtain ⟨cause | all, j'⟩ := o
      · exact hconjoin
      · simp only [Journal.decrypt]
        cases e.decrypt j'.calls all with
        | error cause => exact Journal.tells_failure hconjoin.events_eq cause
        | ok value => exact Journal.tells_nothing hconjoin.events_eq _

/-- Settling the requirements is reported if it fails. -/
lemma tells_settleRequires (b : Backend) (s : Session) :
    s.journal.Tells (settleRequires b s).2.journal [] (settleRequires b s).1 := by
  have hverdict : s.journal.Tells (s.verdict b).2 [] (s.verdict b).1 :=
    tells_evaluateConditions _ _ _
  rw [settleRequires_eq]
  generalize s.verdict b = o at hverdict ⊢
  obtain ⟨cause | (_ | _), journal⟩ := o
  · -- What the conjunction has reported stands before the failure of the evaluation.
    exact hverdict.log rfl _
  · exact Journal.tells_error hverdict.events_eq rfl _
  · exact Journal.tells_nothing hverdict.events_eq ()

lemma events_obtain (b : Backend) (request : Engine.Request) (s : Session) :
    (obtain b request s).2.journal.events = s.journal.events := by
  by_cases h : s.context.mode = .estimating
  · rw [obtain_of_estimating b request s h]
    rfl
  · rw [obtain_of_real b request s h]
    rfl

lemma level_event (payload : Bytes) (request : Engine.Request) (h : Handle) :
    (request.event payload h).level = .info := by
  cases request <;> rfl

/-- Producing a ciphertext is reported if it succeeds and the host commits. -/
lemma tells_produce (b : Backend) (payload : Bytes) (request : Engine.Request) (s : Session) :
    s.journal.Tells (produce b request (request.event payload) s).2.journal s.context.announcement
      (produce b request (request.event payload) s).1 := by
  have hevents := events_obtain b request s
  have hcontext := context_obtain b request s
  rw [produce]
  generalize CipherCalls.obtain b request s = o at hevents hcontext ⊢
  obtain ⟨cause | c, s'⟩ := o
  · exact Journal.tells_failure hevents _
  · refine Session.tells_logCommitted ?_ ?_ (level_event payload request c.handle) _
    · exact hevents
    · exact (congrArg Context.mode hcontext :)

/-- So is revealing a plaintext. -/
lemma tells_reveal (b : Backend) (payload : Bytes) (target : Ciphertext) (s : Session) :
    s.journal.Tells (reveal b payload target s).2.journal s.context.announcement
      (reveal b payload target s).1 := by
  by_cases hmode : s.context.mode = .estimating
  · rw [reveal_of_estimating hmode, Context.announcement, if_neg (by rw [hmode]; decide)]
    exact Journal.tells_nothing rfl _
  · have hsettled := tells_settleRequires b s
    have hcontext := context_settleRequires b s
    rw [reveal, if_neg hmode]
    generalize settleRequires b s = o at hsettled hcontext ⊢
    obtain ⟨cause | _, s'⟩ := o
    · exact hsettled
    · simp only [Journal.decrypt]
      cases b.engine.decrypt s'.journal.calls target with
      | error cause => exact Journal.tells_failure hsettled.events_eq _
      | ok value =>
          refine Session.tells_logCommitted ?_ ?_ ?_ _
          · exact hsettled.events_eq
          · exact (congrArg Context.mode hcontext :)
          · rfl

/-- Serving the public key is reported in the same way, and a failure is reported at once. -/
lemma tells_runPublicKey (payload : Bytes) (s : Session) :
    s.journal.Tells (runPublicKey payload s).2.journal s.context.announcement
      (runPublicKey payload s).1 := by
  rw [runPublicKey]
  cases s.context.publicKey with
  | none => exact Journal.tells_error rfl rfl _
  | some key =>
      simp only
      split
      · exact Journal.tells_error rfl rfl _
      · exact Session.tells_logCommitted rfl rfl rfl _

end Parts

/-! ## Whole runs -/

section Runs

variable {b : Backend} {s : Session} {input : Bytes} {m : Method} {cause : CallError}

/-- A method that fails says so in the end. -/
lemma events_reported_of_error {levels : List Level} {payload : Bytes} {o : Outcome Bytes}
    (htells : s.journal.Tells o.2.journal levels o.1)
    (h : (reported m payload o).1 = .error cause) :
    ∃ emitted, (reported m payload o).2.journal.events =
        s.journal.events ++ (emitted ++ [.runFailed m cause payload]) ∧
      ∀ e ∈ emitted, e.level = .error := by
  obtain ⟨cause' | a, s'⟩ := o
  · obtain rfl := Except.error.inj h
    obtain ⟨emitted, hevents, hfits⟩ := htells
    refine ⟨emitted, ?_, hfits⟩
    rw [← List.append_assoc, ← hevents]
    rfl
  · cases h

lemma events_reported_of_ok {levels : List Level} {payload output : Bytes} {o : Outcome Bytes}
    (htells : s.journal.Tells o.2.journal levels o.1)
    (h : (reported m payload o).1 = .ok output) :
    ∃ emitted, (reported m payload o).2.journal.events = s.journal.events ++ emitted ∧
      emitted.map Event.level = levels := by
  obtain ⟨cause' | a, s'⟩ := o
  · cases h
  · exact htells

/-- The reports of a failed run end with the method, the cause and the payload. -/
lemma events_run_of_error (hm : dispatch input = .ok m) (hkey : m ≠ .publicKey)
    (h : (run b input s).1 = .error cause) :
    ∃ emitted, (run b input s).2.journal.events =
        s.journal.events ++ (emitted ++ [.runFailed m cause (m.payload input)]) ∧
      ∀ e ∈ emitted, e.level = .error := by
  cases hd : s.context.demand (m.payload input) m with
  | error cause' =>
      rw [run_of_demand_error hm hd] at h ⊢
      obtain rfl := Except.error.inj h
      exact ⟨[], rfl, fun _ he => absurd he List.not_mem_nil⟩
  | ok d =>
      rw [run_of_demand hm hd] at h ⊢
      cases d with
      | produce request => exact events_reported_of_error (tells_produce b _ request s) h
      | reveal target => exact events_reported_of_error (tells_reveal b _ target s) h
      | serveKey => exact absurd (Context.demand_eq_serveKey_iff.mp hd) hkey
      | state | pad => cases h

/-- If the public key is not served, then there is one report. -/
lemma events_run_publicKey_of_error (hm : dispatch input = .ok .publicKey)
    (h : (run b input s).1 = .error cause) :
    ∃ e : Event, (run b input s).2.journal.events = s.journal.events ++ [e] ∧
      e.level = .error := by
  rw [run, hm] at h ⊢
  simp only [runMethod, runPublicKey] at h ⊢
  cases hkey : s.context.publicKey with
  | none => exact ⟨.keyMissing, rfl, rfl⟩
  | some key =>
      simp only [hkey] at h ⊢
      split at h
      · rename_i hhash
        rw [if_pos hhash]
        exact ⟨.keyMismatch key.hash, rfl, rfl⟩
      · cases h

/-- A failure is reported by errors, wherever the run has stopped. -/
lemma events_run_of_failure (h : (run b input s).1 = .error cause) :
    ∃ emitted, (run b input s).2.journal.events = s.journal.events ++ emitted ∧
      emitted ≠ [] ∧ (∀ e ∈ emitted, e.level = .error) ∧
      ∀ m, dispatch input = .ok m → m ≠ .publicKey →
        emitted.getLast? = some (.runFailed m cause (m.payload input)) := by
  cases hm : dispatch input with
  | error cause' =>
      rw [run_eq, hm]
      exact ⟨[.runUndispatched cause' input], rfl, List.cons_ne_nil _ _,
        fun _ => level_of_mem_singleton rfl, fun _ => nofun⟩
  | ok m =>
      by_cases hkey : m = .publicKey
      · -- The failure is not repeated in the name of the method.
        obtain ⟨e, hevents, he⟩ := events_run_publicKey_of_error (hkey ▸ hm) h
        refine ⟨[e], hevents, List.cons_ne_nil _ _, fun _ => level_of_mem_singleton he, ?_⟩
        rintro m' hm' hkey'
        exact absurd (Except.ok.inj hm' ▸ hkey) hkey'
      · obtain ⟨emitted, hevents, herrors⟩ := events_run_of_error hm hkey h
        refine ⟨_, hevents, List.append_ne_nil_of_right_ne_nil _ (List.cons_ne_nil _ _),
          List.forall_mem_append.mpr ⟨herrors, fun _ => level_of_mem_singleton rfl⟩, ?_⟩
        rintro m' hm' -
        obtain rfl := Except.ok.inj hm'
        exact List.getLast?_concat

lemma Context.announcement_of_news (c : Context) (hnews : m ≠ .require ∧ m ≠ .padGas) :
    (if c.mode = .committing ∧ m ≠ .require ∧ m ≠ .padGas then [Level.info] else []) =
      c.announcement := by
  simp only [announcement, hnews, ne_eq, not_false_eq_true, and_self, and_true]

/-- A success is reported if the host commits, unless it is no news. -/
lemma events_run_of_ok {output : Bytes} (hm : dispatch input = .ok m)
    (h : (run b input s).1 = .ok output) :
    ∃ emitted, (run b input s).2.journal.events = s.journal.events ++ emitted ∧
      emitted.map Event.level =
        if s.context.mode = .committing ∧ m ≠ .require ∧ m ≠ .padGas then [.info] else [] := by
  obtain ⟨m', d, hm', hd⟩ := demand_of_run_ok h
  obtain rfl := Except.ok.inj (hm.symm.trans hm')
  rw [run_of_demand hm hd] at h ⊢
  cases d with
  | produce request =>
      have hproduces : m.produces = true := (produces_iff hd).mpr ⟨request, rfl⟩
      have hnews : m ≠ .require ∧ m ≠ .padGas := by
        constructor <;> rintro rfl <;> cases hproduces
      rw [Context.announcement_of_news _ hnews]
      exact events_reported_of_ok (tells_produce b _ request s) h
  | reveal target =>
      obtain ⟨rfl, -, -⟩ := Context.demand_eq_reveal_iff.mp hd
      rw [Context.announcement_of_news _ (by decide)]
      exact events_reported_of_ok (tells_reveal b _ target s) h
  | serveKey =>
      obtain rfl := Context.demand_eq_serveKey_iff.mp hd
      rw [Context.announcement_of_news _ (by decide)]
      have htells := tells_runPublicKey (Method.publicKey.payload input) s
      rw [show (runPublicKey _ s).1 = .ok output from h] at htells
      exact htells
  | state condition =>
      obtain ⟨rfl, -, -⟩ := Context.demand_eq_state_iff.mp hd
      exact ⟨[], (List.append_nil _).symm, by simp⟩
  | pad =>
      obtain rfl := Context.demand_eq_pad_iff.mp hd
      exact ⟨[], (List.append_nil _).symm, by simp⟩

end Runs

/-! ## Whole histories -/

/-- No step takes a report back. -/
lemma events_prefix_apply (b : Backend) (s : Session) (x : Step) :
    s.journal.events <+: (x.apply b s).journal.events := by
  cases x with
  | run input =>
      cases hresult : (run b input s).1 with
      | error cause =>
          obtain ⟨emitted, hevents, -⟩ := events_run_of_failure hresult
          exact ⟨emitted, hevents.symm⟩
      | ok output =>
          obtain ⟨m, -, hm, -⟩ := demand_of_run_ok hresult
          obtain ⟨emitted, hevents, -⟩ := events_run_of_ok hm hresult
          exact ⟨emitted, hevents.symm⟩
  | meter supplied input =>
      rw [Step.apply, Session.logAll_eq]
      exact List.prefix_append _ _
  | settle =>
      obtain ⟨emitted, hevents, -⟩ := tells_settleRequires b s
      exact ⟨emitted, hevents.symm⟩
  | register | delegate | retire | setDepth | handOver => exact List.prefix_rfl

/-- **The events of a session are a log**: whatever happens, they are only added to. -/
theorem events_prefix_after (b : Backend) (s : Session) (steps : List Step) :
    s.journal.events <+: (s.after b steps).journal.events := by
  induction steps generalizing s with
  | nil => exact List.prefix_rfl
  | cons x steps ih => exact (events_prefix_apply b s x).trans (ih _)

/-! ## Metering -/

/-- What metering resolves of a payload: everything that execution does, except that it looks at no
more than the length of the payload of a cast. -/
def Context.resolveForPrice (c : Context) (payload : Bytes) : Method → Except CallError Unit
  | .cast => expectLength .cast payload 33
  | m => (c.demand payload m).map fun _ => ()

section Metering

variable {s : Session} {input : Bytes} {m : Method}

lemma Context.resolveForPrice_of_ne (c : Context) (payload : Bytes) (hcast : m ≠ .cast) :
    c.resolveForPrice payload m = (c.demand payload m).map fun _ => () := by
  cases m with
  | cast => exact absurd rfl hcast
  | add | sub | bitAnd | decrypt | publicKey | encrypt | require | padGas => rfl

/-- A payload that does not resolve is reported once, and has no price. -/
lemma requiredGas_of_resolve_error {cause : CallError} (hm : dispatch input = .ok m)
    (h : s.context.resolveForPrice (m.payload input) m = .error cause) (supplied : UInt64) :
    s.context.requiredGas supplied input = ⟨0, [.meteringFailed m cause (m.payload input)]⟩ := by
  by_cases hcast : m = .cast
  · subst hcast
    rw [Context.requiredGas, hm]
    simp only [Context.priceMethod, Context.priceCast]
    rw [show expectLength _ _ _ = .error cause from h]
    rfl
  · rw [Context.resolveForPrice_of_ne _ _ hcast] at h
    cases hd : s.context.demand (m.payload input) m with
    | error cause' =>
        rw [hd] at h
        obtain rfl := Except.error.inj h
        exact requiredGas_of_demand_error hm hcast hd supplied
    | ok d =>
        rw [hd] at h
        cases h

/-- A payload that resolves is not reported. -/
lemma events_requiredGas_of_resolve_ok (hm : dispatch input = .ok m)
    (h : s.context.resolveForPrice (m.payload input) m = .ok ()) (supplied : UInt64) :
    (s.context.requiredGas supplied input).events = [] := by
  by_cases hcast : m = .cast
  · subst hcast
    rw [Context.requiredGas, hm]
    simp only [Context.priceMethod, Context.priceCast]
    rw [show expectLength _ _ _ = .ok () from h]
    rfl
  · rw [Context.resolveForPrice_of_ne _ _ hcast] at h
    obtain ⟨d, hd, -⟩ := map_eq_ok h
    rw [requiredGas_of_demand_ok hm hcast hd]

end Metering

/-! ## The main statement -/

/-- **Every refusal is reported, and a success only if the host commits**, whatever the engine
answers.  A run adds events to the journal:

* if it fails, then these are errors, and there is at least one.  Unless there is no method, or the
  method is the one for the public key, the last of them says that the run failed, with the method,
  the text of the cause, and the payload with its length;
* if it succeeds, then there is no error, and one piece of information if the host commits and the
  method neither states a requirement nor pads.

Metering never informs.  It reports one error, along with the price 0, if there is no method or the
payload does not resolve, and nothing otherwise.  The payload of a cast resolves at metering if it
has the right length. -/
theorem reports_fit_result (b : Backend) (s : Session) (input : Bytes) :
    (∃ emitted, (run b input s).2.journal.events = s.journal.events ++ emitted ∧
      (∀ cause, (run b input s).1 = .error cause →
        emitted ≠ [] ∧ (∀ e ∈ emitted, e.level = .error) ∧
        ∀ m, dispatch input = .ok m → m ≠ .publicKey →
          ∃ last, emitted.getLast? = some last ∧ last.message = "run failed" ∧
            last.fields =
              [("method", .text m.name), ("err", .text cause.message),
                ("input", .text (Bytes.hex (m.payload input))),
                ("len", .number (m.payload input).length)]) ∧
      ∀ output, (run b input s).1 = .ok output → ∃ m, dispatch input = .ok m ∧
        emitted.map Event.level =
          if s.context.mode = .committing ∧ m ≠ .require ∧ m ≠ .padGas then [.info] else []) ∧
    ∀ supplied,
      (∀ cause, dispatch input = .error cause →
        ∃ e : Event, e.level = .error ∧ s.context.requiredGas supplied input = ⟨0, [e]⟩) ∧
      ∀ m, dispatch input = .ok m →
        (∀ cause, s.context.resolveForPrice (m.payload input) m = .error cause →
          ∃ e : Event, e.level = .error ∧ s.context.requiredGas supplied input = ⟨0, [e]⟩) ∧
        (s.context.resolveForPrice (m.payload input) m = .ok () →
          (s.context.requiredGas supplied input).events = []) := by
  refine ⟨?run, fun supplied =>
    ⟨fun cause hm => ?undispatched, fun m hm => ⟨fun cause h => ?_, fun h => ?_⟩⟩⟩
  case run =>
    cases hresult : (run b input s).1 with
    | ok output =>
        obtain ⟨m, -, hm, -⟩ := demand_of_run_ok hresult
        obtain ⟨emitted, hevents, hlevels⟩ := events_run_of_ok hm hresult
        exact ⟨emitted, hevents, fun _ => nofun, fun _ _ => ⟨m, hm, hlevels⟩⟩
    | error cause =>
        obtain ⟨emitted, hevents, hne, herrors, hlast⟩ := events_run_of_failure hresult
        refine ⟨emitted, hevents, fun cause' h => ⟨hne, herrors, fun m hm hkey => ?_⟩,
          fun _ => nofun⟩
        obtain rfl := Except.error.inj h
        exact ⟨_, hlast m hm hkey, rfl, rfl⟩
  case undispatched =>
    rw [Context.requiredGas, hm]
    exact ⟨_, rfl, rfl⟩
  · exact ⟨_, rfl, requiredGas_of_resolve_error hm h supplied⟩
  · exact events_requiredGas_of_resolve_ok hm h supplied

lemma run_withheldCall :
    (run ⟨Clear.engine, fun _ => .zero⟩ withheldCall withheldSession).1 = .error .reverted := by
  have hverdict : (withheldSession.verdict ⟨Clear.engine, fun _ => .zero⟩).1 = .ok false := by
    decide
  rw [(withheldSession_reveals.refused (by rw [hverdict]; simp)).1, hverdict]
  rfl

/-- The refusal of the decryption is reported, last with its payload.  The encryption to a width
that does not exist is reported when it is priced. -/
theorem withheld_decryption_reported :
    (∃ last, (run ⟨Clear.engine, fun _ => .zero⟩ withheldCall
          withheldSession).2.journal.events.getLast? = some last ∧
        last.fields =
          [("method", .text "decrypt"), ("err", .text "execution reverted"),
            ("input", .text (Bytes.hex withheldAnswer.handle.bytes)), ("len", .number 32)]) ∧
      ∃ e : Event, e.level = .error ∧
        withheldSession.context.requiredGas 0 unknownWidthCall = ⟨0, [e]⟩ := by
  obtain ⟨⟨emitted, hevents, hfailed, -⟩, -⟩ :=
    reports_fit_result ⟨Clear.engine, fun _ => .zero⟩ withheldSession withheldCall
  obtain ⟨-, hmetered⟩ :=
    reports_fit_result ⟨Clear.engine, fun _ => .zero⟩ withheldSession unknownWidthCall
  constructor
  · obtain ⟨last, hlast, -, hfields⟩ :=
      (hfailed _ run_withheldCall).2.2 _ withheldSession_reveals.dispatched (by decide)
    refine ⟨last, hevents ▸ hlast, ?_⟩
    rw [hfields, withheldCall_payload, Handle.length_bytes]
    rfl
  · have hresolve : withheldSession.context.resolveForPrice
        (Method.encrypt.payload unknownWidthCall) .encrypt =
          .error (.invalidWidth .encrypt 9) := by
      rw [Context.resolveForPrice_of_ne _ _ (by decide), demand_unknownWidthCall]
      rfl
    exact ((hmetered 0).2 .encrypt (dispatch_encodeCall .encrypt _)).1 _ hresolve

end CipherCalls
