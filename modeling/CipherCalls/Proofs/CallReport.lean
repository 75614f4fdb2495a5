/-
# The report on calls

The command `call` is a session with the clear engine, line by line.  The calls at the beginning of
the list that can be read stand for inputs (`inputsOf`).  Every input is priced, with the gas limit
supplied, and then run, and that is all that happens in the session; so the lines are what a host
sees that goes through the same inputs (`linesOf_eq_of_append`).  Neither a failure of a run nor
what is written behind a call plays a part in the lines before it.

What such a session is at the beginning is said by `Invocation.Opens`, and what a line says by
`TellsOf`.
-/
import Mathlib
import CipherCalls.Proofs.CallEncoding
import CipherCalls.Proofs.ReportLine
import CipherCalls.Proofs.ScalarForm
import CipherCalls.Proofs.ServedKey

namespace CipherCalls

/-! ## What a run does not depend on -/

section Reports

variable {b : Backend} (s : Session) (es : List Event)

lemma Session.agree_logAll : s.Agree (s.logAll es) := by
  rw [logAll_eq]
  exact ⟨rfl, fun _ => rfl, rfl⟩

lemma obtain_fst_logAll (request : Engine.Request) :
    (obtain b request (s.logAll es)).1 = (obtain b request s).1 := by
  rw [Session.logAll_eq, obtain, obtain]
  split <;> rfl

/-- Earlier reports play no part in meeting a demand. -/
lemma meet_fst_logAll (hsteady : b.engine.Steady) (m : Method) (payload : Bytes) (d : Demand) :
    (meet b m payload d (s.logAll es)).1 = (meet b m payload d s).1 := by
  have hcontext := s.context_logAll es
  by_cases hmode : s.context.mode = .estimating
  · have hmode' : (s.logAll es).context.mode = .estimating := by rwa [hcontext]
    cases d with
    | produce request => simp only [meet, reported_fst, produce_fst, obtain_fst_logAll]
    | reveal target =>
        simp only [meet, reported_fst, reveal_of_estimating hmode, reveal_of_estimating hmode']
    | serveKey => exact runPublicKey_fst (by rw [hcontext]) (by rw [hcontext])
    | state | pad => rfl
  · -- A verdict is the same as long as the engine does not remember.
    exact (s.agree_logAll es).meet_fst hsteady hmode

/-- Earlier reports play no part in a run. -/
lemma run_fst_logAll (hsteady : b.engine.Steady) (input : Bytes) :
    (run b input (s.logAll es)).1 = (run b input s).1 := by
  rw [run_eq, run_eq]
  cases dispatch input with
  | error cause => rfl
  | ok m =>
      simp only [Session.context_logAll]
      cases s.context.demand (m.payload input) m with
      | error cause => rfl
      | ok d => exact meet_fst_logAll s es hsteady m _ d

end Reports

section Real

variable {e : Engine} {s : Session} (standIn standIn' : Nat → Word)
  (hreal : s.context.mode ≠ .estimating)

include hreal

lemma obtain_of_real_standIn (request : Engine.Request) :
    obtain ⟨e, standIn⟩ request s = obtain ⟨e, standIn'⟩ request s := by
  rw [obtain_of_real _ _ _ hreal, obtain_of_real _ _ _ hreal]

/-- No stand-in plays a part in a run that is executed for real. -/
lemma run_of_real_standIn (input : Bytes) :
    run ⟨e, standIn⟩ input s = run ⟨e, standIn'⟩ input s := by
  rw [run_eq, run_eq]
  cases dispatch input with
  | error cause => rfl
  | ok m =>
      cases hd : s.context.demand (m.payload input) m with
      | error cause => simp only [hd]
      | ok demand =>
          simp only [hd]
          cases demand with
          | produce request =>
              rw [meet, meet, produce, produce, obtain_of_real_standIn standIn standIn' hreal]
          | reveal | state | serveKey | pad => rfl

end Real

namespace CommandLine

open Json

/-! ## Histories of calls -/

/-- Inputs are priced and run, one after the other. -/
def history (limit : UInt64) (inputs : List Bytes) : List Step :=
  inputs.flatMap fun input => [.meter limit input, .run input]

/-- The line that a host writes for an input: its price in a session, and what comes of running it
there. -/
def lineFor (b : Backend) (limit : UInt64) (s : Session) (input : Bytes) : String :=
  callLine (s.context.requiredGas limit input).price (run b input s).1

section History

variable {b : Backend} {s : Session} {limit : UInt64}

lemma settings_after_exchange (input : Bytes) :
    (s.after b [.meter limit input, .run input]).context.settings = s.context.settings := by
  refine (run_framed b input _).1.trans ?_
  rw [Step.apply, Session.context_logAll]

lemma mode_after_exchange (input : Bytes) :
    (s.after b [.meter limit input, .run input]).context.mode = s.context.mode :=
  (congrArg Context.mode (settings_after_exchange input) :)

lemma gasLimit_after_exchange (input : Bytes) :
    (s.after b [.meter limit input, .run input]).context.gasLimit = s.context.gasLimit :=
  (congrArg Context.gasLimit (settings_after_exchange input) :)

lemma gasLimit_after_history (inputs : List Bytes) :
    (s.after b (history limit inputs)).context.gasLimit = s.context.gasLimit := by
  induction inputs generalizing s with
  | nil => rfl
  | cons input inputs ih => exact ih.trans (gasLimit_after_exchange input)

/-- A call is priced with the gas limit supplied, and then run. -/
lemma step_snd (hlimit : s.context.gasLimit = limit) (input : Bytes) :
    (step b input s).2 = s.after b [.meter limit input, .run input] := by
  subst hlimit
  rfl

lemma step_fst (hsteady : b.engine.Steady) (hlimit : s.context.gasLimit = limit) (input : Bytes) :
    (step b input s).1 = lineFor b limit s input := by
  subst hlimit
  rw [lineFor, ← run_fst_logAll s (s.context.requiredGas s.context.gasLimit input).events hsteady]
  rfl

end History

/-! ## Lines -/

/-- The inputs that the calls stand for, up to the first call that stands for none. -/
def inputsOf : List String → List Bytes
  | [] => []
  | call :: calls =>
    match decodeCall? call with
    | none => []
    | some input => input :: inputsOf calls

/-- The lines for some inputs. -/
def linesOf (b : Backend) : List Bytes → Session → List String
  | [], _ => []
  | input :: inputs, s => (step b input s).1 :: linesOf b inputs (step b input s).2

section Lines

variable {b : Backend} {s : Session} {limit : UInt64}

lemma lines_reportCalls (calls : List String) (s : Session) :
    (reportCalls b calls s).lines = linesOf b (inputsOf calls) s := by
  induction calls generalizing s with
  | nil => rfl
  | cons call calls ih =>
      rw [reportCalls, inputsOf]
      cases decodeCall? call with
      | none => rfl
      | some input => exact congrArg (List.cons _) (ih _)

/-- There is a complaint if and only if some call stands for no input. -/
lemma code_reportCalls (calls : List String) (s : Session) :
    (reportCalls b calls s).code = if (inputsOf calls).length = calls.length then 0 else 1 := by
  induction calls generalizing s with
  | nil => rfl
  | cons call calls ih =>
      rw [reportCalls, inputsOf]
      cases decodeCall? call with
      | none => rfl
      | some input =>
          simp only [List.length_cons, Nat.add_right_cancel_iff]
          exact ih _

lemma length_linesOf (inputs : List Bytes) (s : Session) :
    (linesOf b inputs s).length = inputs.length := by
  induction inputs generalizing s with
  | nil => rfl
  | cons input inputs ih => exact congrArg (· + 1) (ih _)

/-- The lines for the later inputs are those of the session after the earlier ones. -/
lemma linesOf_append (hlimit : s.context.gasLimit = limit) (inputs later : List Bytes) :
    linesOf b (inputs ++ later) s =
      linesOf b inputs s ++ linesOf b later (s.after b (history limit inputs)) := by
  induction inputs generalizing s with
  | nil => rfl
  | cons input inputs ih =>
      rw [List.cons_append, linesOf, linesOf, step_snd hlimit, List.cons_append]
      exact congrArg (List.cons _) (ih ((gasLimit_after_exchange input).trans hlimit))

/-- The line for an input is about the session after the inputs before it. -/
lemma linesOf_eq_of_append (hsteady : b.engine.Steady) (hlimit : s.context.gasLimit = limit)
    (before later : List Bytes) (input : Bytes) :
    (linesOf b (before ++ input :: later) s)[before.length]? =
      some (lineFor b limit (s.after b (history limit before)) input) := by
  have hlater : (s.after b (history limit before)).context.gasLimit = limit :=
    (gasLimit_after_history before).trans hlimit
  rw [linesOf_append hlimit, List.getElem?_append_right (length_linesOf before s).le,
    length_linesOf, Nat.sub_self, linesOf, step_fst hsteady hlater, List.getElem?_cons_zero]

/-- The lines for calls that are executed for real do not depend on stand-ins. -/
lemma linesOf_of_real_standIn {e : Engine} (standIn standIn' : Nat → Word)
    (hreal : s.context.mode ≠ .estimating) (inputs : List Bytes) :
    linesOf ⟨e, standIn⟩ inputs s = linesOf ⟨e, standIn'⟩ inputs s := by
  induction inputs generalizing s with
  | nil => rfl
  | cons input inputs ih =>
      have hstep : step ⟨e, standIn⟩ input s = step ⟨e, standIn'⟩ input s := by
        rw [step, step, run_of_real_standIn standIn standIn']
        rwa [Session.context_logAll]
      have hlater : (step ⟨e, standIn'⟩ input s).2.context.mode ≠ .estimating := by
        rwa [step_snd rfl, mode_after_exchange]
      rw [linesOf, linesOf, hstep, ih hlater]

end Lines

/-! ## The inputs -/

section Inputs

variable {call : String} {calls calls' : List String}

lemma inputsOf_cons_of_denotes {input : Bytes} (h : Denotes call input) (calls : List String) :
    inputsOf (call :: calls) = input :: inputsOf calls := by
  rw [inputsOf, decodeCall?_eq_some_iff.mpr h]

lemma inputsOf_cons_of_not_isHexCall (h : ¬IsHexCall call) (calls : List String) :
    inputsOf (call :: calls) = [] := by
  rw [inputsOf, decodeCall?_eq_none_iff.mpr h]

/-- The first calls stand for the inputs, one by one. -/
lemma forall₂_inputsOf (calls : List String) :
    List.Forall₂ Denotes (calls.take (inputsOf calls).length) (inputsOf calls) := by
  induction calls with
  | nil => exact .nil
  | cons call calls ih =>
      by_cases hcall : IsHexCall call
      · obtain ⟨input, hinput⟩ := exists_denotes_iff.mpr hcall
        rw [inputsOf_cons_of_denotes hinput]
        exact .cons hinput ih
      · rw [inputsOf_cons_of_not_isHexCall hcall]
        exact .nil

/-- The call behind them stands for no input. -/
lemma not_isHexCall_of_getElem? (h : calls[(inputsOf calls).length]? = some call) :
    ¬IsHexCall call := by
  induction calls with
  | nil => cases h
  | cons first calls ih =>
      by_cases hfirst : IsHexCall first
      · obtain ⟨input, hinput⟩ := exists_denotes_iff.mpr hfirst
        rw [inputsOf_cons_of_denotes hinput, List.length_cons, List.getElem?_cons_succ] at h
        exact ih h
      · rw [inputsOf_cons_of_not_isHexCall hfirst] at h
        obtain rfl := Option.some.inj h
        exact hfirst

/-- Only these inputs are stood for by as many calls and followed by a call that stands for none. -/
lemma eq_inputsOf {inputs : List Bytes}
    (hdenotes : List.Forall₂ Denotes (calls.take inputs.length) inputs)
    (hstop : ∀ call, calls[inputs.length]? = some call → ¬IsHexCall call) :
    inputs = inputsOf calls := by
  induction calls generalizing inputs with
  | nil =>
      rw [List.take_nil] at hdenotes
      cases hdenotes
      rfl
  | cons call calls ih =>
      cases inputs with
      | nil => rw [inputsOf_cons_of_not_isHexCall (hstop call rfl)]
      | cons input inputs =>
          obtain ⟨hcall, hcalls⟩ := List.forall₂_cons.mp hdenotes
          rw [inputsOf_cons_of_denotes hcall, ih hcalls hstop]

/-- More calls add inputs at the end. -/
lemma inputsOf_prefix_append (calls more : List String) :
    inputsOf calls <+: inputsOf (calls ++ more) := by
  induction calls with
  | nil => exact List.nil_prefix
  | cons call calls ih =>
      by_cases hcall : IsHexCall call
      · obtain ⟨input, hinput⟩ := exists_denotes_iff.mpr hcall
        rw [List.cons_append, inputsOf_cons_of_denotes hinput, inputsOf_cons_of_denotes hinput]
        exact (List.cons_prefix_cons).mpr ⟨rfl, ih⟩
      · rw [inputsOf_cons_of_not_isHexCall hcall]
        exact List.nil_prefix

/-- A call is the same as another one up to a mark in front. -/
def Remarked (call call' : String) : Prop :=
  call' = call ∨ call' = "0x" ++ call ∨ call = "0x" ++ call'

lemma decodeCall?_of_remarked {call' : String} (h : Remarked call call') :
    decodeCall? call' = decodeCall? call := by
  rcases h with rfl | rfl | rfl
  · rfl
  · exact decodeCall?_mark call
  · exact (decodeCall?_mark call').symm

lemma inputsOf_of_remarked (h : List.Forall₂ Remarked calls calls') :
    inputsOf calls' = inputsOf calls := by
  induction h with
  | nil => rfl
  | cons hcall _ ih => rw [inputsOf, inputsOf, decodeCall?_of_remarked hcall, ih]

end Inputs

/-! ## The main statement -/

/-- A session is the one that an invocation opens.  Its settings are those of the options and of the
files that are named, with the digest of the key on record, and nothing has happened in it yet. -/
structure Invocation.Opens (i : Invocation) (options : CallOptions)
    (read : String → Option Bytes) (s : Session) : Prop where
  mode : s.context.mode = options.mode
  depth : s.context.depth = options.depth
  gasLimit : s.context.gasLimit = options.gasLimit
  defaults : i.paramsPath = none → s.context.params = .default
  params : ∀ path, i.paramsPath = some path → Params.ofFile (read path) = .ok s.context.params
  noKey : i.keyPath = none → s.context.publicKey = none
  publicKey : ∀ path, i.keyPath = some path →
    ∃ blob, read path = some blob ∧ s.context.publicKey = some ⟨blob⟩
  recordedHash : s.context.recordedHash = s.context.publicKey.map fun k => Keccak.digest k.bytes
  entries : s.context.vault.registry.entries = []
  conditions : s.context.vault.requires.conditions = []
  journal : s.journal = ⟨[], [], 0⟩

section Opening

variable {read : String → Option Bytes} {i : Invocation} {params : Params}
  {key : Option PublicKey}

lemma loadParams_of_none (hparams : loadParams read none = .ok params) : params = .default :=
  (Except.ok.inj hparams).symm

lemma loadParams_of_some {path : String} (hparams : loadParams read (some path) = .ok params) :
    Params.ofFile (read path) = .ok params := by
  rw [loadParams] at hparams
  cases hfile : Params.ofFile (read path) with
  | error cause =>
      rw [hfile] at hparams
      cases hparams
  | ok params' =>
      rw [hfile] at hparams
      cases hparams
      rfl

lemma loadKey_of_none (hkey : loadKey read none = .ok key) : key = none :=
  (Except.ok.inj hkey).symm

lemma loadKey_of_some {path : String} (hkey : loadKey read (some path) = .ok key) :
    ∃ blob, read path = some blob ∧ key = some ⟨blob⟩ := by
  rw [loadKey] at hkey
  cases hfile : read path with
  | none =>
      simp only [hfile] at hkey
      cases hkey
  | some blob =>
      simp only [hfile] at hkey
      cases hkey
      exact ⟨blob, rfl, rfl⟩

lemma opens_freshSession (options : CallOptions)
    (hparams : loadParams read i.paramsPath = .ok params)
    (hkey : loadKey read i.keyPath = .ok key) :
    i.Opens options read (freshSession params key options) where
  mode := rfl
  depth := rfl
  gasLimit := rfl
  defaults hpath := by
    rw [hpath] at hparams
    exact loadParams_of_none hparams
  params path hpath := by
    rw [hpath] at hparams
    exact loadParams_of_some hparams
  noKey hpath := by
    rw [hpath] at hkey
    exact loadKey_of_none hkey
  publicKey path hpath := by
    rw [hpath] at hkey
    exact loadKey_of_some hkey
  recordedHash := rfl
  entries := rfl
  conditions := rfl
  journal := rfl

end Opening

/-- An invocation, with other calls in the place of its own. -/
def Invocation.onCalls (i : Invocation) (options : CallOptions) (calls : List String) :
    Invocation :=
  { i with command := .call { options with calls } }

lemma report_eq {read : String → Option Bytes} (standIn : Nat → Word) {i : Invocation}
    {options : CallOptions} {params : Params} {key : Option PublicKey}
    (hcommand : i.command = .call options) (hparams : loadParams read i.paramsPath = .ok params)
    (hkey : loadKey read i.keyPath = .ok key) :
    i.report read standIn =
      reportCalls ⟨Clear.engine, standIn⟩ options.calls (freshSession params key options) := by
  simp only [Invocation.report, hcommand, hparams, hkey]

/-- **The command for calls is a session with the clear engine, line by line.**  Suppose that the
prices can be read, and the public key, if there is one.  The calls at the beginning stand for
inputs, up to the first call that is no hexadecimal text, and there is one line for each of them.
In the session that the invocation opens, in which all inputs are priced, with the gas limit
supplied, and run in order, the line for an input tells the price and what comes of the run; a run
that fails is followed by the next one.  The exit code is 0 if all calls stand for inputs, and 1
otherwise.

More calls add lines at the end, and a mark that is added to calls or taken away changes neither the
lines nor the exit code.  While estimating this is so for the same stand-ins, and otherwise whatever
the stand-ins are. -/
theorem call_report_is_session (read : String → Option Bytes) (standIn : Nat → Word)
    {i : Invocation} {options : CallOptions} {params : Params} {key : Option PublicKey}
    (hcommand : i.command = .call options) (hparams : loadParams read i.paramsPath = .ok params)
    (hkey : loadKey read i.keyPath = .ok key) :
    i.Opens options read (freshSession params key options) ∧
    ∃ inputs : List Bytes,
      List.Forall₂ Denotes (options.calls.take inputs.length) inputs ∧
      (∀ call, options.calls[inputs.length]? = some call → ¬IsHexCall call) ∧
      (i.report read standIn).lines.length = inputs.length ∧
      (∀ before input later s, inputs = before ++ input :: later →
        s = (freshSession params key options).after ⟨Clear.engine, standIn⟩
          (history options.gasLimit before) →
        (i.report read standIn).lines[before.length]? =
          some (lineFor ⟨Clear.engine, standIn⟩ options.gasLimit s input) ∧
        TellsOf (lineFor ⟨Clear.engine, standIn⟩ options.gasLimit s input)
          (s.context.requiredGas options.gasLimit input).price
          (run ⟨Clear.engine, standIn⟩ input s).1) ∧
      (i.report read standIn).code = (if inputs.length = options.calls.length then 0 else 1) ∧
      (∀ more standIn', options.mode ≠ .estimating ∨ standIn' = standIn →
        (i.report read standIn).lines <+:
          ((i.onCalls options (options.calls ++ more)).report read standIn').lines) ∧
      ∀ calls' standIn', List.Forall₂ Remarked options.calls calls' →
        (options.mode ≠ .estimating ∨ standIn' = standIn →
          ((i.onCalls options calls').report read standIn').lines =
            (i.report read standIn).lines) ∧
        ((i.onCalls options calls').report read standIn').code = (i.report read standIn).code := by
  have hlimit : (freshSession params key options).context.gasLimit = options.gasLimit := rfl
  have hreport := report_eq standIn hcommand hparams hkey
  have hother (calls : List String) (standIn' : Nat → Word) :
      (i.onCalls options calls).report read standIn' =
        reportCalls ⟨Clear.engine, standIn'⟩ calls (freshSession params key options) := by
    have hcalls : (i.onCalls options calls).command = .call { options with calls } := rfl
    exact report_eq standIn' hcalls hparams hkey
  have hstandIn (inputs : List Bytes) (standIn' : Nat → Word)
      (h : options.mode ≠ .estimating ∨ standIn' = standIn) :
      linesOf ⟨Clear.engine, standIn'⟩ inputs (freshSession params key options) =
        linesOf ⟨Clear.engine, standIn⟩ inputs (freshSession params key options) := by
    rcases h with hreal | rfl
    · exact linesOf_of_real_standIn standIn' standIn hreal inputs
    · rfl
  refine ⟨opens_freshSession options hparams hkey, inputsOf options.calls,
    forall₂_inputsOf options.calls, fun call => not_isHexCall_of_getElem?, ?length, ?line, ?code,
    ?more, ?marks⟩
  case length => rw [hreport, lines_reportCalls, length_linesOf]
  case line =>
    rintro before input later s hinputs rfl
    refine ⟨?_, tellsOf_callLine _ _⟩
    rw [hreport, lines_reportCalls, hinputs, linesOf_eq_of_append Clear.engine_steady hlimit]
  case code => rw [hreport, code_reportCalls]
  case more =>
    intro more standIn' hmode
    obtain ⟨later, hlater⟩ := inputsOf_prefix_append options.calls more
    rw [hreport, hother, lines_reportCalls, lines_reportCalls, hstandIn _ _ hmode, ← hlater,
      linesOf_append hlimit]
    exact List.prefix_append _ _
  case marks =>
    intro calls' standIn' hmarks
    have hinputs := inputsOf_of_remarked hmarks
    constructor
    · intro hmode
      rw [hreport, hother, lines_reportCalls, lines_reportCalls, hstandIn _ _ hmode, hinputs]
    · rw [hreport, hother, code_reportCalls, code_reportCalls, hinputs, hmarks.length_eq]

/-- The key is in the only file that there is. -/
def keyFile (path : String) : Option Bytes := if path = "key" then some [7, 255] else none

/-- Three calls: the first one asks for the key, the second one has no selector, and the third one
has a single digit. -/
def oddOptions : CallOptions where
  mode := .staticCall
  calls := ["0xD9d47bb000", "0x0xAb", "1"]

/-- The invocation for the three calls. -/
def oddInvocation : Invocation := ⟨none, some "key", .call oddOptions⟩

/-- The session that it opens. -/
def oddSession : Session := freshSession .default (some ⟨[7, 255]⟩) oddOptions

/-- What the first call stands for. -/
def keyCall : Bytes := [0xD9, 0xD4, 0x7B, 0xB0, 0]

lemma dispatch_keyCall : dispatch keyCall = .ok .publicKey := by
  have hselector : Method.publicKey.selector = 0xD9D47BB0 :=
    Option.some.inj (congrArg (·[5]?) Method.map_selector_all)
  have hbytes : keyCall = selectorBytes Method.publicKey.selector ++ [0] := by
    rw [hselector]
    decide
  rw [hbytes, dispatch_selectorBytes]

lemma run_keyCall (standIn : Nat → Word) :
    (run ⟨Clear.engine, standIn⟩ keyCall oddSession).1 = .ok [7, 255] :=
  run_publicKey_of_match dispatch_keyCall rfl rfl

lemma price_keyCall (supplied : UInt64) :
    (oddSession.context.requiredGas supplied keyCall).price = 2 := by
  rw [Context.requiredGas, dispatch_keyCall]
  rfl

lemma run_singleByte (b : Backend) (byte : UInt8) (s : Session) :
    (run b [byte] s).1 = .error (.missingSelector 1) := by
  rw [run_of_undispatched (dispatch_of_short (by simp))]
  rfl

lemma price_singleByte (c : Context) (supplied : UInt64) (byte : UInt8) :
    (c.requiredGas supplied [byte]).price = 0 := by
  rw [Context.requiredGas, dispatch_of_short (by simp)]

/-- The key is served for its price, as the first line tells.  The second call fails for lack of a
selector, as the second line tells, and at the third one the report ends with the exit code 1.  If
the second call has one mark less and the others have one more, then the lines are the same, and if
there is one more call, then they are still the first ones. -/
theorem odd_call_ends_report :
    Invocation.ofArguments none none
        ["--pks", "key", "call", "--mode", "static", "0xD9d47bb000", "0x0xAb", "1"] =
      .ok oddInvocation ∧
    (oddInvocation.report keyFile fun _ => .zero).lines =
      ["\x7b\"gas\":2,\"output\":\"0x07ff\"\x7d",
        "\x7b\"error\":\"input must contain at least 4 bytes for method signature, got 1\"," ++
          "\"gas\":0,\"revert\":false\x7d"] ∧
    (oddInvocation.report keyFile fun _ => .zero).lines.map Told.ofLine =
      [.ok { gas := some 2, output := some [7, 255] },
        .ok { gas := some 0, error := some (CallError.missingSelector 1).message
              revert := some false }] ∧
    (oddInvocation.report keyFile fun _ => .zero).code = 1 ∧
    ((oddInvocation.onCalls oddOptions ["0x0xD9d47bb000", "0xAb", "0x1"]).report keyFile
      fun _ => .full).lines = (oddInvocation.report keyFile fun _ => .zero).lines ∧
    (oddInvocation.report keyFile fun _ => .zero).lines <+:
      ((oddInvocation.onCalls oddOptions ["0xD9d47bb000", "0x0xAb", "1", "0x"]).report keyFile
        fun _ => .full).lines := by
  have hmode : oddOptions.mode ≠ .estimating := by decide
  have hmarks : List.Forall₂ Remarked oddOptions.calls ["0x0xD9d47bb000", "0xAb", "0x1"] :=
    .cons (.inr (.inl rfl)) (.cons (.inr (.inr rfl)) (.cons (.inr (.inl rfl)) .nil))
  have hinputs : inputsOf oddOptions.calls = [keyCall, [0xAB]] := by decide +kernel
  obtain ⟨-, inputs, hdenotes, hstop, hlength, hline, hcode, hmore, hmarked⟩ :=
    call_report_is_session keyFile (fun _ => .zero)
      (show oddInvocation.command = .call oddOptions from rfl) rfl rfl
  obtain rfl : inputs = [keyCall, [0xAB]] := (eq_inputsOf hdenotes hstop).trans hinputs
  obtain ⟨first, second, hlines⟩ := List.length_eq_two.mp hlength
  obtain ⟨hfirst, htells⟩ := hline [] keyCall [[0xAB]] oddSession rfl rfl
  obtain ⟨hsecond, htells'⟩ := hline [keyCall] [0xAB] [] _ rfl rfl
  rw [hlines] at hfirst hsecond
  obtain rfl := Option.some.inj hfirst
  obtain rfl := Option.some.inj hsecond
  -- The texts of the two lines follow from the prices and from what comes of the runs.
  have hmessage : (CallError.missingSelector 1).message =
      "input must contain at least 4 bytes for method signature, got 1" := rfl
  have hserved := htells.output _ (run_keyCall _)
  obtain ⟨raw, -, hraw, hfailed⟩ := htells'.failure _ (run_singleByte _ _ _)
  have htold := htells.told
  have htold' := htells'.told
  rw [run_keyCall, price_keyCall] at htold
  rw [run_singleByte, price_singleByte] at htold'
  rw [price_keyCall] at hserved
  rw [price_singleByte, hraw (by simp [hmessage, IsPlain])] at hfailed
  refine ⟨by decide +kernel, ?_, ?_, hcode, ?_, ?_⟩
  · rw [hlines, hserved, hfailed]
    rfl
  · rw [hlines, List.map_cons, List.map_singleton, htold, htold']
    rfl
  · exact (hmarked _ (fun _ => .full) hmarks).1 (.inl hmode)
  · exact hmore ["0x"] (fun _ => .full) (.inl hmode)

end CommandLine

end CipherCalls
