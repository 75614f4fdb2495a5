/-
# Programs

A program is a list of instructions: calls, and what the host does to the registry and to the
depth in between.  Where a call names a ciphertext, the program has a *reference*, either to an
entry of the initial registry or to the output of an earlier call that produced a ciphertext.
Therefore the same program can be run in different contexts, in which the outputs have different
handles.

References stand in front of the other bytes of a call, and only where the method reads a handle.
-/
import Mathlib
import CipherCalls.Proofs.History
import CipherCalls.Proofs.Outline
import CipherCalls.Proofs.Selection
import CipherCalls.Proofs.Slots

namespace CipherCalls

/-! ## Calls with references -/

/-- A reference to a ciphertext. -/
inductive Ref where
  /-- An entry of the initial registry. -/
  | entry (h : Handle)
  /-- An output of an earlier call, counted from 0. -/
  | output (i : Nat)

/-- The handle of a reference, when the outputs are known. -/
def Ref.handle (outputs : List Handle) : Ref → Handle
  | entry h => h
  | output i => outputs.getD i .zero

/-- A reference to a known entry or to one of the first `n` outputs. -/
def Ref.Valid (r : Registry) (n : Nat) : Ref → Prop
  | entry h => (r.find? h).isSome
  | output i => i < n

/-- Whether a method returns the handle of a new ciphertext. -/
def Method.produces : Method → Bool
  | add | sub | bitAnd | cast | encrypt => true
  | decrypt | publicKey | require | padGas => false

/-- A call in a program. -/
structure Call where
  method : Method
  refs : List Ref
  /-- The bytes behind the references. -/
  rest : Bytes

namespace Call

/-- The arguments of a call. -/
def arguments (outputs : List Handle) (call : Call) : Bytes :=
  call.refs.flatMap (fun r => (r.handle outputs).bytes) ++ call.rest

/-- The input of a call. -/
def input (outputs : List Handle) (call : Call) : Bytes :=
  encodeCall call.method.signature [call.arguments outputs]

/-- The number of handles that the method reads.  For two operands it depends on the flag behind
two words. -/
def slots (call : Call) : Nat :=
  match call.method with
  | .add | .sub | .bitAnd => if call.rest.getD (64 - 32 * call.refs.length) 0 = 1 then 1 else 2
  | .cast | .decrypt | .require => 1
  | .encrypt | .publicKey | .padGas => 0

/-- The references fill the slots for handles exactly, or the call is too short for its method. -/
def Fits (call : Call) : Prop :=
  call.refs.length = call.slots ∨
    32 * call.refs.length + call.rest.length < call.method.payloadLength

/-- A call that fits, with references that are defined. -/
def Valid (r : Registry) (n : Nat) (call : Call) : Prop :=
  call.Fits ∧ ∀ ref ∈ call.refs, ref.Valid r n

@[simp] lemma dispatch_input (outputs : List Handle) (call : Call) :
    dispatch (call.input outputs) = .ok call.method :=
  dispatch_encodeCall _ _

lemma payload_input (outputs : List Handle) (call : Call) :
    call.method.payload (call.input outputs) =
      (call.arguments outputs).take call.method.payloadLength := by
  rw [input, payload_encodeCall, List.flatten_singleton]

lemma length_arguments (outputs : List Handle) (call : Call) :
    (call.arguments outputs).length = 32 * call.refs.length + call.rest.length := by
  have hrefs (refs : List Ref) :
      (refs.flatMap fun r => (r.handle outputs).bytes).length = 32 * refs.length := by
    induction refs with
    | nil => rfl
    | cons r refs ih =>
        rw [List.flatMap_cons, List.length_append, ih, Handle.length_bytes, List.length_cons]
        ring
  rw [arguments, List.length_append, hrefs]

lemma length_payload_input (outputs : List Handle) (call : Call) :
    (call.method.payload (call.input outputs)).length =
      min call.method.payloadLength (32 * call.refs.length + call.rest.length) := by
  rw [payload_input, List.length_take, length_arguments]

end Call

/-! ## The same call with other outputs -/

section Alike

variable {R : Handle → Handle → Prop} {outputs outputs' : List Handle} {call : Call}

/-- A call without references has the same payload everywhere. -/
lemma Call.payload_of_nil (call : Call) (h : call.refs = []) :
    call.method.payload (call.input outputs') = call.method.payload (call.input outputs) := by
  rw [payload_input, payload_input, arguments, arguments, h]
  rfl

/-- A call with one handle in front. -/
lemma Call.payload_of_singleton {ref : Ref} (h : call.refs = [ref]) :
    call.method.payload (call.input outputs) =
      ((ref.handle outputs).bytes ++ call.rest).take call.method.payloadLength := by
  rw [payload_input, arguments, h, List.flatMap_singleton]

/-- A call with two handles in front. -/
lemma Call.payload_of_pair {ref ref' : Ref} (h : call.refs = [ref, ref']) :
    call.method.payload (call.input outputs) =
      ((ref.handle outputs).bytes ++ ((ref'.handle outputs).bytes ++ call.rest)).take
        call.method.payloadLength := by
  rw [payload_input, arguments, h, List.flatMap_cons, List.flatMap_singleton, List.append_assoc]

/-- The payloads for two operands are alike: a plain operand is the same on both sides, and an
encrypted one is a reference. -/
lemma Call.read_binary (hlength : call.method.payloadLength = 65)
    (hslots : call.refs.length =
      if call.rest.getD (64 - 32 * call.refs.length) 0 = 1 then 1 else 2)
    (hrefs : ∀ ref ∈ call.refs, R (ref.handle outputs) (ref.handle outputs')) {p p' : Bytes}
    (hp : call.method.payload (call.input outputs) = p)
    (hp' : call.method.payload (call.input outputs') = p') :
    p'.getD 64 0 = p.getD 64 0 ∧ R (.ofTail (firstSlot p)) (.ofTail (firstSlot p')) ∧
      if p.getD 64 0 = 1 then secondSlot p' = secondSlot p
      else R (.ofTail (secondSlot p)) (.ofTail (secondSlot p')) := by
  subst hp hp'
  have h32 (h : Handle) : h.bytes.length = 32 := h.length_bytes
  split at hslots
  · -- One reference, and behind it the plain operand and the flag.
    rename_i hflag
    obtain ⟨ref, href⟩ := List.length_eq_one_iff.mp hslots
    rw [hslots] at hflag
    have hread (os : List Handle) :
        (call.method.payload (call.input os)).getD 64 0 = 1 ∧
          firstSlot (call.method.payload (call.input os)) = (ref.handle os).bytes ∧
          secondSlot (call.method.payload (call.input os)) = call.rest.take 32 := by
      rw [payload_of_singleton href, hlength, getD_take_append (by omega) (by rw [h32]; omega), h32,
        firstSlot_take (by omega) (h32 _), secondSlot_take (by omega) (h32 _)]
      exact ⟨hflag, rfl, rfl⟩
    obtain ⟨hf, hfirst, hsecond⟩ := hread outputs
    obtain ⟨hf', hfirst', hsecond'⟩ := hread outputs'
    rw [hf, hf', hfirst, hfirst', hsecond, hsecond', Handle.ofTail_bytes, Handle.ofTail_bytes]
    exact ⟨rfl, hrefs ref (by simp [href]), rfl⟩
  · -- Two references, and behind them the flag.
    rename_i hflag
    obtain ⟨lhs, rhs, href⟩ := List.length_eq_two.mp hslots
    rw [hslots] at hflag
    have hread (os : List Handle) :
        (call.method.payload (call.input os)).getD 64 0 = call.rest.getD 0 0 ∧
          firstSlot (call.method.payload (call.input os)) = (lhs.handle os).bytes ∧
          secondSlot (call.method.payload (call.input os)) = (rhs.handle os).bytes := by
      rw [payload_of_pair href, hlength, firstSlot_take (by omega) (h32 _),
        secondSlot_take (by omega) (h32 _), List.take_left' (h32 _)]
      rw [← List.append_assoc, getD_take_append (by omega) (by simp), List.length_append, h32, h32]
      exact ⟨rfl, rfl, rfl⟩
    obtain ⟨hf, hfirst, hsecond⟩ := hread outputs
    obtain ⟨hf', hfirst', hsecond'⟩ := hread outputs'
    rw [hf, hf', hfirst, hfirst', hsecond, hsecond', if_neg hflag]
    rw [Handle.ofTail_bytes, Handle.ofTail_bytes, Handle.ofTail_bytes, Handle.ofTail_bytes]
    exact ⟨rfl, hrefs lhs (by simp [href]), hrefs rhs (by simp [href])⟩

/-- The payloads of a call with a single handle. -/
lemma Call.read_singleton {n : Nat} (hlength : call.method.payloadLength = n) (hn : 32 ≤ n)
    (hslots : call.refs.length = 1)
    (hrefs : ∀ ref ∈ call.refs, R (ref.handle outputs) (ref.handle outputs')) {p p' : Bytes}
    (hp : call.method.payload (call.input outputs) = p)
    (hp' : call.method.payload (call.input outputs') = p') :
    R (.ofTail (firstSlot p)) (.ofTail (firstSlot p')) ∧
      ∀ k, 32 ≤ k → k < n → p'.getD k 0 = p.getD k 0 := by
  subst hp hp' hlength
  obtain ⟨ref, href⟩ := List.length_eq_one_iff.mp hslots
  have h32 (h : Handle) : h.bytes.length = 32 := h.length_bytes
  rw [payload_of_singleton href, payload_of_singleton href, firstSlot_take hn (h32 _),
    firstSlot_take hn (h32 _), Handle.ofTail_bytes, Handle.ofTail_bytes]
  refine ⟨hrefs ref (by simp [href]), fun k hk hlt => ?_⟩
  rw [getD_take_append hlt (by rw [h32]; exact hk), getD_take_append hlt (by rw [h32]; exact hk),
    h32, h32]

/-- If a call is too short for its method, the length is all that matters, or there are no
references. -/
lemma Call.alike_of_short
    (hshort : 32 * call.refs.length + call.rest.length < call.method.payloadLength) :
    call.method.Alike R (call.method.payload (call.input outputs))
      (call.method.payload (call.input outputs')) := by
  have hlen := call.length_payload_input outputs
  have hlen' := call.length_payload_input outputs'
  have hlt : (call.method.payload (call.input outputs)).length < call.method.payloadLength := by
    omega
  refine ⟨hlen'.trans hlen.symm, ?_⟩
  -- A reference alone would be long enough for the two methods that read short payloads.
  have hnil {n : Nat} (hlength : call.method.payloadLength = n) (hn : n ≤ 32) : call.refs = [] :=
    List.length_eq_zero_iff.mp (by omega)
  obtain ⟨m, refs, rest⟩ := call
  cases m with
  | add | sub | bitAnd | cast | decrypt | require | encrypt => exact fun h => absurd h hlt.ne
  | publicKey => exact Call.payload_of_nil _ (hnil (n := 1) rfl (by decide))
  | padGas => exact Call.payload_of_nil _ (hnil (n := 32) rfl (by decide))

/-- The payloads of a call are alike if its references are related. -/
lemma Call.alike (hfits : call.Fits)
    (hrefs : ∀ ref ∈ call.refs, R (ref.handle outputs) (ref.handle outputs')) :
    call.method.Alike R (call.method.payload (call.input outputs))
      (call.method.payload (call.input outputs')) := by
  rcases hfits with hslots | hshort
  · have hlen := call.length_payload_input outputs
    have hlen' := call.length_payload_input outputs'
    obtain ⟨m, refs, rest⟩ := call
    refine ⟨hlen'.trans hlen.symm, ?_⟩
    cases m with
    | add | sub | bitAnd => exact fun _ => read_binary rfl hslots hrefs rfl rfl
    | cast =>
        intro _
        obtain ⟨hsource, hbyte⟩ := read_singleton (n := 33) rfl (by decide) hslots hrefs rfl rfl
        exact ⟨hsource, hbyte 32 (by decide) (by decide)⟩
    | decrypt | require =>
        intro h32
        obtain ⟨htarget, -⟩ := read_singleton (n := 32) rfl (by decide) hslots hrefs rfl rfl
        rwa [firstSlot_of_length h32, firstSlot_of_length (hlen'.trans (hlen.symm.trans h32))]
          at htarget
    | encrypt => exact fun _ => Call.payload_of_nil _ (List.length_eq_zero_iff.mp hslots)
    | publicKey | padGas => exact Call.payload_of_nil _ (List.length_eq_zero_iff.mp hslots)
  · exact alike_of_short hshort

end Alike

/-! ## Instructions -/

/-- An instruction of a program. -/
inductive Instruction where
  | call (call : Call)
  | setDepth (d : Nat)
  | delegate (ref : Ref) (d : Nat)
  | retire (d : Nat)

/-- A session, and the handles returned by the calls that produced a ciphertext, oldest first. -/
structure Progress where
  session : Session
  outputs : List Handle := []

namespace Progress

/-- The context of the session. -/
def context (p : Progress) : Context := p.session.context

/-- The registry of the session. -/
def registry (p : Progress) : Registry := p.session.context.vault.registry

/-- What the engine was asked so far. -/
def calls (p : Progress) : List Engine.Call := p.session.journal.calls

/-- The host changes the context. -/
def mapContext (f : Context → Context) (p : Progress) : Progress :=
  { p with session := { p.session with context := f p.session.context } }

/-- The start of a program in a context. -/
def start (c : Context) : Progress := ⟨⟨c, {}⟩, []⟩

end Progress

/-- The handles in the output of a successful call. -/
def Method.handles (m : Method) (output : Bytes) : List Handle :=
  if m.produces then (Handle.ofBytes? output).toList else []

/-- A call is executed. -/
def Call.perform (b : Backend) (call : Call) (p : Progress) : Except CallError Bytes × Progress :=
  match run b (call.input p.outputs) p.session with
  | (.ok output, s) => (.ok output, ⟨s, p.outputs ++ call.method.handles output⟩)
  | (.error cause, s) => (.error cause, ⟨s, p.outputs⟩)

/-- The price of a call. -/
def Call.price (supplied : UInt64) (call : Call) (p : Progress) : UInt64 :=
  (p.context.requiredGas supplied (call.input p.outputs)).price

/-- What is left of a call: the progress after it, if it was successful. -/
def succeeded {α : Type} : Except CallError α × Progress → Option Progress
  | (.ok _, p) => some p
  | (.error _, _) => none

/-- An instruction is executed, unless it is a call that fails. -/
def Instruction.execute (b : Backend) (p : Progress) : Instruction → Option Progress
  | call c => succeeded (c.perform b p)
  | setDepth d => some (p.mapContext (·.setDepth d))
  | delegate ref d => some (p.mapContext (·.delegate (ref.handle p.outputs) d))
  | retire d => some (p.mapContext (·.retire d))

lemma succeeded_eq_some_iff {α : Type} {o : Except CallError α × Progress} {q : Progress} :
    succeeded o = some q ↔ ∃ a, o = (.ok a, q) := by
  rcases o with ⟨cause | a, p⟩ <;> simp [succeeded]

lemma execute_call_iff {b : Backend} {c : Call} {p q : Progress} :
    (Instruction.call c).execute b p = some q ↔ ∃ output, c.perform b p = (.ok output, q) := by
  simp only [Instruction.execute, succeeded_eq_some_iff]

/-- A program is executed, as long as all calls succeed. -/
def execute (b : Backend) (program : List Instruction) (p : Progress) : Option Progress :=
  program.foldlM (Instruction.execute b) p

lemma execute_singleton (b : Backend) (x : Instruction) (p : Progress) :
    execute b [x] p = x.execute b p := by
  simp [execute]

lemma execute_append_singleton (b : Backend) (program : List Instruction) (x : Instruction)
    (p : Progress) :
    execute b (program ++ [x]) p = (execute b program p).bind fun q => x.execute b q := by
  rw [execute, List.foldlM_append]
  simp [execute, bind]

/-! ## Valid programs -/

/-- The number of outputs of an instruction that was executed. -/
def Instruction.yield : Instruction → Nat
  | call c => if c.method.produces then 1 else 0
  | setDepth _ | delegate .. | retire _ => 0

/-- The number of outputs of a program. -/
def outputCount (program : List Instruction) : Nat := (program.map Instruction.yield).sum

/-- An instruction whose references are defined when there are `n` outputs. -/
def Instruction.Valid (r : Registry) (n : Nat) : Instruction → Prop
  | call c => c.Valid r n
  | delegate ref _ => ref.Valid r n
  | setDepth _ | retire _ => True

/-- A program in which every reference is to an entry of the initial registry or to the output of
an earlier instruction. -/
def ValidProgram (r : Registry) (program : List Instruction) : Prop :=
  ∀ before x after, program = before ++ x :: after → x.Valid r (outputCount before)

lemma ValidProgram.of_append {r : Registry} {program : List Instruction} {x : Instruction}
    (h : ValidProgram r (program ++ [x])) :
    ValidProgram r program ∧ x.Valid r (outputCount program) := by
  refine ⟨fun before y after hprogram => ?_, h program x [] rfl⟩
  refine h before y (after ++ [x]) ?_
  rw [hprogram, List.append_assoc, List.cons_append]

end CipherCalls
