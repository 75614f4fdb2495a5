/-
# Plain operands

An operation may take a plain number as its right operand.  The same can be done with two calls: the
number is encrypted to the width of the left operand, and the operation is applied to the two
ciphertexts.  With the clear engine both ways have the same price and come to the same result, be it
a ciphertext or an error.

On the one way the number is wrapped by the engine.  On the other way it is wrapped as well, but
then written to a payload, looked up under its digest and read again; what makes the ways meet is
`Clear.combine_encode`.  The lookup finds the number unless its digest belongs to something else,
which is excluded for the ciphertexts of the registry.
-/
import Mathlib
import CipherCalls.Proofs.Questions

namespace CipherCalls

/-! ## After other calls -/

namespace Session

variable {b : Backend} {s : Session} {h : Handle} {x : Ciphertext}

/-- What is visible remains so when an input is run. -/
lemma verified?_run (input : Bytes) (hx : s.context.verified? h = some x) :
    (run b input s).2.context.verified? h = some x := by
  rw [context_run]
  cases s.effect b input with
  | registered c => exact Registry.get?_register_of_some hx
  | none | stated | drained => exact hx

lemma verified?_after_runs (inputs : List Bytes) (hx : s.context.verified? h = some x) :
    (s.after b (inputs.map .run)).context.verified? h = some x := by
  induction inputs generalizing s with
  | nil => exact hx
  | cons input inputs ih => exact ih (verified?_run input hx)

lemma settings_after_runs (inputs : List Bytes) :
    (s.after b (inputs.map .run)).context.settings = s.context.settings := by
  induction inputs generalizing s with
  | nil => rfl
  | cons input inputs ih => exact ih.trans (run_framed b input s).1

end Session

/-! ## The two forms of an operation -/

section Forms

variable {standIn : Nat → Word} {s t : Session} {op : BinaryOp} {h h' : Handle} {x : Ciphertext}
  {w : Word} {flag : UInt8}

/-- A sum or a difference is charged for the width of its left operand. -/
lemma price_of_sum (hop : op = .add ∨ op = .sub) {o : Operands} {request : Engine.Request}
    (hrequest : op.request o = .ok request) (c : Context) (supplied : UInt64) (payload : Bytes) :
    c.price supplied payload (.produce request) = c.params.gasCosts.addSub.get o.width := by
  rcases hop with rfl | rfl
  · cases o <;> cases hrequest <;> rfl
  · cases o <;> cases hrequest <;> rfl

/-- What is asked for in the two forms, and that the answer is the same. -/
lemma requests_of_forms (hop : op = .add ∨ op = .sub) (x : Ciphertext) (v : UInt64) :
    ∃ plain encrypted, op.request (.scalar x v) = .ok plain ∧
      op.request (.encrypted x (Clear.encode v x.width)) = .ok encrypted ∧
      Clear.produce encrypted = Clear.produce plain := by
  rcases hop with rfl | rfl
  · exact ⟨_, _, rfl, rfl, Clear.combine_encode _ x v⟩
  · exact ⟨_, _, rfl, rfl, Clear.combine_encode _ x v⟩

/-- The two forms have the same price, and the same result. -/
structure FormsAgree (b : Backend) (s t : Session) (plain encrypted : Bytes) : Prop where
  price : ∀ supplied,
    s.context.requiredGas supplied plain = t.context.requiredGas supplied encrypted
  result :
    (∃ h : Handle, (run b plain s).1 = .ok h.bytes ∧ (run b encrypted t).1 = .ok h.bytes) ∨
      ∃ cause, (run b plain s).1 = .error (.engine cause) ∧
        (run b encrypted t).1 = .error (.engine cause)

/-- The two forms agree as soon as their operands are visible. -/
lemma forms_agree (hop : op = .add ∨ op = .sub) (hflag : flag ≠ 1)
    (hreal : s.context.mode ≠ .estimating) (hsettings : t.context.settings = s.context.settings)
    (hx : s.context.verified? h = some x) (hx' : t.context.verified? h = some x)
    (hy : t.context.verified? h' = some (Clear.encode (Bytes.low64 w.bytes) x.width)) :
    FormsAgree ⟨Clear.engine, standIn⟩ s t (flaggedCall op h w 1)
      (flaggedCall op h h'.word flag) := by
  obtain ⟨plain, encrypted, hplain, hencrypted, hanswers⟩ :=
    requests_of_forms hop x (Bytes.low64 w.bytes)
  have hscalar : op.supportsScalar = true := by
    rcases hop with rfl | rfl <;> rfl
  have hcast : op.method ≠ .cast := by cases op <;> decide
  have hmode : t.context.mode = s.context.mode := (congrArg Context.mode hsettings :)
  have hparams : t.context.params = s.context.params := (congrArg Context.params hsettings :)
  have hreal' : t.context.mode ≠ .estimating := hmode ▸ hreal
  have hm : dispatch (flaggedCall op h w 1) = .ok op.method := dispatch_encodeCall op.method _
  have hm' : dispatch (flaggedCall op h h'.word flag) = .ok op.method :=
    dispatch_encodeCall op.method _
  have hd := demand_flaggedCall_one hx hscalar hplain
  have hd' := demand_flaggedCall hflag hx' hy rfl hencrypted
  refine ⟨fun supplied => ?_, ?_⟩
  · rw [requiredGas_of_demand_ok hm hcast hd, requiredGas_of_demand_ok hm' hcast hd',
      price_of_sum hop hplain, price_of_sum hop hencrypted, hparams]
    rfl
  · cases hanswer : Clear.produce plain with
    | error cause =>
        exact .inr ⟨cause, (run_of_refusal hreal hm hd hanswer).1,
          (run_of_refusal hreal' hm' hd' (hanswers.trans hanswer)).1⟩
    | ok c =>
        exact .inl ⟨c.handle, (run_of_answer hreal hm hd hanswer).1,
          (run_of_answer hreal' hm' hd' (hanswers.trans hanswer)).1⟩

/-- The encryption of a word for real: the handle of the ciphertext is returned, under which this is
visible from then on. -/
lemma run_encrypt (standIn : Nat → Word) (hreal : s.context.mode ≠ .estimating)
    (hcontent : s.context.vault.registry.ContentAddressed) (w : Word) (width : Width)
    (hfree : CollisionFree
      (Clear.encode (Bytes.low64 w.bytes) width :: s.context.vault.registry.ciphertexts)) :
    (run ⟨Clear.engine, standIn⟩ (widthCall Method.encrypt.signature w width) s).1 =
        .ok (Clear.encode (Bytes.low64 w.bytes) width).handle.bytes ∧
      (run ⟨Clear.engine, standIn⟩ (widthCall Method.encrypt.signature w width)
          s).2.context.verified? (Clear.encode (Bytes.low64 w.bytes) width).handle =
        some (Clear.encode (Bytes.low64 w.bytes) width) := by
  have hm : dispatch (widthCall Method.encrypt.signature w width) = .ok .encrypt :=
    dispatch_encodeCall .encrypt _
  have hanswer : Clear.engine.produce s.journal.calls (.encrypt (Bytes.low64 w.bytes) width) =
      .ok (Clear.encode (Bytes.low64 w.bytes) width) := rfl
  obtain ⟨hresult, hcontext⟩ :=
    run_of_answer (b := ⟨Clear.engine, standIn⟩) hreal hm (demand_encrypt w width) hanswer
  refine ⟨hresult, ?_⟩
  rw [hcontext]
  exact hcontent.get?_register_self hfree

end Forms

/-! ## The main statement -/

/-- **A plain operand may as well be encrypted first.**  Let a ciphertext be visible in a session
that executes for real on a content-addressed registry, and let a word be encrypted to the width of
the ciphertext.  Then adding the word to the ciphertext, or taking it away, with the flag 1, has the
same price and the same result as doing so with the handle that the encryption has returned and any
other flag: the same handle, or the same error of the engine.  It makes no difference which calls
are run before the one, or between the encryption and the other.

The digest of the encrypted word is taken to be different from those of other ciphertexts in the
registry. -/
theorem scalar_form_agrees (standIn : Nat → Word) (s : Session) (op : BinaryOp) (h : Handle)
    (x : Ciphertext) (w : Word) (flag : UInt8) (hreal : s.context.mode ≠ .estimating)
    (hcontent : s.context.vault.registry.ContentAddressed)
    (hx : s.context.verified? h = some x) (hop : op = .add ∨ op = .sub) (hflag : flag ≠ 1)
    (hfree : CollisionFree
      (Clear.encode (Bytes.low64 w.bytes) x.width :: s.context.vault.registry.ciphertexts)) :
    ∃ h' : Handle,
      (run ⟨Clear.engine, standIn⟩ (widthCall Method.encrypt.signature w x.width) s).1 =
          .ok h'.bytes ∧
      ∀ before between : List Bytes,
        FormsAgree ⟨Clear.engine, standIn⟩ (s.after ⟨Clear.engine, standIn⟩ (before.map .run))
          (s.after ⟨Clear.engine, standIn⟩
            ((widthCall Method.encrypt.signature w x.width :: between).map .run))
          (flaggedCall op h w 1) (flaggedCall op h h'.word flag) := by
  obtain ⟨hresult, hvisible⟩ := run_encrypt standIn hreal hcontent w x.width hfree
  generalize widthCall Method.encrypt.signature w x.width = call at hresult hvisible ⊢
  refine ⟨_, hresult, fun before between => ?_⟩
  have hsettings (inputs : List Bytes) :
      (s.after ⟨Clear.engine, standIn⟩ (inputs.map .run)).context.settings = s.context.settings :=
    Session.settings_after_runs inputs
  have hmode : (s.after ⟨Clear.engine, standIn⟩ (before.map .run)).context.mode =
      s.context.mode := (congrArg Context.mode (hsettings before) :)
  refine forms_agree hop hflag (hmode ▸ hreal) ((hsettings _).trans (hsettings before).symm)
    (Session.verified?_after_runs before hx) (Session.verified?_after_runs (call :: between) hx) ?_
  rw [List.map_cons, Session.after_cons]
  exact Session.verified?_after_runs between hvisible

/-- A ciphertext of 2 whose payload is not the one the engine writes: it has a bit too high to be
read, and a byte too much. -/
def crookedTwo : Ciphertext := ⟨.euint8, [2, 0, 0, 0, 0, 0, 0, 1, 9]⟩

/-- Its digest is not that of a 3. -/
lemma collisionFree_crookedTwo : CollisionFree [Clear.encode 3 .euint8, crookedTwo] :=
  .pair (by decide +kernel)

/-- From 2 the number 3 is taken away in both ways, with 255 as the result. -/
theorem difference_in_both_forms :
    ∃ h' : Handle,
      (run ⟨Clear.engine, fun _ => .zero⟩ (widthCall Method.encrypt.signature (.ofNat 3) .euint8)
          (lendingSession crookedTwo)).1 = .ok h'.bytes ∧
      (run ⟨Clear.engine, fun _ => .zero⟩ (flaggedCall .sub crookedTwo.handle h'.word 0)
          ((lendingSession crookedTwo).after ⟨Clear.engine, fun _ => .zero⟩
            [.run (widthCall Method.encrypt.signature (.ofNat 3) .euint8)])).1 =
        .ok (Clear.encode 255 .euint8).handle.bytes := by
  have hthree : Bytes.low64 (Word.ofNat 3).bytes = 3 := by decide
  have hanswer : Clear.produce (.subScalar crookedTwo 3) = .ok (Clear.encode 255 .euint8) := by
    decide
  have hwidth : crookedTwo.width = .euint8 := rfl
  have hfree : CollisionFree [Clear.encode 3 .euint8, crookedTwo] := collisionFree_crookedTwo
  generalize crookedTwo = x at hanswer hwidth hfree ⊢
  generalize Clear.encode 255 .euint8 = c at hanswer ⊢
  have hreal : (lendingSession x).context.mode ≠ .estimating := nofun
  have hvisible : (lendingSession x).context.verified? x.handle = some x :=
    Registry.contentAddressed_empty.get?_register_self (.singleton x)
  have hcontent : (lendingSession x).context.vault.registry.ContentAddressed :=
    Registry.contentAddressed_empty.register
  have hknown : (lendingSession x).context.vault.registry.ciphertexts ⊆ [x] :=
    Registry.ciphertexts_register_subset
  have hfree' : CollisionFree (Clear.encode (Bytes.low64 (Word.ofNat 3).bytes) x.width ::
      (lendingSession x).context.vault.registry.ciphertexts) := by
    rw [hthree, hwidth]
    exact hfree.mono (List.cons_subset_cons _ hknown)
  obtain ⟨h', hencrypted, hforms⟩ := scalar_form_agrees (fun _ => .zero) (lendingSession x) .sub
    x.handle x (.ofNat 3) 0 hreal hcontent hvisible (.inr rfl) (by decide) hfree'
  have hdemand : (lendingSession x).context.demand
      (BinaryOp.sub.method.payload (flaggedCall .sub x.handle (.ofNat 3) 1)) BinaryOp.sub.method =
        .ok (.produce (.subScalar x (Bytes.low64 (Word.ofNat 3).bytes))) :=
    demand_flaggedCall_one hvisible rfl rfl
  rw [hthree] at hdemand
  have hplain : (run ⟨Clear.engine, fun _ => .zero⟩ (flaggedCall .sub x.handle (.ofNat 3) 1)
      (lendingSession x)).1 = .ok c.handle.bytes :=
    (run_of_answer hreal (dispatch_encodeCall .sub _) hdemand hanswer).1
  rw [hwidth] at hencrypted hforms
  refine ⟨h', hencrypted, ?_⟩
  rcases (hforms [] []).result with ⟨result, hresult, hresult'⟩ | ⟨cause, hcause, -⟩
  · rw [List.map_nil, Session.after, List.foldl_nil, hplain] at hresult
    rw [hresult]
    exact hresult'
  · rw [List.map_nil, Session.after, List.foldl_nil, hplain] at hcause
    cases hcause

end CipherCalls
