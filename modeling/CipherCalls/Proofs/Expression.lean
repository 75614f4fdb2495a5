/-
# Programs compute with integers

An expression over known ciphertexts and plain constants is evaluated by one call for every inner
node, each of which is given the handles that the calls below it returned.  With the clear engine
all these calls succeed, and the last one returns the handle of the ciphertext that hides the
integer value of the expression, reduced modulo `2 ^ bits` at every node.

The calls can only go wrong if two different ciphertexts share a digest.  This is excluded for the
ciphertexts that are in play: those of the registry and the results of the nodes.
-/
import Mathlib
import CipherCalls.Proofs.ClearArithmetic
import CipherCalls.Proofs.History
import CipherCalls.Proofs.Resolution
import CipherCalls.Proofs.Reveal

namespace CipherCalls

/-! ## Expressions -/

/-- An expression over ciphertexts. -/
inductive Expr where
  /-- A ciphertext that is known by its handle. -/
  | known (c : Ciphertext)
  /-- The encryption of a plain number. -/
  | encrypt (w : Word) (width : Width)
  | combine (op : BinaryOp) (x y : Expr)
  /-- An operation whose right operand is a plain number. -/
  | combineScalar (op : BinaryOp) (x : Expr) (w : Word)
  | cast (x : Expr) (width : Width)

namespace Expr

/-- The width of an expression. -/
def width : Expr → Width
  | known c => c.width
  | encrypt _ width => width
  | combine _ x _ => x.width
  | combineScalar _ x _ => x.width
  | cast _ width => width

/-- The integer value of an expression.  Plain numbers are read modulo `2 ^ 64` first. -/
def value : Expr → Nat
  | known c => Clear.plaintext c
  | encrypt w width => w.toNat % 2 ^ 64 % 2 ^ width.bits
  | combine op x y => op.residue x.width.bits x.value y.value
  | combineScalar op x w => op.residue x.width.bits x.value (w.toNat % 2 ^ 64)
  | cast x width => x.value % 2 ^ width.bits

/-- The ciphertext an expression stands for. -/
def result : Expr → Ciphertext
  | known c => c
  | e => Clear.encodeNat e.value e.width

/-- The results of all inner nodes. -/
def results : Expr → List Ciphertext
  | known _ => []
  | e@(encrypt _ _) => [e.result]
  | e@(combine _ x y) => x.results ++ y.results ++ [e.result]
  | e@(combineScalar _ x _) => x.results ++ [e.result]
  | e@(cast x _) => x.results ++ [e.result]

/-- Known ciphertexts are visible and have eight bytes to be read, operands have the same width,
and plain operands are only used where they are supported. -/
def WellTyped (c : Context) : Expr → Prop
  | known ct => c.verified? ct.handle = some ct ∧ 8 ≤ ct.payload.length
  | encrypt _ _ => True
  | combine _ x y => x.WellTyped c ∧ y.WellTyped c ∧ x.width = y.width
  | combineScalar op x _ => x.WellTyped c ∧ op.supportsScalar
  | cast x _ => x.WellTyped c

end Expr

/-! ## Evaluation by calls -/

/-- A call that returns a handle. -/
def issue (b : Backend) (input : Bytes) (s : Session) : Option Handle × Session :=
  match run b input s with
  | (.ok output, s) => (Handle.ofBytes? output, s)
  | (.error _, s) => (none, s)

/-- The calls of an expression, operands first.  Nothing is called any more once a call failed. -/
def Expr.execute (b : Backend) : Expr → Session → Option Handle × Session
  | known c, s => (some c.handle, s)
  | encrypt w width, s => issue b (widthCall Method.encrypt.signature w width) s
  | combine op x y, s =>
    match x.execute b s with
    | (none, s) => (none, s)
    | (some lhs, s) =>
      match y.execute b s with
      | (none, s) => (none, s)
      | (some rhs, s) => issue b (binaryCall op.method.signature lhs rhs.word false) s
  | combineScalar op x w, s =>
    match x.execute b s with
    | (none, s) => (none, s)
    | (some lhs, s) => issue b (binaryCall op.method.signature lhs w true) s
  | cast x width, s =>
    match x.execute b s with
    | (none, s) => (none, s)
    | (some source, s) => issue b (widthCall Method.cast.signature source.word width) s

/-! ## What the calls demand -/

section Calls

variable {c : Context} {x y : Ciphertext} {lhs rhs : Handle}

/-- A call with two operands behind which any flag may stand. -/
def flaggedCall (op : BinaryOp) (lhs : Handle) (rhs : Word) (flag : UInt8) : Bytes :=
  encodeCall op.method.signature [lhs.bytes, rhs.bytes, [flag]]

lemma payload_flaggedCall (op : BinaryOp) (lhs : Handle) (rhs : Word) (flag : UInt8) :
    op.method.payload (flaggedCall op lhs rhs flag) = lhs.bytes ++ (rhs.bytes ++ [flag]) := by
  have hlen : op.method.payloadLength = 65 := by cases op <;> rfl
  rw [flaggedCall, payload_encodeCall, hlen]
  refine List.take_of_length_le ?_
  simp [rhs.length_bytes]

lemma payload_widthCall {m : Method} (hm : m.payloadLength = 33) (w : Word) (width : Width) :
    m.payload (widthCall m.signature w width) = w.bytes ++ [width.toByte] := by
  rw [widthCall, payload_encodeCall, hm]
  refine List.take_of_length_le ?_
  simp [w.length_bytes]

lemma getD_flag (lhs : Handle) (rhs : Word) (flag : UInt8) :
    (lhs.bytes ++ (rhs.bytes ++ [flag])).getD 64 0 = flag := by
  rw [← List.append_assoc]
  exact getD_append_singleton (by simp [rhs.length_bytes])

/-- The flag 1 makes the right operand a plain number. -/
lemma demand_flaggedCall_one {op : BinaryOp} {w : Word} {request : Engine.Request}
    (hx : c.verified? lhs = some x) (hscalar : op.supportsScalar)
    (hrequest : op.request (.scalar x (Bytes.low64 w.bytes)) = .ok request) :
    c.demand (op.method.payload (flaggedCall op lhs w 1)) op.method = .ok (.produce request) := by
  refine Context.demand_of_resolveBinary (Context.resolveBinary_eq_scalar_iff.mpr ?_) hrequest
  have hlhs : lhs.bytes.length = 32 := lhs.length_bytes
  rw [payload_flaggedCall, getD_flag, firstSlot_append hlhs, secondSlot_append hlhs w.length_bytes,
    Handle.ofTail_bytes]
  refine ⟨?_, rfl, hscalar, hx, rfl⟩
  simp [w.length_bytes]

/-- With any other flag it is a handle. -/
lemma demand_flaggedCall {op : BinaryOp} {flag : UInt8} {request : Engine.Request}
    (hflag : flag ≠ 1) (hx : c.verified? lhs = some x) (hy : c.verified? rhs = some y)
    (hw : x.width = y.width) (hrequest : op.request (.encrypted x y) = .ok request) :
    c.demand (op.method.payload (flaggedCall op lhs rhs.word flag)) op.method =
      .ok (.produce request) := by
  refine Context.demand_of_resolveBinary (Context.resolveBinary_eq_encrypted_iff.mpr ?_) hrequest
  have hlhs : lhs.bytes.length = 32 := lhs.length_bytes
  rw [payload_flaggedCall, getD_flag, firstSlot_append hlhs,
    secondSlot_append hlhs rhs.word.length_bytes, Handle.ofTail_bytes, Handle.ofTail_word]
  refine ⟨?_, hflag, hx, hy, hw⟩
  simp [rhs.word.length_bytes]

lemma demand_combine {op : BinaryOp} {request : Engine.Request}
    (hx : c.verified? lhs = some x) (hy : c.verified? rhs = some y) (hw : x.width = y.width)
    (hrequest : op.request (.encrypted x y) = .ok request) :
    c.demand (op.method.payload (binaryCall op.method.signature lhs rhs.word false)) op.method =
      .ok (.produce request) :=
  demand_flaggedCall (by decide) hx hy hw hrequest

lemma demand_combineScalar {op : BinaryOp} {w : Word} {request : Engine.Request}
    (hx : c.verified? lhs = some x) (hscalar : op.supportsScalar)
    (hrequest : op.request (.scalar x (Bytes.low64 w.bytes)) = .ok request) :
    c.demand (op.method.payload (binaryCall op.method.signature lhs w true)) op.method =
      .ok (.produce request) :=
  demand_flaggedCall_one hx hscalar hrequest

lemma demand_cast {width : Width} (hx : c.verified? lhs = some x) :
    c.demand (Method.cast.payload (widthCall Method.cast.signature lhs.word width)) .cast =
      .ok (.produce (.cast x width)) := by
  have hresolved : c.resolveCast
      (Method.cast.payload (widthCall Method.cast.signature lhs.word width)) = .ok (x, width) := by
    have hlhs : lhs.word.bytes.length = 32 := lhs.word.length_bytes
    rw [Context.resolveCast_eq_ok_iff, payload_widthCall rfl, firstSlot_append hlhs,
      getD_append_singleton hlhs, Handle.ofTail_word]
    exact ⟨by simp [hlhs], hx, Width.ofByte?_toByte width⟩
  rw [Context.demand, hresolved]
  rfl

lemma demand_encrypt (w : Word) (width : Width) :
    c.demand (Method.encrypt.payload (widthCall Method.encrypt.signature w width)) .encrypt =
      .ok (.produce (.encrypt (Bytes.low64 w.bytes) width)) := by
  rw [payload_widthCall rfl, Context.demand_encrypt_append]

end Calls

/-! ## What a successful call leaves behind -/

/-- A session that executes for real, and whose registry is content addressed and holds no other
ciphertexts than those of a list. -/
structure Session.Within (known : List Ciphertext) (s : Session) : Prop where
  real : s.context.mode ≠ .estimating
  contentAddressed : s.context.vault.registry.ContentAddressed
  ciphertexts : s.context.vault.registry.ciphertexts ⊆ known

/-- One more ciphertext of the list may be registered. -/
lemma Session.Within.register {known : List Ciphertext} {s s' : Session} {c : Ciphertext}
    (hs : s.Within known) (hc : c ∈ known) (hcontext : s'.context = s.context.register c) :
    s'.Within known where
  real := by
    rw [hcontext]
    exact hs.real
  contentAddressed := by
    rw [hcontext]
    exact hs.contentAddressed.register
  ciphertexts := by
    rw [hcontext]
    refine List.Subset.trans Registry.ciphertexts_register_subset ?_
    exact List.cons_subset.mpr ⟨hc, hs.ciphertexts⟩

/-- What was visible stays visible, and the requirements are the same. -/
structure Session.Grows (s s' : Session) : Prop where
  requires : s'.context.vault.requires = s.context.vault.requires
  verified : ∀ h c, s.context.verified? h = some c → s'.context.verified? h = some c

lemma Session.Grows.refl (s : Session) : s.Grows s := ⟨rfl, fun _ _ h => h⟩

lemma Session.Grows.trans {s s' s'' : Session} (h : s.Grows s') (h' : s'.Grows s'') : s.Grows s'' :=
  ⟨h'.requires.trans h.requires, fun x c hc => h'.verified x c (h.verified x c hc)⟩

/-- An evaluation from a session has returned the handle of a ciphertext, which is visible now. -/
structure Session.Computes (known : List Ciphertext) (s : Session) (c : Ciphertext)
    (o : Option Handle × Session) : Prop where
  returned : o.1 = some c.handle
  within : o.2.Within known
  grows : s.Grows o.2
  visible : o.2.context.verified? c.handle = some c

/-- An evaluation may be preceded by others. -/
lemma Session.Computes.after {known : List Ciphertext} {s s' : Session} {c : Ciphertext}
    {o : Option Handle × Session} (h : s.Grows s') (hc : s'.Computes known c o) :
    s.Computes known c o :=
  { hc with grows := h.trans hc.grows }

/-- An evaluation that goes on with the handle of another one.  What is done with the handle may use
that everything computed so far is visible. -/
lemma Session.Computes.bind {known : List Ciphertext} {s : Session} {c c' : Ciphertext}
    {o : Option Handle × Session} {next : Handle → Session → Option Handle × Session}
    (hnext : ∀ s', s.Grows s' → s'.Within known → s'.context.verified? c.handle = some c →
      s'.Computes known c' (next c.handle s')) :
    s.Computes known c o →
      s.Computes known c'
        (match o with
        | (none, s) => (none, s)
        | (some x, s) => next x s) := by
  intro h
  obtain ⟨x, s'⟩ := o
  obtain rfl : x = some c.handle := h.returned
  exact (hnext s' h.grows h.within h.visible).after h.grows

section Issue

variable {known : List Ciphertext} {standIn : Nat → Word} {s : Session} {input : Bytes} {m : Method}
  {request : Engine.Request} {c : Ciphertext}

/-- A call that demands a ciphertext computes it, unless its digest is taken already. -/
lemma computes_issue (hfree : CollisionFree known) (hs : s.Within known)
    (hm : dispatch input = .ok m)
    (hd : s.context.demand (m.payload input) m = .ok (.produce request))
    (hc : Clear.produce request = .ok c) (hmem : c ∈ known) :
    s.Computes known c (issue ⟨Clear.engine, standIn⟩ input s) := by
  have hanswer : (obtain ⟨Clear.engine, standIn⟩ request s).1 = .ok c := by
    rw [obtain_of_real _ _ _ hs.real]
    exact hc
  obtain ⟨hresult, hcontext⟩ := meet_produce_of_ok (m := m) hanswer
  have hsubset : c :: s.context.vault.registry.ciphertexts ⊆ known :=
    List.cons_subset.mpr ⟨hmem, hs.ciphertexts⟩
  rw [issue, run_of_demand hm hd]
  generalize meet _ m (m.payload input) _ s = o at hresult hcontext ⊢
  obtain ⟨result, s'⟩ := o
  obtain rfl : result = .ok c.handle.bytes := hresult
  -- All that happened to the context is the registration of the ciphertext.
  replace hcontext : s'.context = s.context.register c := hcontext
  exact
    { returned := Handle.ofBytes?_bytes c.handle
      within := hs.register hmem hcontext
      grows :=
        { requires := by rw [hcontext]; rfl
          verified := fun h x hx => by
            rw [hcontext]
            exact Registry.get?_register_of_some hx }
      visible := by
        rw [hcontext]
        exact hs.contentAddressed.get?_register_self (hfree.mono hsubset) }

end Issue

/-! ## Evaluation -/

namespace Expr

lemma width_result (e : Expr) : e.result.width = e.width := by
  cases e <;> rfl

lemma value_lt (e : Expr) : e.value < 2 ^ e.width.bits := by
  have hpos (w : Width) : 0 < 2 ^ w.bits := Nat.two_pow_pos w.bits
  cases e with
  | known c => exact Nat.mod_lt _ (hpos c.width)
  | encrypt w width => exact Nat.mod_lt _ (hpos width)
  | combine op x y => exact op.residue_lt _ _ _
  | combineScalar op x w => exact op.residue_lt _ _ _
  | cast x width => exact Nat.mod_lt _ (hpos width)

/-- The ciphertext an expression stands for hides its value. -/
lemma hides_result {c : Context} {e : Expr} (h : e.WellTyped c) : Clear.Hides e.result e.value := by
  cases e with
  | known ct => exact Clear.hides_plaintext h.2
  | encrypt | combine | combineScalar | cast => exact Clear.hides_encodeNat (value_lt _)

lemma WellTyped.of_grows {s s' : Session} (h : s.Grows s') :
    ∀ {e : Expr}, e.WellTyped s.context → e.WellTyped s'.context
  | known _, he => ⟨h.verified _ _ he.1, he.2⟩
  | encrypt _ _, _ => trivial
  | combine _ _ _, he => ⟨he.1.of_grows h, he.2.1.of_grows h, he.2.2⟩
  | combineScalar _ _ _, he => ⟨WellTyped.of_grows h he.1, he.2⟩
  | cast x _, he => WellTyped.of_grows (e := x) h he

variable {known : List Ciphertext} {standIn : Nat → Word}

/-- Every well-typed expression is computed by its calls. -/
lemma computes_execute (hfree : CollisionFree known) (e : Expr) (s : Session)
    (hs : s.Within known) (he : e.WellTyped s.context) (hresults : e.results ⊆ known) :
    s.Computes known e.result (e.execute ⟨Clear.engine, standIn⟩ s) := by
  induction e generalizing s with
  | known c => exact ⟨rfl, hs, .refl s, he.1⟩
  | encrypt w width =>
      refine computes_issue hfree hs (dispatch_encodeCall .encrypt _) (demand_encrypt w width) ?_
        (hresults List.mem_cons_self)
      rw [Clear.produce_encrypt, Bytes.toNat_low64]
      rfl
  | combine op x y ihx ihy =>
      obtain ⟨hx, hy, hw⟩ := he
      obtain ⟨hxy, hresult⟩ := List.append_subset.mp hresults
      obtain ⟨hxs, hys⟩ := List.append_subset.mp hxy
      rw [execute]
      refine .bind (fun s₁ hgrows₁ hs₁ hleft => ?_) (ihx s hs hx hxs)
      have hy₁ : y.WellTyped s₁.context := hy.of_grows hgrows₁
      refine .bind (fun s₂ hgrows₂ hs₂ hright => ?_) (ihy s₁ hs₁ hy₁ hys)
      -- While the right operand was computed, the left one has remained visible.
      have hvisible : s₂.context.verified? x.result.handle = some x.result :=
        hgrows₂.verified _ _ hleft
      have hwidth : x.result.width = y.result.width := by rw [width_result, width_result, hw]
      obtain ⟨request, hrequest⟩ :
          ∃ request, op.request (.encrypted x.result y.result) = .ok request := by
        cases op <;> exact ⟨_, rfl⟩
      have hanswer := Clear.produce_encrypted op hrequest hwidth (hides_result hx) (hides_result hy)
      rw [width_result] at hanswer
      exact computes_issue hfree hs₂ (dispatch_encodeCall op.method _)
        (demand_combine hvisible hright hwidth hrequest) hanswer (hresult List.mem_cons_self)
  | combineScalar op x w ih =>
      obtain ⟨hx, hscalar⟩ := he
      obtain ⟨hxs, hresult⟩ := List.append_subset.mp hresults
      rw [execute]
      refine .bind (fun s₁ _ hs₁ hleft => ?_) (ih s hs hx hxs)
      obtain ⟨request, hrequest⟩ :
          ∃ request, op.request (.scalar x.result (Bytes.low64 w.bytes)) = .ok request := by
        cases op with
        | add | sub => exact ⟨_, rfl⟩
        | bitAnd => cases hscalar
      -- The engine is given the last 64 bits of the word.
      have hanswer := Clear.produce_scalar op hrequest (hides_result hx)
      rw [width_result, Bytes.toNat_low64] at hanswer
      exact computes_issue hfree hs₁ (dispatch_encodeCall op.method _)
        (demand_combineScalar hleft hscalar hrequest) hanswer (hresult List.mem_cons_self)
  | cast x width ih =>
      obtain ⟨hxs, hresult⟩ := List.append_subset.mp hresults
      rw [execute]
      refine .bind (fun s₁ _ hs₁ hsource => ?_) (ih s hs he hxs)
      exact computes_issue hfree hs₁ (dispatch_encodeCall .cast _) (demand_cast hsource)
        (Clear.produce_cast width (hides_result he)) (hresult List.mem_cons_self)

end Expr

/-! ## The main statement -/

/-- The call that asks for the plaintext of a handle. -/
def decryptCall (h : Handle) : Bytes := encodeCall Method.decrypt.signature [h.bytes]

/-- A visible ciphertext is decrypted if nothing is required. -/
lemma run_decryptCall {standIn : Nat → Word} {s : Session} {c : Ciphertext} {n : Nat}
    (hreal : s.context.mode ≠ .estimating) (hc : s.context.verified? c.handle = some c)
    (hn : Clear.Hides c n) (hrequires : s.context.vault.requires = .empty) :
    (run ⟨Clear.engine, standIn⟩ (decryptCall c.handle) s).1 = .ok (Word.ofNat n).bytes := by
  have hpayload : Method.decrypt.payload (decryptCall c.handle) = c.handle.bytes :=
    payload_encodeCall_handle rfl c.handle
  have hreveals : s.Reveals (decryptCall c.handle) c :=
    { real := hreal
      dispatched := dispatch_encodeCall .decrypt _
      length_payload := by rw [hpayload, Handle.length_bytes]
      verified := by rw [hpayload, Handle.ofTail_bytes, hc] }
  have hverdict : s.verdict ⟨Clear.engine, standIn⟩ = (.ok true, s.journal) := by
    rw [Session.verdict, hrequires]
    rfl
  obtain ⟨u, hu, rfl⟩ := hn
  have hanswer : Clear.engine.decrypt s.journal.calls c = .ok u := hu
  rw [hreveals.run_eq, reported_fst, reveal_of_granted hreal (congrArg Prod.fst hverdict),
    hverdict]
  simp only [hanswer, Word.ofUInt64_eq_ofNat]

/-- **Programs compute with integers modulo `2 ^ bits`.**  In every session that executes for real
on a content-addressed registry, all calls of a well-typed expression succeed, and the last one
returns the handle of the ciphertext that stands for the expression: for every expression but a
known ciphertext, the encoding of its integer value.  If nothing is required, a decryption of this
handle then returns the value as a word.

The ciphertexts of the registry and the results of the nodes are taken to have different digests,
unless they are equal. -/
theorem expressions_compute (standIn : Nat → Word) (s : Session) (e : Expr)
    (hreal : s.context.mode ≠ .estimating)
    (hcontent : s.context.vault.registry.ContentAddressed)
    (htyped : e.WellTyped s.context)
    (hfree : CollisionFree (s.context.vault.registry.ciphertexts ++ e.results)) :
    (e.execute ⟨Clear.engine, standIn⟩ s).1 = some e.result.handle ∧
      ((∀ c, e ≠ .known c) → e.result = Clear.encode (UInt64.ofNat e.value) e.width) ∧
      (s.context.vault.requires = .empty →
        (run ⟨Clear.engine, standIn⟩ (decryptCall e.result.handle)
          (e.execute ⟨Clear.engine, standIn⟩ s).2).1 = .ok (Word.ofNat e.value).bytes) := by
  have hwithin : s.Within (s.context.vault.registry.ciphertexts ++ e.results) :=
    ⟨hreal, hcontent, List.subset_append_left _ _⟩
  have hcomputes : s.Computes _ e.result (e.execute ⟨Clear.engine, standIn⟩ s) :=
    e.computes_execute hfree s hwithin htyped (List.subset_append_right _ _)
  refine ⟨hcomputes.returned, fun hinner => ?_, fun hrequires => ?_⟩
  · cases e with
    | known c => exact absurd rfl (hinner c)
    | encrypt | combine | combineScalar | cast => rfl
  · exact run_decryptCall hcomputes.within.real hcomputes.visible (Expr.hides_result htyped)
      (hcomputes.grows.requires.trans hrequires)

/-- The encryption of 3 with 8 bits, from which 5 is taken away. -/
def borrowing : Expr := .combineScalar .sub (.encrypt (.ofNat 3) .euint8) (.ofNat 5)

lemma result_borrowing : borrowing.result = Clear.encode 254 .euint8 := by decide

lemma results_borrowing :
    borrowing.results = [Clear.encode 3 .euint8, Clear.encode 254 .euint8] := by decide

/-- The digests of the two results are different. -/
lemma collisionFree_borrowing : CollisionFree borrowing.results := by
  rw [results_borrowing]
  exact .pair (by decide +kernel)

/-- The result is 254. -/
theorem borrowing_computed :
    (borrowing.execute ⟨Clear.engine, fun _ => .zero⟩ (.fresh { mode := .staticCall })).1 =
        some (Clear.encode 254 .euint8).handle ∧
      (run ⟨Clear.engine, fun _ => .zero⟩ (decryptCall (Clear.encode 254 .euint8).handle)
        (borrowing.execute ⟨Clear.engine, fun _ => .zero⟩ (.fresh { mode := .staticCall })).2).1 =
          .ok (Word.ofNat 254).bytes := by
  have hvalue : borrowing.value = 254 := by decide
  have h := expressions_compute (fun _ => .zero) (.fresh { mode := .staticCall }) borrowing
    (by decide) Registry.contentAddressed_empty ⟨trivial, rfl⟩ collisionFree_borrowing
  rw [result_borrowing, hvalue] at h
  exact ⟨h.1, h.2.2 rfl⟩

end CipherCalls
