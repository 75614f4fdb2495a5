/-
# The format of two operands

A payload with two operands is made of two slots and a flag.  The first slot holds a handle; the
second one holds a number if the flag is 1, and a handle otherwise.  What such a payload has to
satisfy is put down here as a list of rules, each with the cause by which its violation is reported.
A payload resolves if it violates no rule, and otherwise the violation of the first rule in the list
is reported.

The rules are about the bytes of the payload and the handles that are visible, and do not mention
how a payload is resolved.
-/
import Mathlib
import CipherCalls.Engine.Clear
import CipherCalls.Proofs.Resolution
import CipherCalls.Proofs.Visibility

namespace CipherCalls

/-! ## Rules -/

/-- What a payload with two operands has to satisfy, in the order in which it is checked. -/
inductive OperandRule where
  /-- The payload has 65 bytes. -/
  | length
  /-- A number is allowed, if there is one. -/
  | form
  /-- The handle in the first slot is visible. -/
  | left
  /-- The handle in the second slot is visible, if there is one. -/
  | right
  /-- Two ciphertexts have one width. -/
  | widths

/-- The place of a rule in the order. -/
def OperandRule.rank : OperandRule → Nat
  | length => 0
  | form => 1
  | left => 2
  | right => 3
  | widths => 4

namespace Context

/-- A payload violates a rule, which is reported by a cause. -/
inductive Violates (c : Context) (op : BinaryOp) (payload : Bytes) :
    OperandRule → CallError → Prop
  | length (hlen : payload.length ≠ 65) :
      Violates c op payload .length (.invalidLength op.method payload.length 65)
  | form (hflag : payload[64]? = some 1) (hop : op = .bitAnd) :
      Violates c op payload .form (.scalarNotSupported op.method)
  | left {h : Handle} (hslot : h.bytes = firstSlot payload) (hhidden : c.verified? h = none) :
      Violates c op payload .left (.unverified op.method h)
  | right {h : Handle} (hflag : payload[64]? ≠ some 1) (hslot : h.bytes = secondSlot payload)
      (hhidden : c.verified? h = none) : Violates c op payload .right (.unverified op.method h)
  | widths {h h' : Handle} {lhs rhs : Ciphertext} (hflag : payload[64]? ≠ some 1)
      (hslot : h.bytes = firstSlot payload) (hslot' : h'.bytes = secondSlot payload)
      (hlhs : c.verified? h = some lhs) (hrhs : c.verified? h' = some rhs)
      (hwidth : lhs.width ≠ rhs.width) :
      Violates c op payload .widths (.widthMismatch op.method lhs.width rhs.width)

/-- Of the rules that a payload violates, the first one is reported by a cause. -/
def FirstViolation (c : Context) (op : BinaryOp) (payload : Bytes) (cause : CallError) : Prop :=
  ∃ rule, c.Violates op payload rule cause ∧
    ∀ rule' cause', c.Violates op payload rule' cause' → rule.rank ≤ rule'.rank

end Context

/-! ## Slots and flags -/

lemma OperandRule.rank_injective {rule rule' : OperandRule} (h : rule.rank = rule'.rank) :
    rule = rule' := by
  cases rule <;> cases rule' <;> first | rfl | cases h

/-- A handle is read from a slot that holds its bytes. -/
lemma Handle.ofTail_eq {h : Handle} {slot : Bytes} (hslot : h.bytes = slot) :
    Handle.ofTail slot = h := by
  rw [← hslot, Handle.ofTail_bytes]

lemma Handle.bytes_ofTail {slot : Bytes} (h : slot.length = 32) :
    (Handle.ofTail slot).bytes = slot := by
  simp [Handle.ofTail, Handle.bytes, Word.ofTail, h]

lemma getD_eq_one_iff {payload : Bytes} : payload.getD 64 0 = 1 ↔ payload[64]? = some 1 := by
  rw [List.getD_eq_getElem?_getD]
  cases payload[64]? <;> simp

section Slots

variable {c : Context} {payload : Bytes} {ct : Ciphertext} (hlen : payload.length = 65)
include hlen

lemma bytes_firstSlot : (Handle.ofTail (firstSlot payload)).bytes = firstSlot payload :=
  Handle.bytes_ofTail (by simp [firstSlot, hlen])

lemma bytes_secondSlot : (Handle.ofTail (secondSlot payload)).bytes = secondSlot payload :=
  Handle.bytes_ofTail (by simp [secondSlot, hlen])

lemma verified?_firstSlot_iff :
    c.verified? (.ofTail (firstSlot payload)) = some ct ↔
      ∃ h : Handle, h.bytes = firstSlot payload ∧ c.verified? h = some ct := by
  refine ⟨fun hct => ⟨_, bytes_firstSlot hlen, hct⟩, ?_⟩
  rintro ⟨h, hslot, hct⟩
  rwa [Handle.ofTail_eq hslot]

lemma verified?_secondSlot_iff :
    c.verified? (.ofTail (secondSlot payload)) = some ct ↔
      ∃ h : Handle, h.bytes = secondSlot payload ∧ c.verified? h = some ct := by
  refine ⟨fun hct => ⟨_, bytes_secondSlot hlen, hct⟩, ?_⟩
  rintro ⟨h, hslot, hct⟩
  rwa [Handle.ofTail_eq hslot]

end Slots

namespace Context

variable {c c' : Context} {op : BinaryOp} {payload : Bytes} {cause cause' : CallError}

/-! ## Violations -/

/-- A rule is reported by one cause only. -/
lemma Violates.unique {rule : OperandRule} (h : c.Violates op payload rule cause)
    (h' : c.Violates op payload rule cause') : cause = cause' := by
  cases h with
  | length hlen =>
      cases h'
      rfl
  | form hflag hop =>
      cases h'
      rfl
  | left hslot hhidden =>
      cases h' with
      | left hslot' hhidden' => rw [← Handle.ofTail_eq hslot, ← Handle.ofTail_eq hslot']
  | right hflag hslot hhidden =>
      cases h' with
      | right hflag' hslot' hhidden' => rw [← Handle.ofTail_eq hslot, ← Handle.ofTail_eq hslot']
  | widths hflag hleft hright hlhs hrhs hwidth =>
      cases h' with
      | widths hflag' hleft' hright' hlhs' hrhs' hwidth' =>
          rw [← Handle.ofTail_eq hleft, Handle.ofTail_eq hleft', hlhs'] at hlhs
          rw [← Handle.ofTail_eq hright, Handle.ofTail_eq hright', hrhs'] at hrhs
          cases hlhs
          cases hrhs
          rfl

lemma FirstViolation.unique (h : c.FirstViolation op payload cause)
    (h' : c.FirstViolation op payload cause') : cause = cause' := by
  obtain ⟨rule, hrule, hfirst⟩ := h
  obtain ⟨rule', hrule', hfirst'⟩ := h'
  obtain rfl : rule = rule' :=
    OperandRule.rank_injective ((hfirst _ _ hrule').antisymm (hfirst' _ _ hrule))
  exact hrule.unique hrule'

lemma firstViolation_of_violates {rule : OperandRule} (h : c.Violates op payload rule cause)
    (hbefore : ∀ rule' cause', rule'.rank < rule.rank → ¬c.Violates op payload rule' cause') :
    c.FirstViolation op payload cause :=
  ⟨rule, h, fun rule' cause' h' => not_lt.mp fun hrank => hbefore rule' cause' hrank h'⟩

/-! ## Rules that are kept -/

lemma not_violates_length (hlen : payload.length = 65) : ¬c.Violates op payload .length cause := by
  intro hviolated
  cases hviolated with
  | length hlen' => exact hlen' hlen

lemma not_violates_form (h : payload[64]? = some 1 → op.supportsScalar = true) :
    ¬c.Violates op payload .form cause := by
  intro hviolated
  cases hviolated with
  | form hflag hop =>
      subst hop
      cases h hflag

lemma not_violates_left {lhs : Ciphertext}
    (hlhs : c.verified? (.ofTail (firstSlot payload)) = some lhs) :
    ¬c.Violates op payload .left cause := by
  intro hviolated
  cases hviolated with
  | left hslot hhidden =>
      rw [Handle.ofTail_eq hslot, hhidden] at hlhs
      cases hlhs

lemma not_violates_right (h : payload[64]? ≠ some 1 →
    ∃ rhs, c.verified? (.ofTail (secondSlot payload)) = some rhs) :
    ¬c.Violates op payload .right cause := by
  intro hviolated
  cases hviolated with
  | right hflag hslot hhidden =>
      obtain ⟨rhs, hrhs⟩ := h hflag
      rw [Handle.ofTail_eq hslot, hhidden] at hrhs
      cases hrhs

lemma not_violates_widths (h : payload[64]? ≠ some 1 → ∃ lhs rhs : Ciphertext,
    c.verified? (.ofTail (firstSlot payload)) = some lhs ∧
      c.verified? (.ofTail (secondSlot payload)) = some rhs ∧ lhs.width = rhs.width) :
    ¬c.Violates op payload .widths cause := by
  intro hviolated
  cases hviolated with
  | widths hflag hslot hslot' hlhs hrhs hwidth =>
      obtain ⟨lhs, rhs, hlhs', hrhs', hwidth'⟩ := h hflag
      rw [Handle.ofTail_eq hslot, hlhs] at hlhs'
      rw [Handle.ofTail_eq hslot', hrhs] at hrhs'
      cases hlhs'
      cases hrhs'
      exact hwidth hwidth'

/-- A payload that resolves violates no rule. -/
lemma not_violates_of_ok {o : Operands} (h : c.resolveBinary op payload = .ok o)
    (rule : OperandRule) (cause : CallError) : ¬c.Violates op payload rule cause := by
  cases o with
  | scalar lhs rhs =>
      obtain ⟨hlen, hflag, hscalar, hlhs, -⟩ := resolveBinary_eq_scalar_iff.mp h
      rw [getD_eq_one_iff] at hflag
      cases rule with
      | length => exact not_violates_length hlen
      | form => exact not_violates_form fun _ => hscalar
      | left => exact not_violates_left hlhs
      | right => exact not_violates_right fun hflag' => absurd hflag hflag'
      | widths => exact not_violates_widths fun hflag' => absurd hflag hflag'
  | encrypted lhs rhs =>
      obtain ⟨hlen, hflag, hlhs, hrhs, hwidth⟩ := resolveBinary_eq_encrypted_iff.mp h
      rw [Ne, getD_eq_one_iff] at hflag
      cases rule with
      | length => exact not_violates_length hlen
      | form => exact not_violates_form fun hflag' => absurd hflag' hflag
      | left => exact not_violates_left hlhs
      | right => exact not_violates_right fun _ => ⟨rhs, hrhs⟩
      | widths => exact not_violates_widths fun _ => ⟨lhs, rhs, hlhs, hrhs, hwidth⟩

/-! ## What is reported -/

lemma resolveHandle_of_hidden {m : Method} {bytes : Bytes}
    (h : c.verified? (.ofTail bytes) = none) :
    c.resolveHandle m bytes = .error (.unverified m (.ofTail bytes)) := by
  rw [resolveHandle, h]

/-- With a number in the second slot, the form or the first slot can be wrong. -/
lemma firstViolation_of_scalar (hlen : payload.length = 65) (hflag : payload[64]? = some 1)
    (h : c.resolveBinary op payload = .error cause) : c.FirstViolation op payload cause := by
  rw [resolveBinary_of_scalar hlen (getD_eq_one_iff.mpr hflag)] at h
  cases hscalar : op.supportsScalar with
  | false =>
      rw [hscalar] at h
      obtain rfl := Except.error.inj h
      have hop : op = .bitAnd := by
        cases op <;> first | rfl | cases hscalar
      refine firstViolation_of_violates (.form hflag hop) fun rule' cause' hrank => ?_
      cases rule' with
      | length => exact not_violates_length hlen
      | form | left | right | widths => exact absurd hrank (by decide)
  | true =>
      rw [hscalar, if_pos rfl] at h
      cases hlhs : c.verified? (.ofTail (firstSlot payload)) with
      | some lhs =>
          rw [resolveHandle_eq_ok_iff.mpr hlhs] at h
          cases h
      | none =>
          rw [resolveHandle_of_hidden hlhs] at h
          obtain rfl := Except.error.inj h
          refine firstViolation_of_violates (.left (bytes_firstSlot hlen) hlhs)
            fun rule' cause' hrank => ?_
          cases rule' with
          | length => exact not_violates_length hlen
          | form => exact not_violates_form fun _ => hscalar
          | left | right | widths => exact absurd hrank (by decide)

/-- The widths are compared last. -/
lemma firstViolation_widths {lhs rhs : Ciphertext} (hlen : payload.length = 65)
    (hflag : payload[64]? ≠ some 1) (hlhs : c.verified? (.ofTail (firstSlot payload)) = some lhs)
    (hrhs : c.verified? (.ofTail (secondSlot payload)) = some rhs)
    (hwidth : lhs.width ≠ rhs.width) :
    c.FirstViolation op payload (.widthMismatch op.method lhs.width rhs.width) := by
  refine firstViolation_of_violates (.widths hflag (bytes_firstSlot hlen) (bytes_secondSlot hlen)
    hlhs hrhs hwidth) fun rule' cause' hrank => ?_
  cases rule' with
  | length => exact not_violates_length hlen
  | form => exact not_violates_form fun hflag' => absurd hflag' hflag
  | left => exact not_violates_left hlhs
  | right => exact not_violates_right fun _ => ⟨rhs, hrhs⟩
  | widths => exact absurd hrank (by decide)

/-- With two handles, either slot can be wrong, or the widths. -/
lemma firstViolation_of_encrypted (hlen : payload.length = 65) (hflag : payload[64]? ≠ some 1)
    (h : c.resolveBinary op payload = .error cause) : c.FirstViolation op payload cause := by
  have hform (cause' : CallError) : ¬c.Violates op payload .form cause' :=
    not_violates_form fun hflag' => absurd hflag' hflag
  rw [resolveBinary_of_encrypted hlen (getD_eq_one_iff.not.mpr hflag)] at h
  cases hlhs : c.verified? (.ofTail (firstSlot payload)) with
  | none =>
      rw [resolveHandle_of_hidden hlhs] at h
      obtain rfl := Except.error.inj h
      refine firstViolation_of_violates (.left (bytes_firstSlot hlen) hlhs)
        fun rule' cause' hrank => ?_
      cases rule' with
      | length => exact not_violates_length hlen
      | form => exact hform cause'
      | left | right | widths => exact absurd hrank (by decide)
  | some lhs =>
      rw [resolveHandle_eq_ok_iff.mpr hlhs] at h
      cases hrhs : c.verified? (.ofTail (secondSlot payload)) with
      | none =>
          rw [resolveHandle_of_hidden hrhs] at h
          obtain rfl := Except.error.inj h
          refine firstViolation_of_violates (.right hflag (bytes_secondSlot hlen) hrhs)
            fun rule' cause' hrank => ?_
          cases rule' with
          | length => exact not_violates_length hlen
          | form => exact hform cause'
          | left => exact not_violates_left hlhs
          | right | widths => exact absurd hrank (by decide)
      | some rhs =>
          rw [resolveHandle_eq_ok_iff.mpr hrhs] at h
          by_cases hwidth : lhs.width = rhs.width
          · cases (if_pos hwidth).symm.trans h
          · obtain rfl := Except.error.inj ((if_neg hwidth).symm.trans h)
            exact firstViolation_widths hlen hflag hlhs hrhs hwidth

lemma firstViolation_of_error (h : c.resolveBinary op payload = .error cause) :
    c.FirstViolation op payload cause := by
  by_cases hlen : payload.length = 65
  · by_cases hflag : payload[64]? = some 1
    · exact firstViolation_of_scalar hlen hflag h
    · exact firstViolation_of_encrypted hlen hflag h
  · rw [resolveBinary_of_length hlen] at h
    obtain rfl := Except.error.inj h
    exact ⟨.length, .length hlen, fun _ _ _ => Nat.zero_le _⟩

/-- A payload does not resolve for a cause if and only if this is the first violation. -/
lemma resolveBinary_eq_error_iff :
    c.resolveBinary op payload = .error cause ↔ c.FirstViolation op payload cause := by
  refine ⟨firstViolation_of_error, fun hfirst => ?_⟩
  cases h : c.resolveBinary op payload with
  | ok o =>
      obtain ⟨rule, hrule, -⟩ := hfirst
      exact absurd hrule (not_violates_of_ok h rule cause)
  | error cause' => rw [(firstViolation_of_error h).unique hfirst]

/-- A number is never looked up. -/
lemma resolveBinary_congr_of_scalar (hflag : payload[64]? = some 1)
    (hleft : ∀ h : Handle, h.bytes = firstSlot payload → c'.verified? h = c.verified? h) :
    c'.resolveBinary op payload = c.resolveBinary op payload := by
  by_cases hlen : payload.length = 65
  · have hhandle : c'.resolveHandle op.method (firstSlot payload) =
        c.resolveHandle op.method (firstSlot payload) := by
      rw [resolveHandle, resolveHandle, hleft _ (bytes_firstSlot hlen)]
    rw [resolveBinary_of_scalar hlen (getD_eq_one_iff.mpr hflag),
      resolveBinary_of_scalar hlen (getD_eq_one_iff.mpr hflag), hhandle]
  · rw [resolveBinary_of_length hlen, resolveBinary_of_length hlen]

end Context

/-! ## The main statement -/

/-- **A payload with two operands resolves if and only if it has the right format**, and otherwise
the first violation is reported.

* It resolves to a ciphertext and a number if and only if it has 65 bytes, the flag is 1, the
  operation is not the conjunction, and the first slot holds the handle of the ciphertext, which is
  visible.  The number is that of the second slot, modulo `2 ^ 64`.
* It resolves to two ciphertexts if and only if it has 65 bytes, the flag is not 1, and the two
  slots hold the handles of the ciphertexts, which are visible and have one width.
* It fails for a cause if and only if, of the rules that are violated, the first one is reported by
  this cause.

If the flag is 1, then two contexts that show the same under the handle in the first slot make no
difference, whatever they show under the bytes of the second slot. -/
theorem resolves_by_format (c : Context) (op : BinaryOp) (payload : Bytes) :
    (∀ lhs rhs, c.resolveBinary op payload = .ok (.scalar lhs rhs) ↔
      payload.length = 65 ∧ payload[64]? = some 1 ∧ op ≠ .bitAnd ∧
        (∃ h : Handle, h.bytes = firstSlot payload ∧ c.verified? h = some lhs) ∧
        rhs.toNat = Bytes.toNatBE (secondSlot payload) % 2 ^ 64) ∧
    (∀ lhs rhs, c.resolveBinary op payload = .ok (.encrypted lhs rhs) ↔
      payload.length = 65 ∧ payload[64]? ≠ some 1 ∧
        (∃ h : Handle, h.bytes = firstSlot payload ∧ c.verified? h = some lhs) ∧
        (∃ h : Handle, h.bytes = secondSlot payload ∧ c.verified? h = some rhs) ∧
        lhs.width = rhs.width) ∧
    (∀ cause, c.resolveBinary op payload = .error cause ↔ c.FirstViolation op payload cause) ∧
    ∀ c' : Context, payload[64]? = some 1 →
      (∀ h : Handle, h.bytes = firstSlot payload → c'.verified? h = c.verified? h) →
      c'.resolveBinary op payload = c.resolveBinary op payload := by
  refine ⟨fun lhs rhs => ?scalar, fun lhs rhs => ?encrypted,
    fun cause => Context.resolveBinary_eq_error_iff,
    fun c' => Context.resolveBinary_congr_of_scalar⟩
  case scalar =>
    have hop : op.supportsScalar = true ↔ op ≠ .bitAnd := by cases op <;> decide
    rw [Context.resolveBinary_eq_scalar_iff, getD_eq_one_iff, hop, ← Bytes.toNat_low64,
      UInt64.toNat_inj, eq_comm (a := rhs)]
    refine and_congr_right fun hlen => ?_
    rw [verified?_firstSlot_iff hlen]
  case encrypted =>
    rw [Context.resolveBinary_eq_encrypted_iff, Ne, getD_eq_one_iff]
    refine and_congr_right fun hlen => ?_
    rw [verified?_firstSlot_iff hlen, verified?_secondSlot_iff hlen]

/-- A context in which some ciphertexts are visible. -/
def showingContext (cs : List Ciphertext) : Context :=
  cs.foldl Context.register { mode := .committing }

/-- The payload with the handles of two ciphertexts and a flag. -/
def handlesPayload (x y : Ciphertext) (flag : UInt8) : Bytes :=
  x.handle.bytes ++ (y.handle.bytes ++ [flag])

section Handles

variable {x y : Ciphertext}

lemma verified?_showingContext_singleton (x : Ciphertext) :
    (showingContext [x]).verified? x.handle = some x :=
  Registry.contentAddressed_empty.get?_register_self (.singleton x)

lemma verified?_showingContext_pair (h : x.handle ≠ y.handle) :
    (showingContext [x, y]).verified? x.handle = some x ∧
      (showingContext [x, y]).verified? y.handle = some y := by
  have hknown : (Registry.empty.register x 1).ciphertexts ⊆ [x] :=
    Registry.ciphertexts_register_subset
  refine ⟨Registry.get?_register_of_some (verified?_showingContext_singleton x), ?_⟩
  exact Registry.contentAddressed_empty.register.get?_register_self
    ((CollisionFree.pair h.symm).mono (List.cons_subset_cons _ hknown))

lemma handlesPayload_parts (x y : Ciphertext) (flag : UInt8) :
    (handlesPayload x y flag).length = 65 ∧ (handlesPayload x y flag)[64]? = some flag ∧
      firstSlot (handlesPayload x y flag) = x.handle.bytes ∧
      secondSlot (handlesPayload x y flag) = y.handle.bytes := by
  refine ⟨by simp [handlesPayload], by simp [handlesPayload], ?_, ?_⟩
  · exact firstSlot_append (Handle.length_bytes _)
  · exact secondSlot_append (Handle.length_bytes _) (Handle.length_bytes _)

end Handles

/-- With the flag 1 it makes no difference that the second slot holds the handle of a ciphertext of
another width.  With another flag this is what is wrong. -/
theorem narrower_handle_as_number :
    (showingContext [Clear.encode 2 .euint32, Clear.encode 1 .euint8]).resolveBinary .add
        (handlesPayload (Clear.encode 2 .euint32) (Clear.encode 1 .euint8) 1) =
      (showingContext [Clear.encode 2 .euint32]).resolveBinary .add
        (handlesPayload (Clear.encode 2 .euint32) (Clear.encode 1 .euint8) 1) ∧
    (∃ rhs, (showingContext [Clear.encode 2 .euint32]).resolveBinary .add
        (handlesPayload (Clear.encode 2 .euint32) (Clear.encode 1 .euint8) 1) =
      .ok (.scalar (Clear.encode 2 .euint32) rhs)) ∧
    (showingContext [Clear.encode 2 .euint32, Clear.encode 1 .euint8]).resolveBinary .add
        (handlesPayload (Clear.encode 2 .euint32) (Clear.encode 1 .euint8) 0) =
      .error (.widthMismatch .add .euint32 .euint8) := by
  have hne : (Clear.encode 2 .euint32).handle ≠ (Clear.encode 1 .euint8).handle := by
    decide +kernel
  have hwidth : (Clear.encode 2 .euint32).width = .euint32 := rfl
  have hwidth' : (Clear.encode 1 .euint8).width = .euint8 := rfl
  generalize Clear.encode 2 .euint32 = x at hne hwidth ⊢
  generalize Clear.encode 1 .euint8 = y at hne hwidth' ⊢
  obtain ⟨hx, hy⟩ := verified?_showingContext_pair hne
  have hx' := verified?_showingContext_singleton x
  obtain ⟨hlen, hflag, hleft, hright⟩ := handlesPayload_parts x y 1
  obtain ⟨hlen', hflag', hleft', hright'⟩ := handlesPayload_parts x y 0
  obtain ⟨hscalar, -, -, hcongr⟩ :=
    resolves_by_format (showingContext [x]) .add (handlesPayload x y 1)
  obtain ⟨-, -, hviolation, -⟩ :=
    resolves_by_format (showingContext [x, y]) .add (handlesPayload x y 0)
  refine ⟨hcongr _ hflag fun h hslot => ?_, ?_, (hviolation _).mpr ?_⟩
  · obtain rfl : x.handle = h := by rw [← Handle.ofTail_eq hslot, hleft, Handle.ofTail_bytes]
    rw [hx, hx']
  · refine ⟨Bytes.low64 y.handle.bytes, (hscalar _ _).mpr ⟨hlen, hflag, by decide, ?_, ?_⟩⟩
    · exact ⟨x.handle, hleft.symm, hx'⟩
    · rw [hright, Bytes.toNat_low64]
  · have hencrypted : (handlesPayload x y 0)[64]? ≠ some 1 := by
      rw [hflag']
      decide
    have hmixed : x.width ≠ y.width := by
      rw [hwidth, hwidth']
      decide
    rw [← x.handle.ofTail_bytes, ← hleft'] at hx
    rw [← y.handle.ofTail_bytes, ← hright'] at hy
    rw [← hwidth, ← hwidth']
    exact Context.firstViolation_widths hlen' hencrypted hx hy hmixed

end CipherCalls
