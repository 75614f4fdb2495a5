/-
# Prices depend on widths

The price of a call is public, and is known before the call is run.  So it must not give away
anything about what is encrypted.  And in fact metering reads of the visible ciphertexts nothing
but the widths: `resultWidth` and `targetWidth` say which width decides the price, or why there is
none, and they are given a function from handles to widths instead of a context.

Hence contexts that show the same widths are told the same prices, whatever else is different
about them, and also the same reasons why there is no price.
-/
import Mathlib
import CipherCalls.Proofs.Pending

namespace CipherCalls

/-! ## The width that decides the price -/

/-- The width under the handle that ends a byte string. -/
def resolveWidth (widths : Handle → Option Width) (m : Method) (bytes : Bytes) :
    Except CallError Width :=
  match widths (.ofTail bytes) with
  | some w => .ok w
  | none => .error (.unverified m (.ofTail bytes))

/-- The width of the result of a method with two operands. -/
def resultWidth (widths : Handle → Option Width) (op : BinaryOp) (payload : Bytes) :
    Except CallError Width := do
  if ← isScalar op.method payload then
    if !op.supportsScalar then throw (.scalarNotSupported op.method)
    resolveWidth widths op.method (firstSlot payload)
  else
    let lhs ← resolveWidth widths op.method (firstSlot payload)
    let rhs ← resolveWidth widths op.method (secondSlot payload)
    if lhs ≠ rhs then throw (.widthMismatch op.method lhs rhs)
    return lhs

/-- The width of the ciphertext of a method whose only argument is a handle. -/
def targetWidth (widths : Handle → Option Width) (m : Method) (payload : Bytes) :
    Except CallError Width := do
  expectLength m payload 32
  resolveWidth widths m payload

namespace Context

/-- The widths of the ciphertexts that are visible at the current depth. -/
def widths (c : Context) (h : Handle) : Option Width := c.vault.registry.width? h c.depth

variable {c c' : Context} {m : Method} {op : BinaryOp} {payload : Bytes}

/-- A width is shown where a ciphertext is visible. -/
lemma widths_eq (h : Handle) : c.widths h = (c.verified? h).map Ciphertext.width :=
  Registry.width?_eq _ h _

lemma map_width_resolveHandle (bytes : Bytes) :
    (c.resolveHandle m bytes).map Ciphertext.width = resolveWidth c.widths m bytes := by
  rw [resolveHandle, resolveWidth, widths_eq]
  cases c.verified? (.ofTail bytes) <;> rfl

lemma map_width_resolveTarget :
    (c.resolveTarget m payload).map Ciphertext.width = targetWidth c.widths m payload := by
  rw [resolveTarget, targetWidth, ← map_width_resolveHandle]
  cases expectLength m payload 32 <;> rfl

/-- Whether the operands resolve, and with which width, is decided by the widths. -/
lemma map_width_resolveBinary :
    (c.resolveBinary op payload).map Operands.width = resultWidth c.widths op payload := by
  simp only [resolveBinary, resultWidth, ← map_width_resolveHandle]
  rcases isScalar op.method payload with cause | _ | _
  · rfl
  · -- Two ciphertexts: both have to be visible, and their widths are compared.
    cases c.resolveHandle op.method (firstSlot payload) with
    | error cause => rfl
    | ok lhs =>
        cases c.resolveHandle op.method (secondSlot payload) with
        | error cause => rfl
        | ok rhs =>
            show Except.map Operands.width
                (if lhs.width ≠ rhs.width then .error _ else .ok (.encrypted lhs rhs)) =
              if lhs.width ≠ rhs.width then .error _ else .ok lhs.width
            split <;> rfl
  · -- A ciphertext and a plain number.
    cases op.supportsScalar with
    | false => rfl
    | true => cases c.resolveHandle op.method (firstSlot payload) <;> rfl

/-! ## Metering by widths -/

lemma priceBinary_eq (prices : WidthPrices) :
    c.priceBinary op prices payload =
      orZero op.method payload ((resultWidth c.widths op payload).map prices.get) := by
  rw [priceBinary, ← map_width_resolveBinary]
  cases c.resolveBinary op payload <;> rfl

lemma priceTarget_eq (prices : WidthPrices) :
    c.priceTarget m prices payload =
      orZero m payload ((targetWidth c.widths m payload).map prices.get) := by
  rw [priceTarget, ← map_width_resolveTarget]
  cases c.resolveTarget m payload <;> rfl

/-- Contexts that show the same widths are told the same prices. -/
lemma requiredGas_congr (hparams : c'.params = c.params) (hgas : c'.gasLimit = c.gasLimit)
    (hwidths : c'.widths = c.widths) (supplied : UInt64) (input : Bytes) :
    c'.requiredGas supplied input = c.requiredGas supplied input := by
  rw [requiredGas, requiredGas]
  cases dispatch input with
  | error cause => rfl
  | ok m =>
      cases m with
      | add | sub | bitAnd => simp only [priceMethod, priceBinary_eq, hwidths, hparams]
      | decrypt | require => simp only [priceMethod, priceTarget_eq, hwidths, hparams]
      | cast => simp only [priceMethod, priceCast, hparams]
      | encrypt => simp only [priceMethod, priceEncrypt, hparams]
      | publicKey => simp only [priceMethod, hparams]
      | padGas => simp only [priceMethod, pricePadding, hgas]

end Context

/-! ## The main statement -/

/-- **Prices depend on ciphertexts only through their widths.**  Two contexts with the same price
table and the same gas limit, which show ciphertexts of the same widths under the same handles, each
at its current depth, are told the same by metering about every input, be it the price or the
failure that is reported.  The modes, the payloads of the ciphertexts, what other depths show, the
pending requirements and the public key play no part.

In any session, metering does nothing but report: no context is changed, no engine is asked, and no
stand-in is drawn.  This is so by what metering is given: a price is computed from a context alone,
without a backend that could be asked. -/
theorem metering_reads_widths (c c' : Context) (hparams : c'.params = c.params)
    (hgas : c'.gasLimit = c.gasLimit)
    (hwidths : ∀ h, c'.vault.registry.width? h c'.depth = c.vault.registry.width? h c.depth)
    (supplied : UInt64) (input : Bytes) :
    c'.requiredGas supplied input = c.requiredGas supplied input ∧
      ∀ (b : Backend) (s : Session), (Step.meter supplied input).apply b s =
        { s with journal := { s.journal with
            events := s.journal.events ++ (s.context.requiredGas supplied input).events } } :=
  ⟨Context.requiredGas_congr hparams hgas (funext hwidths) supplied input, fun _ s =>
    s.logAll_eq _⟩

/-- A context in which one ciphertext is visible, under a given handle. -/
def Context.showing (settings : Context) (h : Handle) (x : Ciphertext) : Context :=
  { settings with
    vault := { settings.vault with registry := ⟨[⟨h, x, [settings.depth]⟩], by simp⟩ } }

lemma widths_showing (settings : Context) (h h' : Handle) (x : Ciphertext) :
    (settings.showing h x).widths h' = if h = h' then some x.width else none := by
  by_cases hh : h = h' <;>
    simp [Context.widths, Context.showing, Registry.width?, Registry.find?, hh]

lemma price_requireCall {c : Context} {h : Handle} {w : Width} (hw : c.widths h = some w)
    (supplied : UInt64) :
    (c.requiredGas supplied (requireCall h)).price = c.params.gasCosts.require.get w := by
  have hm : dispatch (requireCall h) = .ok .require := dispatch_encodeCall .require _
  have hpayload : Method.require.payload (requireCall h) = h.bytes :=
    payload_encodeCall_handle rfl h
  have hwidth : targetWidth c.widths .require h.bytes = .ok w := by
    rw [targetWidth, expectLength_eq_ok_iff.mpr h.length_bytes]
    simp only [resolveWidth, Handle.ofTail_bytes, hw]
    rfl
  simp only [Context.requiredGas, hm, hpayload, Context.priceMethod, Context.priceTarget_eq, hwidth]
  rfl

/-- A requirement costs the same whether it holds or not, and where it will be checked as where it
is only estimated. -/
theorem requirement_priced_by_width :
    (Context.showing { mode := .estimating, depth := 3 } ⟨.zero⟩
        (Clear.encode 0 .euint32)).requiredGas 0 (requireCall ⟨.zero⟩) =
      (Context.showing { mode := .committing } ⟨.zero⟩
        (Clear.encode 1 .euint32)).requiredGas 0 (requireCall ⟨.zero⟩) ∧
    ((Context.showing { mode := .committing } ⟨.zero⟩
      (Clear.encode 1 .euint32)).requiredGas 0 (requireCall ⟨.zero⟩)).price = 190000 := by
  generalize (⟨.zero⟩ : Handle) = k
  have hwidths (settings : Context) (u : UInt64) (h : Handle) :
      (settings.showing k (Clear.encode u .euint32)).widths h =
        if k = h then some .euint32 else none := widths_showing settings k h _
  refine ⟨(metering_reads_widths (Context.showing { mode := .committing } k
    (Clear.encode 1 .euint32)) (Context.showing { mode := .estimating, depth := 3 } k
      (Clear.encode 0 .euint32)) rfl rfl (fun h => ?_) 0 (requireCall k)).1, ?_⟩
  · exact (hwidths _ 0 h).trans (hwidths _ 1 h).symm
  · rw [price_requireCall ((hwidths _ 1 k).trans (if_pos rfl))]
    rfl

end CipherCalls
