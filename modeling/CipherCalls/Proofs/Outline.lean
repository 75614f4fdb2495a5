/-
# Demands in outline

The price of a call and the width of its result depend on the ciphertexts it names through their
widths only.  The *outline* of a demand is what remains when all payloads are forgotten.

Two contexts may be compared when one of them shows all that the other one shows, at the same
width, although under a different handle and with a different payload.  If two payloads are alike
except for such handles, what resolves in the one context also resolves in the other one, and to
the same outline; and a failure in the one is a failure in the other, unless it was about a handle
that is not visible.  This is `demand_follows`.
-/
import Mathlib
import CipherCalls.Proofs.Resolution

namespace CipherCalls

/-! ## Outlines -/

/-- A ciphertext of which only the width is known. -/
def Ciphertext.outline (c : Ciphertext) : Ciphertext := ⟨c.width, []⟩

lemma Ciphertext.outline_eq_iff {c d : Ciphertext} : c.outline = d.outline ↔ c.width = d.width := by
  simp [Ciphertext.outline]

def Operands.outline : Operands → Operands
  | encrypted lhs rhs => .encrypted lhs.outline rhs.outline
  | scalar lhs rhs => .scalar lhs.outline rhs

def Engine.Request.outline : Engine.Request → Engine.Request
  | add lhs rhs => .add lhs.outline rhs.outline
  | sub lhs rhs => .sub lhs.outline rhs.outline
  | addScalar lhs rhs => .addScalar lhs.outline rhs
  | subScalar lhs rhs => .subScalar lhs.outline rhs
  | bitAnd lhs rhs => .bitAnd lhs.outline rhs.outline
  | cast source width => .cast source.outline width
  | encrypt value width => .encrypt value width

def Demand.outline : Demand → Demand
  | produce request => .produce request.outline
  | reveal target => .reveal target.outline
  | state condition => .state condition.outline
  | serveKey => .serveKey
  | pad => .pad

namespace Demand

variable {d : Demand} {request : Engine.Request} {x : Ciphertext}

lemma outline_eq_produce_iff :
    d.outline = .produce request ↔
      ∃ request', d = .produce request' ∧ request'.outline = request := by
  cases d <;> simp [outline]

lemma outline_eq_reveal_iff :
    d.outline = .reveal x ↔ ∃ target, d = .reveal target ∧ target.outline = x := by
  cases d <;> simp [outline]

lemma outline_eq_state_iff :
    d.outline = .state x ↔ ∃ condition, d = .state condition ∧ condition.outline = x := by
  cases d <;> simp [outline]

lemma outline_eq_serveKey_iff : d.outline = .serveKey ↔ d = .serveKey := by
  cases d <;> simp [outline]

lemma outline_eq_pad_iff : d.outline = .pad ↔ d = .pad := by
  cases d <;> simp [outline]

end Demand

lemma Engine.Request.width_outline (request : Engine.Request) :
    request.outline.width = request.width := by
  cases request <;> rfl

lemma Context.price_outline (c : Context) (supplied : UInt64) (payload : Bytes) (demand : Demand) :
    c.price supplied payload demand.outline = c.price supplied payload demand := by
  cases demand with
  | produce request => cases request <;> rfl
  | reveal | state | serveKey | pad => rfl

/-! ## Following -/

/-- Whether a failure is about a handle that is not visible. -/
def CallError.isUnverified : CallError → Bool
  | unverified .. => true
  | _ => false

/-- One computation follows another one: it succeeds if the other one does, with a related result,
and it fails like the other one, except for handles that are not visible. -/
structure Follows {α β : Type} (R : α → β → Prop) (x : Except CallError α)
    (y : Except CallError β) : Prop where
  ok : ∀ a, x = .ok a → ∃ b, y = .ok b ∧ R a b
  error : ∀ cause, x = .error cause → cause.isUnverified = false → y = .error cause

namespace Follows

variable {α β α' β' : Type} {R : α → β → Prop} {S : α' → β' → Prop} {x : Except CallError α}
  {y : Except CallError β}

lemma of_ok {a : α} {b : β} (h : R a b) : Follows R (.ok a) (.ok b) where
  ok _ ha := ⟨b, rfl, Except.ok.inj ha ▸ h⟩
  error _ h := by cases h

lemma of_error (cause : CallError) : Follows R (.error cause) (.error cause) where
  ok _ h := by cases h
  error _ h _ := congrArg Except.error (Except.error.inj h)

lemma refl (x : Except CallError α) : Follows Eq x x := by
  cases x with
  | error cause => exact of_error cause
  | ok a => exact of_ok rfl

lemma bind {f : α → Except CallError α'} {g : β → Except CallError β'} (h : Follows R x y)
    (hfg : ∀ a b, R a b → Follows S (f a) (g b)) : Follows S (x >>= f) (y >>= g) := by
  cases x with
  | error cause =>
      constructor
      · rintro a ⟨⟩
      · rintro _ ⟨⟩ hvisible
        rw [h.error cause rfl hvisible]
        rfl
  | ok a =>
      obtain ⟨b, rfl, hab⟩ := h.ok a rfl
      exact hfg a b hab

lemma map {f : α → α'} {g : β → β'} (h : Follows R x y) (hfg : ∀ a b, R a b → S (f a) (g b)) :
    Follows S (x.map f) (y.map g) := by
  have hbind : Follows S (x >>= fun a => .ok (f a)) (y >>= fun b => .ok (g b)) :=
    h.bind fun a b hab => of_ok (hfg a b hab)
  cases x <;> cases y <;> exact hbind

end Follows

/-! ## Payloads that are alike -/

/-- Payloads of a method that agree except for the handles they name, which are related.  Only
what the method reads of a payload of the right length matters. -/
def Method.Alike (R : Handle → Handle → Prop) (m : Method) (p p' : Bytes) : Prop :=
  p'.length = p.length ∧
    match m with
    | add | sub | bitAnd => p.length = 65 →
        p'.getD 64 0 = p.getD 64 0 ∧
          R (.ofTail (firstSlot p)) (.ofTail (firstSlot p')) ∧
          if p.getD 64 0 = 1 then secondSlot p' = secondSlot p
          else R (.ofTail (secondSlot p)) (.ofTail (secondSlot p'))
    | cast => p.length = 33 →
        R (.ofTail (firstSlot p)) (.ofTail (firstSlot p')) ∧ p'.getD 32 0 = p.getD 32 0
    | decrypt | require => p.length = 32 → R (.ofTail p) (.ofTail p')
    | encrypt => p.length = 33 → p' = p
    | publicKey | padGas => p' = p

/-- What one context shows under a handle, another one shows under another handle, with the same
width. -/
def Context.Shows (c c' : Context) (h h' : Handle) : Prop :=
  ∀ x, c.verified? h = some x → ∃ x', c'.verified? h' = some x' ∧ x'.width = x.width

section Resolving

variable {c c' : Context} {m : Method} {p p' : Bytes} {R : Handle → Handle → Prop}

/-- The length is checked first, so that the rest only matters for the right length. -/
lemma expectLength_follows {α β : Type} {S : α → β → Prop} {f : Unit → Except CallError α}
    {g : Unit → Except CallError β} {n : Nat} (hlen : p'.length = p.length)
    (h : p.length = n → Follows S (f ()) (g ())) :
    Follows S (expectLength m p n >>= f) (expectLength m p' n >>= g) := by
  rw [expectLength, expectLength, hlen]
  split
  · exact h ‹_›
  · exact .of_error _

lemma resolveHandle_follows {bytes bytes' : Bytes}
    (h : c.Shows c' (.ofTail bytes) (.ofTail bytes')) :
    Follows (fun x x' => x'.outline = x.outline) (c.resolveHandle m bytes)
      (c'.resolveHandle m bytes') := by
  constructor
  · intro x hx
    obtain ⟨x', hx', hw⟩ := h x (Context.resolveHandle_eq_ok_iff.mp hx)
    exact ⟨x', Context.resolveHandle_eq_ok_iff.mpr hx', Ciphertext.outline_eq_iff.mpr hw⟩
  · intro cause hcause hvisible
    rw [Context.resolveHandle] at hcause
    split at hcause <;> cases hcause
    cases hvisible

/-- Two operands resolve alike.  The flag is the same on both sides and decides how the second word
is read. -/
lemma resolveBinary_follows {op : BinaryOp} (hR : ∀ h h', R h h' → c.Shows c' h h')
    (halike : op.method.Alike R p p') :
    Follows (fun o o' => o'.outline = o.outline) (c.resolveBinary op p)
      (c'.resolveBinary op p') := by
  have hlen : p'.length = p.length := halike.1
  by_cases h65 : p.length = 65
  · obtain ⟨hflag, hfirst, hsecond⟩ :
        p'.getD 64 0 = p.getD 64 0 ∧ R (.ofTail (firstSlot p)) (.ofTail (firstSlot p')) ∧
          if p.getD 64 0 = 1 then secondSlot p' = secondSlot p
          else R (.ofTail (secondSlot p)) (.ofTail (secondSlot p')) := by
      cases op <;> exact halike.2 h65
    have hlhs : Follows (fun x x' => x'.outline = x.outline)
        (c.resolveHandle op.method (firstSlot p)) (c'.resolveHandle op.method (firstSlot p')) :=
      resolveHandle_follows (hR _ _ hfirst)
    by_cases hscalar : p.getD 64 0 = 1
    · -- The second word is a plain operand, which is the same on both sides.
      rw [if_pos hscalar] at hsecond
      rw [Context.resolveBinary_of_scalar h65 hscalar,
        Context.resolveBinary_of_scalar (hlen.trans h65) (hflag.trans hscalar), hsecond]
      split
      · exact hlhs.map fun x x' hx => by rw [Operands.outline, Operands.outline, hx]
      · exact .of_error _
    · -- The second word is a handle; whether the widths match depends on the outlines only.
      rw [if_neg hscalar] at hsecond
      rw [Context.resolveBinary_of_encrypted h65 hscalar,
        Context.resolveBinary_of_encrypted (hlen.trans h65) (hflag ▸ hscalar)]
      refine hlhs.bind fun x x' hx => ?_
      refine (resolveHandle_follows (hR _ _ hsecond)).bind fun y y' hy => ?_
      rw [Ciphertext.outline_eq_iff] at hx hy
      rw [hx, hy]
      split
      · refine .of_ok ?_
        rw [Operands.outline, Operands.outline, Ciphertext.outline_eq_iff.mpr hx,
          Ciphertext.outline_eq_iff.mpr hy]
      · exact .of_error _
  · -- Payloads of a wrong length fail alike, whatever they name.
    rw [Context.resolveBinary_of_length h65,
      Context.resolveBinary_of_length (fun h => h65 (hlen.symm.trans h)), hlen]
    exact .of_error _

/-- What is asked on behalf of operands of the same outline. -/
lemma request_follows {op : BinaryOp} {o o' : Operands} (h : o'.outline = o.outline) :
    Follows (fun r r' => r'.outline = r.outline) (op.request o) (op.request o') := by
  cases o with
  | encrypted x y =>
      cases o' with
      | scalar => cases h
      | encrypted x' y' =>
          obtain ⟨hx, hy⟩ := Operands.encrypted.inj h
          cases op <;>
            exact .of_ok (by simp only [Engine.Request.outline, hx, hy])
  | scalar x v =>
      cases o' with
      | encrypted => cases h
      | scalar x' v' =>
          obtain ⟨hx, rfl⟩ := Operands.scalar.inj h
          cases op with
          | add | sub => exact .of_ok (by simp only [Engine.Request.outline, hx])
          | bitAnd => exact .of_error _

lemma demandBinary_follows (op : BinaryOp) (hR : ∀ h h', R h h' → c.Shows c' h h')
    (halike : op.method.Alike R p p') :
    Follows (fun d d' : Demand => d'.outline = d.outline)
      ((c.resolveBinary op p >>= op.request).map .produce)
      ((c'.resolveBinary op p' >>= op.request).map .produce) :=
  ((resolveBinary_follows hR halike).bind fun _ _ => request_follows).map fun r r' hr => by
    rw [Demand.outline, Demand.outline, hr]

lemma resolveCast_follows (hR : ∀ h h', R h h' → c.Shows c' h h')
    (halike : Method.cast.Alike R p p') :
    Follows (fun o o' => o'.1.outline = o.1.outline ∧ o'.2 = o.2) (c.resolveCast p)
      (c'.resolveCast p') := by
  refine expectLength_follows halike.1 fun h33 => ?_
  obtain ⟨hsource, hbyte⟩ := halike.2 h33
  refine (resolveHandle_follows (hR _ _ hsource)).bind fun x x' hx => ?_
  rw [hbyte]
  exact (Follows.refl _).bind fun w w' hw => .of_ok ⟨hx, hw.symm⟩

lemma resolveTarget_follows (hlen : p'.length = p.length)
    (hshows : p.length = 32 → c.Shows c' (.ofTail p) (.ofTail p')) :
    Follows (fun x x' => x'.outline = x.outline) (c.resolveTarget m p) (c'.resolveTarget m p') :=
  expectLength_follows hlen fun h32 => resolveHandle_follows (hshows h32)

lemma resolveEncryptWidth_follows (halike : Method.encrypt.Alike R p p') :
    Follows (fun w w' => w' = w ∧ p' = p) (resolveEncryptWidth p) (resolveEncryptWidth p') := by
  refine expectLength_follows halike.1 fun h33 => ?_
  obtain rfl : p' = p := halike.2 h33
  cases parseWidth .encrypt (p'.getD 32 0) with
  | error cause => exact .of_error cause
  | ok w => exact .of_ok ⟨rfl, rfl⟩

/-- **Alike payloads make alike demands.** -/
theorem demand_follows (hR : ∀ h h', R h h' → c.Shows c' h h') (halike : m.Alike R p p') :
    Follows (fun d d' => d'.outline = d.outline) (c.demand p m) (c'.demand p' m) := by
  cases m with
  | add => exact demandBinary_follows .add hR halike
  | sub => exact demandBinary_follows .sub hR halike
  | bitAnd => exact demandBinary_follows .bitAnd hR halike
  | cast =>
      refine (resolveCast_follows hR halike).map fun o o' ho => ?_
      rw [Demand.outline, Demand.outline, Engine.Request.outline, Engine.Request.outline, ho.1,
        ho.2]
  | decrypt | require =>
      refine (resolveTarget_follows halike.1 fun h => hR _ _ (halike.2 h)).map fun x x' hx => ?_
      rw [Demand.outline, Demand.outline, hx]
  | encrypt =>
      refine (resolveEncryptWidth_follows halike).map fun w w' hw => ?_
      rw [hw.1, hw.2]
  | publicKey | padGas => exact .of_ok rfl

end Resolving

/-! ## Prices -/

section Pricing

variable {c c' : Context} {m : Method} {p p' : Bytes} {d d' : Demand}

/-- The demands that depend on the bytes of the payload beyond the handles come from payloads that
are equal. -/
lemma payload_eq_of_alike {R : Handle → Handle → Prop} (hd : c.demand p m = .ok d)
    (halike : m.Alike R p p') (hplain : d = .serveKey ∨ d = .pad) : p' = p := by
  cases m with
  | publicKey | padGas => exact halike.2
  | add | sub | bitAnd | cast | decrypt | encrypt | require =>
      obtain ⟨_, -, rfl⟩ := map_eq_ok hd
      simp at hplain

/-- Demands of the same outline have the same price. -/
lemma price_eq_of_outline (hparams : c'.params = c.params) (hgas : c'.gasLimit = c.gasLimit)
    (hd : d'.outline = d.outline) (hpad : d = .pad → p' = p) (supplied : UInt64) :
    c'.price supplied p' d' = c.price supplied p d := by
  rw [← c'.price_outline, ← c.price_outline, hd]
  cases d with
  | produce request =>
      cases request <;> simp only [Demand.outline, Engine.Request.outline, Context.price, hparams]
  | reveal | state | serveKey => simp only [Demand.outline, Context.price, hparams]
  | pad =>
      rw [hpad rfl]
      simp only [Demand.outline, Context.price, Context.pricePadding, hgas]

/-- **Alike payloads have the same price**, if the first one resolves, or fails for another reason
than a handle. -/
theorem price_eq_of_alike {R : Handle → Handle → Prop} (hparams : c'.params = c.params)
    (hgas : c'.gasLimit = c.gasLimit) (hR : ∀ h h', R h h' → c.Shows c' h h')
    (halike : m.Alike R p p')
    (hvisible : ∀ cause, c.demand p m = .error cause → cause.isUnverified = false)
    (supplied : UInt64) :
    (c'.priceMethod supplied p' m).price = (c.priceMethod supplied p m).price := by
  have hfollows := demand_follows hR halike
  cases hd : c.demand p m with
  | ok d =>
      obtain ⟨d', hd', houtline⟩ := hfollows.ok d hd
      rw [Context.price_of_demand hd, Context.price_of_demand hd']
      exact price_eq_of_outline hparams hgas houtline
        (fun hpad => payload_eq_of_alike hd halike (.inr hpad)) supplied
  | error cause =>
      have hd' := hfollows.error cause hd (hvisible cause hd)
      rw [Context.price_of_demand_error hd, Context.price_of_demand_error hd', halike.1, hparams]

end Pricing

end CipherCalls
