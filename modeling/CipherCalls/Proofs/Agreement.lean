/-
# Sessions that agree

What comes of a call is decided by the settings of the context, by the ciphertexts that are visible
at the current depth, and by the pending requirements.  Two sessions that *agree* on these are the
same to every call that is executed for real, provided that the engine does not remember what it
was asked: the call has the same result, the same effect and the same price in both.  Neither the
journal nor anything that is visible at other depths plays a part.

If one session only shows more than another one, then at least what resolves in the latter resolves
in the former, and to the same demand.
-/
import Mathlib
import CipherCalls.Proofs.Pending
import CipherCalls.Proofs.Performing
import CipherCalls.Proofs.PriceByWidth

namespace CipherCalls

/-! ## Engines that do not remember -/

section Steady

variable {e : Engine} {b : Backend} {s s' : Session}

/-- The conjunction of some conditions does not depend on what was asked before. -/
lemma conjoin_fst_of_steady (hsteady : e.Steady) (first : Ciphertext)
    (conditions : List Ciphertext) (j j' : Journal) :
    (conjoin e first conditions j').1 = (conjoin e first conditions j).1 := by
  induction conditions generalizing first j j' with
  | nil => rfl
  | cons next rest ih =>
      have hanswer : e.produce j'.calls = e.produce j.calls := (hsteady _ _).1
      simp only [conjoin, Journal.produce, hanswer]
      cases e.produce j.calls (.bitAnd first next) with
      | error cause => rfl
      | ok both => exact ih both _ _

lemma evaluateConditions_fst_of_steady (hsteady : e.Steady) (conditions : List Ciphertext)
    (j j' : Journal) :
    (evaluateConditions e conditions j').1 = (evaluateConditions e conditions j).1 := by
  cases conditions with
  | nil => rfl
  | cons first rest =>
      have hconjoin := conjoin_fst_of_steady hsteady first rest j j'
      simp only [evaluateConditions]
      generalize conjoin e first rest j = o at hconjoin ⊢
      generalize conjoin e first rest j' = o' at hconjoin ⊢
      obtain ⟨result, j⟩ := o
      obtain ⟨result', j'⟩ := o'
      obtain rfl : result' = result := hconjoin
      cases result' with
      | error cause => rfl
      | ok all =>
          have hanswer : e.decrypt j'.calls = e.decrypt j.calls := (hsteady _ _).2
          simp only [Journal.decrypt, hanswer]
          cases e.decrypt j.calls all <;> rfl

/-- The verdict depends on the pending requirements alone. -/
lemma verdict_fst_of_steady (hsteady : b.engine.Steady) (hpending : s'.pending = s.pending) :
    (s'.verdict b).1 = (s.verdict b).1 := by
  have hconditions :
      s'.context.vault.requires.conditions = s.context.vault.requires.conditions := hpending
  rw [Session.verdict, Session.verdict, hconditions]
  exact evaluateConditions_fst_of_steady hsteady _ _ _

/-- The answer to a request depends on the request alone. -/
lemma obtain_fst_of_steady (hsteady : b.engine.Steady) (hreal : s.context.mode ≠ .estimating)
    (hreal' : s'.context.mode ≠ .estimating) (request : Engine.Request) :
    (obtain b request s').1 = (obtain b request s).1 := by
  rw [obtain_of_real b request s hreal, obtain_of_real b request s' hreal']
  exact congrFun (hsteady _ _).1 request

end Steady

/-! ## What a payload resolves to -/

namespace Context

variable {c c' : Context} {m : Method} {payload : Bytes} {d : Demand}

section Congruence

variable (hverified : ∀ h, c'.verified? h = c.verified? h)
include hverified

lemma resolveHandle_congr (m : Method) (bytes : Bytes) :
    c'.resolveHandle m bytes = c.resolveHandle m bytes := by
  rw [resolveHandle, resolveHandle, hverified]

lemma resolveBinary_congr (op : BinaryOp) (payload : Bytes) :
    c'.resolveBinary op payload = c.resolveBinary op payload := by
  simp only [resolveBinary, resolveHandle_congr hverified]

lemma resolveTarget_congr (m : Method) (payload : Bytes) :
    c'.resolveTarget m payload = c.resolveTarget m payload := by
  simp only [resolveTarget, resolveHandle_congr hverified]

/-- The demand of a payload depends on the context through the visible ciphertexts only. -/
lemma demand_congr (m : Method) (payload : Bytes) : c'.demand payload m = c.demand payload m := by
  cases m with
  | add | sub | bitAnd => simp only [demand, resolveBinary_congr hverified]
  | cast => simp only [demand, resolveCast, resolveHandle_congr hverified]
  | decrypt | require => simp only [demand, resolveTarget_congr hverified]
  | publicKey | encrypt | padGas => rfl

end Congruence

/-- What resolves in a context resolves to the same in every context that shows more. -/
lemma demand_of_shows_more
    (hverified : ∀ h ct, c.verified? h = some ct → c'.verified? h = some ct)
    (hd : c.demand payload m = .ok d) : c'.demand payload m = .ok d := by
  have hbinary {op : BinaryOp} {o : Operands} (ho : c.resolveBinary op payload = .ok o) :
      c'.resolveBinary op payload = .ok o := by
    cases o with
    | encrypted lhs rhs =>
        obtain ⟨hlen, hflag, hlhs, hrhs, hw⟩ := resolveBinary_eq_encrypted_iff.mp ho
        exact resolveBinary_eq_encrypted_iff.mpr
          ⟨hlen, hflag, hverified _ _ hlhs, hverified _ _ hrhs, hw⟩
    | scalar lhs rhs =>
        obtain ⟨hlen, hflag, hscalar, hlhs, hrhs⟩ := resolveBinary_eq_scalar_iff.mp ho
        exact resolveBinary_eq_scalar_iff.mpr ⟨hlen, hflag, hscalar, hverified _ _ hlhs, hrhs⟩
  have htarget {m : Method} {ct : Ciphertext} (hct : c.resolveTarget m payload = .ok ct) :
      c'.resolveTarget m payload = .ok ct := by
    obtain ⟨hlen, hct⟩ := resolveTarget_eq_ok_iff.mp hct
    exact resolveTarget_eq_ok_iff.mpr ⟨hlen, hverified _ _ hct⟩
  cases m with
  | add | sub | bitAnd =>
      obtain ⟨request, hrequest, rfl⟩ := map_eq_ok hd
      obtain ⟨o, ho, hrequest⟩ := bind_eq_ok hrequest
      rw [demand, hbinary ho]
      exact congrArg (Except.map Demand.produce) hrequest
  | cast =>
      obtain ⟨⟨source, w⟩, ho, rfl⟩ := map_eq_ok hd
      obtain ⟨hlen, hsource, hw⟩ := resolveCast_eq_ok_iff.mp ho
      rw [demand, resolveCast_eq_ok_iff.mpr ⟨hlen, hverified _ _ hsource, hw⟩]
      rfl
  | decrypt | require =>
      obtain ⟨ct, hct, rfl⟩ := map_eq_ok hd
      rw [demand, htarget hct]
      rfl
  | publicKey | encrypt | padGas => exact hd

end Context

/-! ## Agreement -/

/-- Two sessions agree on the settings, on what is visible at the current depth, and on the pending
requirements. -/
structure Session.Agree (s s' : Session) : Prop where
  settings : s'.context.settings = s.context.settings
  verified : ∀ h, s'.context.verified? h = s.context.verified? h
  pending : s'.pending = s.pending

namespace Session.Agree

variable {b : Backend} {s s' : Session} {m : Method} {payload input : Bytes} {d : Demand}

lemma mode_eq (h : s.Agree s') : s'.context.mode = s.context.mode :=
  (congrArg Context.mode h.settings :)

/-- Metering says the same in both sessions. -/
lemma requiredGas_eq (h : s.Agree s') (supplied : UInt64) (input : Bytes) :
    s'.context.requiredGas supplied input = s.context.requiredGas supplied input := by
  have hparams : s'.context.params = s.context.params := (congrArg Context.params h.settings :)
  have hgas : s'.context.gasLimit = s.context.gasLimit := (congrArg Context.gasLimit h.settings :)
  have hwidths : s'.context.widths = s.context.widths := by
    funext x
    rw [Context.widths_eq, Context.widths_eq, h.verified x]
  exact Context.requiredGas_congr hparams hgas hwidths supplied input

section Real

variable (h : s.Agree s') (hsteady : b.engine.Steady) (hreal : s.context.mode ≠ .estimating)
include h hsteady hreal

lemma obtain_fst (request : Engine.Request) : (obtain b request s').1 = (obtain b request s).1 :=
  obtain_fst_of_steady hsteady hreal (h.mode_eq ▸ hreal) request

/-- A plaintext is revealed in both sessions, or in neither of them. -/
lemma reveal_fst (payload : Bytes) (target : Ciphertext) :
    (reveal b payload target s').1 = (reveal b payload target s).1 := by
  have hreal' : s'.context.mode ≠ .estimating := h.mode_eq ▸ hreal
  have hverdict : (s'.verdict b).1 = (s.verdict b).1 := verdict_fst_of_steady hsteady h.pending
  by_cases hgranted : (s.verdict b).1 = .ok true
  · have hanswer :
        b.engine.decrypt (s'.verdict b).2.calls = b.engine.decrypt (s.verdict b).2.calls :=
      (hsteady _ _).2
    rw [reveal_of_granted hreal hgranted, reveal_of_granted hreal' (hverdict.trans hgranted),
      hanswer]
  · rw [(reveal_of_refused hreal hgranted).1,
      (reveal_of_refused hreal' (hverdict.symm ▸ hgranted)).1, hverdict]

/-- Meeting a demand has the same result in both sessions. -/
lemma meet_fst : (meet b m payload d s').1 = (meet b m payload d s).1 := by
  cases d with
  | produce request =>
      simp only [meet, reported_fst, produce_fst, h.obtain_fst hsteady hreal]
  | reveal target =>
      simp only [meet, reported_fst, h.reveal_fst hsteady hreal]
  | state condition => rfl
  | serveKey =>
      exact runPublicKey_fst (congrArg Context.publicKey h.settings :)
        (congrArg Context.recordedHash h.settings :)
  | pad => rfl

/-- A run has the same result in both sessions. -/
theorem run_fst : (run b input s').1 = (run b input s).1 := by
  rw [run_eq, run_eq]
  cases dispatch input with
  | error cause => rfl
  | ok m =>
      simp only [Context.demand_congr h.verified]
      cases s.context.demand (m.payload input) m with
      | error cause => rfl
      | ok d => exact h.meet_fst hsteady hreal

/-- A run has the same effect in both sessions. -/
theorem effect_eq : s'.effect b input = s.effect b input := by
  rw [Session.effect, Session.effect]
  cases dispatch input with
  | error cause => rfl
  | ok m =>
      simp only [Context.demand_congr h.verified]
      cases s.context.demand (m.payload input) m with
      | error cause => rfl
      | ok d =>
          cases d with
          | produce request => simp only [Demand.effect, h.obtain_fst hsteady hreal]
          | reveal target => simp only [Demand.effect, h.mode_eq]
          | state | serveKey | pad => rfl

end Real

end Session.Agree

end CipherCalls
