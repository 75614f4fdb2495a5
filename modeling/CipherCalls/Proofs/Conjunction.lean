/-
# The conjunction of the conditions

How the clear engine answers when conditions are checked.  The first condition begins a
conjunction, and the others are taken into it one after the other.  Each of them has to *fit*: to
have the width of the first one, and eight bytes to be read.  The first one that does not fit
decides the refusal, whatever comes after it.

The first condition itself is only compared with the second one, and read when that one is; so if
it is too short, this is found out with the second condition, and after their widths are compared.

If all conditions fit, then the outcome is whether the bitwise conjunction of the plaintexts has a
bit at all.  The order plays no part in this: there is a bit that all plaintexts have, or there is
none.
-/
import Mathlib
import CipherCalls.Proofs.ClearArithmetic
import CipherCalls.Requires

namespace CipherCalls.Clear

/-- What comes of checking some conditions with the clear engine. -/
def outcome (conditions : List Ciphertext) (j : Journal) : Except EngineError Bool :=
  (Requires.evaluate engine ⟨conditions⟩ j).1

/-! ## Ciphertexts that fit -/

/-- A ciphertext can be combined with those of a width. -/
def Fits (w : Width) (c : Ciphertext) : Prop := c.width = w ∧ 8 ≤ c.payload.length

instance (w : Width) : DecidablePred (Fits w) :=
  fun c => inferInstanceAs (Decidable (c.width = w ∧ 8 ≤ c.payload.length))

/-- Why a ciphertext cannot be combined with those of a width. -/
def misfit (w : Width) (c : Ciphertext) : EngineError :=
  if c.width ≠ w then .widthMismatch w c.width else tooShort

/-- The bitwise conjunction of a number and some plaintexts. -/
def conjunction (a : Nat) (conditions : List Ciphertext) : Nat :=
  conditions.foldl (fun a c => a &&& plaintext c) a

lemma testBit_conjunction {a : Nat} {conditions : List Ciphertext} {k : Nat} :
    (conjunction a conditions).testBit k ↔
      a.testBit k ∧ ∀ c ∈ conditions, (plaintext c).testBit k := by
  induction conditions generalizing a with
  | nil => simp [conjunction]
  | cons c conditions ih =>
      refine ih.trans ?_
      rw [Nat.testBit_and, Bool.and_eq_true, List.forall_mem_cons, and_assoc]

lemma ne_zero_iff_testBit {n : Nat} : n ≠ 0 ↔ ∃ k, n.testBit k := by
  constructor
  · exact Nat.exists_testBit_of_ne_zero
  · rintro ⟨k, hk⟩ rfl
    simp at hk

section Conjoin

variable {acc first c next all : Ciphertext} {rest : List Ciphertext} {a : Nat} {j : Journal}
  {f : UInt64 → UInt64 → UInt64}

/-- The widths are compared before anything is read. -/
lemma combine_of_width_ne (hw : c.width ≠ acc.width) :
    combine f acc c = .error (misfit acc.width c) := by
  rw [combine, if_pos hw.symm, misfit, if_pos hw]
  rfl

/-- If the left operand is too short, then the right one is only looked at for its width. -/
lemma combine_of_short (h : acc.payload.length < 8) :
    combine f acc c = .error (misfit acc.width c) := by
  by_cases hw : c.width = acc.width
  · have hvalue : value acc = .error tooShort := if_pos h
    simp only [combine, misfit, hw, hvalue, ne_eq, not_true_eq_false, if_false]
    rfl
  · exact combine_of_width_ne hw

lemma combine_of_not_fits (hacc : Hides acc a) (h : ¬Fits acc.width c) :
    combine f acc c = .error (misfit acc.width c) := by
  by_cases hw : c.width = acc.width
  · obtain ⟨u, hu, -⟩ := hacc
    have hvalue : value c = .error tooShort := if_pos (Nat.not_le.mp fun hlen => h ⟨hw, hlen⟩)
    simp only [combine, misfit, hw, hu, hvalue, ne_eq, not_true_eq_false, if_false]
    rfl
  · exact combine_of_width_ne hw

lemma and_plaintext_lt {w : Width} (h : Fits w c) : a &&& plaintext c < 2 ^ w.bits :=
  Nat.and_lt_two_pow a (h.1 ▸ Nat.mod_lt _ (Nat.two_pow_pos _))

/-- What fits is taken into the conjunction. -/
lemma combine_of_fits (hacc : Hides acc a) (h : Fits acc.width c) :
    combine (· &&& ·) acc c = .ok (encodeNat (a &&& plaintext c) acc.width) := by
  have hcombine := combine_eq .bitAnd h.1.symm hacc (hides_plaintext h.2)
  rwa [BinaryOp.residue, Nat.mod_eq_of_lt (and_plaintext_lt h)] at hcombine

/-- The next condition is combined with what there is so far. -/
lemma conjoin_cons_of_ok {both : Ciphertext} (h : combine (· &&& ·) acc next = .ok both) :
    conjoin engine acc (next :: rest) j =
      conjoin engine both rest (j.produce engine (.bitAnd acc next)).2 := by
  have hanswer : engine.produce j.calls (.bitAnd acc next) = .ok both := h
  simp only [conjoin, Journal.produce, hanswer]

lemma conjoin_cons_of_error {cause : EngineError}
    (h : combine (· &&& ·) acc next = .error cause) :
    (conjoin engine acc (next :: rest) j).1 = .error cause := by
  have hanswer : engine.produce j.calls (.bitAnd acc next) = .error cause := h
  simp only [conjoin, Journal.produce, hanswer]

/-- The first condition that does not fit ends the conjunction.  What is there so far is a number
all the time, so that nothing but this condition can be refused. -/
lemma conjoin_of_find?_some (hacc : Hides acc a)
    (hc : rest.find? (fun x => ¬Fits acc.width x) = some c) :
    (conjoin engine acc rest j).1 = .error (misfit acc.width c) := by
  induction rest generalizing acc a j with
  | nil => cases hc
  | cons next rest ih =>
      by_cases hfits : Fits acc.width next
      · rw [List.find?_cons_of_neg (by simpa using hfits)] at hc
        rw [conjoin_cons_of_ok (combine_of_fits hacc hfits)]
        exact ih (hides_encodeNat (and_plaintext_lt hfits)) hc
      · rw [List.find?_cons_of_pos (by simpa using hfits)] at hc
        obtain rfl := Option.some.inj hc
        exact conjoin_cons_of_error (combine_of_not_fits hacc hfits)

/-- If all conditions fit, then the conjunction hides the conjunction of the plaintexts. -/
lemma conjoin_of_fits (hacc : Hides acc a) (hfits : ∀ x ∈ rest, Fits acc.width x) :
    ∃ all, (conjoin engine acc rest j).1 = .ok all ∧ Hides all (conjunction a rest) := by
  induction rest generalizing acc a j with
  | nil => exact ⟨acc, rfl, hacc⟩
  | cons next rest ih =>
      obtain ⟨hnext, hrest⟩ := List.forall_mem_cons.mp hfits
      rw [conjoin_cons_of_ok (combine_of_fits hacc hnext)]
      exact ih (hides_encodeNat (and_plaintext_lt hnext)) hrest

/-! ## The outcome -/

lemma outcome_of_error {cause : EngineError} (h : (conjoin engine first rest j).1 = .error cause) :
    outcome (first :: rest) j = .error cause := by
  simp only [outcome, Requires.evaluate, Requires.take, evaluateConditions]
  generalize conjoin engine first rest j = o at h ⊢
  obtain ⟨result, j⟩ := o
  obtain rfl : result = .error cause := h
  rfl

lemma outcome_of_ok (h : (conjoin engine first rest j).1 = .ok all) :
    outcome (first :: rest) j = (value all).map fun u => decide (u ≠ 0) := by
  simp only [outcome, Requires.evaluate, Requires.take, evaluateConditions]
  generalize conjoin engine first rest j = o at h ⊢
  obtain ⟨result, j⟩ := o
  obtain rfl : result = .ok all := h
  simp only [Journal.decrypt, engine]
  cases value all <;> rfl

lemma outcome_of_fits (hfirst : 8 ≤ first.payload.length) (hfits : ∀ x ∈ rest, Fits first.width x) :
    outcome (first :: rest) j = .ok (conjunction (plaintext first) rest ≠ 0) := by
  obtain ⟨all, hall, u, hu, hvalue⟩ := conjoin_of_fits (j := j) (hides_plaintext hfirst) hfits
  rw [outcome_of_ok hall, hu, ← hvalue]
  refine congrArg Except.ok (decide_eq_decide.mpr (not_congr ?_))
  exact UInt64.toNat_inj.symm

lemma outcome_of_find?_some (hfirst : 8 ≤ first.payload.length)
    (hc : rest.find? (fun x => ¬Fits first.width x) = some c) :
    outcome (first :: rest) j = .error (misfit first.width c) :=
  outcome_of_error (conjoin_of_find?_some (hides_plaintext hfirst) hc)

/-- If the first condition is too short, then the second one decides the refusal. -/
lemma outcome_of_short (hfirst : first.payload.length < 8) :
    outcome (first :: next :: rest) j = .error (misfit first.width next) :=
  outcome_of_error (conjoin_cons_of_error (combine_of_short hfirst))

lemma outcome_singleton :
    outcome [c] j = if c.payload.length < 8 then .error tooShort else .ok (plaintext c ≠ 0) := by
  split
  · have hvalue : value c = .error tooShort := if_pos ‹_›
    refine (outcome_of_ok rfl).trans ?_
    rw [hvalue]
    rfl
  · exact outcome_of_fits (Nat.not_lt.mp ‹_›) (List.forall_mem_nil _)

end Conjoin

/-! ## Spoiled conjunctions -/

/-- A ciphertext at a position after the first one cannot be taken into the conjunction, be it for
its own sake or, if it is the second one, for that of the first one. -/
def Spoils (first : Ciphertext) (i : Nat) (c : Ciphertext) : Prop :=
  c.width ≠ first.width ∨ c.payload.length < 8 ∨ i = 1 ∧ first.payload.length < 8

instance (first : Ciphertext) (i : Nat) (c : Ciphertext) : Decidable (Spoils first i c) :=
  inferInstanceAs (Decidable
    (c.width ≠ first.width ∨ c.payload.length < 8 ∨ i = 1 ∧ first.payload.length < 8))

section Spoiled

variable {first c : Ciphertext} {rest conditions : List Ciphertext} {i : Nat} {j : Journal}
  {b : Bool}

lemma spoils_of_not_fits (h : ¬Fits first.width c) : Spoils first i c := by
  by_cases hw : c.width = first.width
  · exact .inr (.inl (Nat.not_le.mp fun hlen => h ⟨hw, hlen⟩))
  · exact .inl hw

lemma not_fits_of_spoils (hfirst : 8 ≤ first.payload.length) (h : Spoils first i c) :
    ¬Fits first.width c := by
  rintro ⟨hw, hlen⟩
  rcases h with h | h | ⟨-, h⟩
  · exact h hw
  · exact Nat.not_lt.mpr hlen h
  · exact Nat.not_lt.mpr hfirst h

/-- The first ciphertext that spoils the conjunction decides the refusal. -/
lemma outcome_of_spoils (hpos : 1 ≤ i) (hc : (first :: rest)[i]? = some c)
    (hspoils : Spoils first i c)
    (hleast : ∀ k x, 1 ≤ k → k < i → (first :: rest)[k]? = some x → ¬Spoils first k x) :
    outcome (first :: rest) j = .error (misfit first.width c) := by
  obtain ⟨i, rfl⟩ := Nat.exists_eq_add_of_le' hpos
  rw [List.getElem?_cons_succ] at hc
  obtain ⟨hi, rfl⟩ := List.getElem?_eq_some_iff.mp hc
  by_cases hfirst : first.payload.length < 8
  · -- Already the second condition spoils it, so that it is the one meant.
    cases rest with
    | nil => simp at hi
    | cons next rest =>
        obtain rfl : i = 0 := by
          by_contra hne
          exact hleast 1 next le_rfl (by omega) rfl (.inr (.inr ⟨rfl, hfirst⟩))
        exact outcome_of_short hfirst
  · rw [Nat.not_lt] at hfirst
    refine outcome_of_find?_some hfirst (List.find?_eq_some_iff_getElem.mpr ?_)
    refine ⟨by simpa using not_fits_of_spoils hfirst hspoils, i, hi, rfl, fun k hk => ?_⟩
    have hbefore := hleast (k + 1) rest[k] (by omega) (by omega) (by simp)
    simpa using mt spoils_of_not_fits hbefore

/-- Without such a ciphertext, the outcome is whether the conjunction of the plaintexts has a
bit. -/
lemma outcome_of_not_spoils (hrest : rest ≠ [])
    (h : ∀ k x, 1 ≤ k → (first :: rest)[k]? = some x → ¬Spoils first k x) :
    outcome (first :: rest) j = .ok (conjunction (plaintext first) rest ≠ 0) := by
  obtain ⟨next, rest, rfl⟩ := List.exists_cons_of_ne_nil hrest
  have hfirst : ¬first.payload.length < 8 := fun hlen =>
    h 1 next le_rfl rfl (.inr (.inr ⟨rfl, hlen⟩))
  refine outcome_of_fits (Nat.not_lt.mp hfirst) fun x hx => ?_
  obtain ⟨k, hk⟩ := List.mem_iff_getElem?.mp hx
  exact not_not.mp (mt spoils_of_not_fits (h (k + 1) x (by omega) hk))

/-! ## What does not depend on the order -/

lemma ok_decide_eq_iff {p : Prop} [Decidable p] :
    (.ok (decide p) : Except EngineError Bool) = .ok b ↔ (b = true ↔ p) := by
  cases b <;> simp

/-- There is a refusal unless all conditions fit each other.  If they do, then the outcome is
positive if and only if there is a bit that all plaintexts have. -/
theorem outcome_eq_ok_iff :
    outcome conditions j = .ok b ↔
      (∃ w, ∀ c ∈ conditions, Fits w c) ∧
        (b = true ↔ ∃ k, ∀ c ∈ conditions, (plaintext c).testBit k) := by
  cases conditions with
  | nil =>
      have hfits : ∃ w, ∀ c ∈ ([] : List Ciphertext), Fits w c := ⟨.euint4, List.forall_mem_nil _⟩
      have hbit : ∃ k, ∀ c ∈ ([] : List Ciphertext), (plaintext c).testBit k :=
        ⟨0, List.forall_mem_nil _⟩
      have houtcome : outcome [] j = .ok (decide True) := rfl
      rw [houtcome, ok_decide_eq_iff, and_iff_right hfits, iff_true_intro hbit]
  | cons first rest =>
      by_cases hfirst : 8 ≤ first.payload.length
      · cases hc : rest.find? (fun x => ¬Fits first.width x) with
        | none =>
            have hrest : ∀ x ∈ rest, Fits first.width x := by simpa using hc
            have hfits : ∃ w, ∀ c ∈ first :: rest, Fits w c :=
              ⟨first.width, List.forall_mem_cons.mpr ⟨⟨rfl, hfirst⟩, hrest⟩⟩
            have hbit : conjunction (plaintext first) rest ≠ 0 ↔
                ∃ k, ∀ c ∈ first :: rest, (plaintext c).testBit k := by
              simp only [ne_zero_iff_testBit, testBit_conjunction, List.forall_mem_cons]
            rw [outcome_of_fits hfirst hrest, ok_decide_eq_iff, and_iff_right hfits, hbit]
        | some c =>
            rw [outcome_of_find?_some hfirst hc]
            refine iff_of_false nofun ?_
            rintro ⟨⟨w, hw⟩, -⟩
            obtain ⟨hwfirst, hwrest⟩ := List.forall_mem_cons.mp hw
            have hnot : ¬Fits first.width c := by simpa using List.find?_some hc
            exact hnot (hwfirst.1 ▸ hwrest c (List.mem_of_find?_eq_some hc))
      · -- A first condition that is too short fits no width, and is refused sooner or later.
        have hshort : first.payload.length < 8 := Nat.not_le.mp hfirst
        have hrefused : ∃ cause, outcome (first :: rest) j = .error cause := by
          cases rest with
          | nil => exact ⟨_, outcome_singleton.trans (if_pos hshort)⟩
          | cons next rest => exact ⟨_, outcome_of_short hshort⟩
        obtain ⟨cause, hcause⟩ := hrefused
        rw [hcause]
        refine iff_of_false nofun ?_
        rintro ⟨⟨w, hw⟩, -⟩
        exact hfirst (List.forall_mem_cons.mp hw).1.2

lemma outcome_perm {conditions' : List Ciphertext} (hperm : conditions'.Perm conditions)
    (h : outcome conditions j = .ok b) : outcome conditions' j = .ok b := by
  simp only [outcome_eq_ok_iff, hperm.mem_iff] at h ⊢
  exact h

lemma ne_zero_of_outcome (h : outcome conditions j = .ok true) (hc : c ∈ conditions) :
    plaintext c ≠ 0 := by
  obtain ⟨k, hk⟩ := (outcome_eq_ok_iff.mp h).2.mp rfl
  exact ne_zero_iff_testBit.mpr ⟨k, hk c hc⟩

/-- Of truth values, all have to be true. -/
lemma outcome_of_le_one (h : outcome conditions j = .ok b)
    (hle : ∀ c ∈ conditions, plaintext c ≤ 1) :
    b = true ↔ ∀ c ∈ conditions, plaintext c = 1 := by
  constructor
  · rintro rfl c hc
    exact Nat.le_antisymm (hle c hc) (Nat.one_le_iff_ne_zero.mpr (ne_zero_of_outcome h hc))
  · intro hone
    refine (outcome_eq_ok_iff.mp h).2.mpr ⟨0, fun c hc => ?_⟩
    rw [hone c hc]
    rfl

end Spoiled

/-! ## The main statement -/

/-- **What comes of a conjunction.**  Without conditions the outcome is positive.  A single
condition is read and compared with 0.  If there are several, then the first one after the beginning
that spoils the conjunction decides the refusal: for its width if it differs from that of the first
condition, and else for a payload that is too short.  If there is none, then the outcome is whether
the bitwise conjunction of the plaintexts is different from 0.

Hence an outcome that is not a refusal does not depend on the order of the conditions; it is
positive only if no plaintext is 0; and if all plaintexts are truth values, it is positive if and
only if all of them are 1. -/
theorem conjunction_decides (j : Journal) :
    outcome [] j = .ok true ∧
    (∀ c, outcome [c] j =
      if c.payload.length < 8 then .error tooShort else .ok (plaintext c ≠ 0)) ∧
    (∀ first rest, rest ≠ [] →
      (∀ i c, 1 ≤ i → (first :: rest)[i]? = some c → Spoils first i c →
        (∀ k x, 1 ≤ k → k < i → (first :: rest)[k]? = some x → ¬Spoils first k x) →
        outcome (first :: rest) j =
          .error (if c.width ≠ first.width then .widthMismatch first.width c.width
            else tooShort)) ∧
      ((∀ k x, 1 ≤ k → (first :: rest)[k]? = some x → ¬Spoils first k x) →
        outcome (first :: rest) j =
          .ok (rest.foldl (fun a c => a &&& plaintext c) (plaintext first) ≠ 0))) ∧
    (∀ conditions conditions' b, conditions'.Perm conditions →
      outcome conditions j = .ok b → outcome conditions' j = .ok b) ∧
    (∀ conditions, outcome conditions j = .ok true → ∀ c ∈ conditions, plaintext c ≠ 0) ∧
    ∀ conditions b, outcome conditions j = .ok b → (∀ c ∈ conditions, plaintext c ≤ 1) →
      (b = true ↔ ∀ c ∈ conditions, plaintext c = 1) :=
  ⟨rfl, fun _ => outcome_singleton,
    fun _ _ hrest => ⟨fun _ _ => outcome_of_spoils, outcome_of_not_spoils hrest⟩,
    fun _ _ _ => outcome_perm, fun _ h _ => ne_zero_of_outcome h,
    fun _ _ => outcome_of_le_one⟩

/-- The third condition is too short, which is found out before the width of the fourth one is
looked at.  Without these two, the plaintexts 3 and 6 have a bit in common, in either order. -/
theorem spoiled_by_third :
    outcome [encode 3 .euint8, encode 6 .euint8, ⟨.euint8, []⟩, encode 1 .euint16] {} =
        .error tooShort ∧
      outcome [encode 3 .euint8, encode 6 .euint8] {} = .ok true ∧
      outcome [encode 6 .euint8, encode 3 .euint8] {} = .ok true := by
  obtain ⟨-, -, hseveral, hperm, -⟩ := conjunction_decides {}
  have hsecond : ¬Spoils (encode 3 .euint8) 1 (encode 6 .euint8) := by decide
  have hthird : Spoils (encode 3 .euint8) 2 ⟨.euint8, []⟩ := by decide
  have hrefused : outcome
      [encode 3 .euint8, encode 6 .euint8, ⟨.euint8, []⟩, encode 1 .euint16] {} =
        .error tooShort := by
    refine (hseveral _ _ (by simp)).1 2 ⟨.euint8, []⟩ (by decide) rfl hthird ?_
    intro k x hpos hk hx
    obtain rfl : k = 1 := by omega
    exact Option.some.inj hx ▸ hsecond
  have hboth : outcome [encode 3 .euint8, encode 6 .euint8] {} = .ok true := by
    refine (hseveral _ _ (by simp)).2 fun k x hpos hx => ?_
    obtain ⟨hk, -⟩ := List.getElem?_eq_some_iff.mp hx
    obtain rfl : k = 1 := by
      simp only [List.length_cons, List.length_nil] at hk
      omega
    exact Option.some.inj hx ▸ hsecond
  exact ⟨hrefused, hboth, hperm _ _ _ (.swap _ _ _) hboth⟩

end CipherCalls.Clear
