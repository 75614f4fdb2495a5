/-
# The chain of conjunctions

What an engine is asked while conditions are checked.  The first condition begins a chain, and each
further one is combined with the answer to the question before.  The chain ends with the first
answer that is an error, or else with one more question, for the plaintext of the last answer.

An engine may answer as it likes, and differently from one question to the next.  So a chain is
described together with the questions that came before it: the `i`-th question is put to an engine
that was asked the earlier ones and nothing else.
-/
import Mathlib
import CipherCalls.Engine.Clear
import CipherCalls.Engine.Failing
import CipherCalls.Requires

namespace CipherCalls

/-- The questions of a chain: each condition is combined with what there is so far. -/
def conjunctions (a : Nat → Ciphertext) (rest : List Ciphertext) : List Engine.Call :=
  rest.mapIdx fun i c => .produce (.bitAnd (a i) c)

/-- The first `k` questions of a chain are answered, each with what the next one begins with. -/
def Chained (e : Engine) (past : List Engine.Call) (a : Nat → Ciphertext) (rest : List Ciphertext)
    (k : Nat) : Prop :=
  ∀ i (hi : i < rest.length), i < k →
    e.produce (past ++ (conjunctions a rest).take i) (.bitAnd (a i) rest[i]) = .ok (a (i + 1))

section Chains

variable {e : Engine} {past : List Engine.Call} {a : Nat → Ciphertext} {first next : Ciphertext}
  {rest : List Ciphertext} {k : Nat}

lemma conjunctions_cons (a : Nat → Ciphertext) (next : Ciphertext) (rest : List Ciphertext) :
    conjunctions a (next :: rest) =
      .produce (.bitAnd (a 0) next) :: conjunctions (fun i => a (i + 1)) rest := by
  rw [conjunctions, List.mapIdx_cons]
  rfl

lemma take_succ_conjunctions_cons (past : List Engine.Call) (a : Nat → Ciphertext)
    (next : Ciphertext) (rest : List Ciphertext) (k : Nat) :
    past ++ (conjunctions a (next :: rest)).take (k + 1) =
      past ++ [.produce (.bitAnd (a 0) next)] ++
        (conjunctions (fun i => a (i + 1)) rest).take k := by
  rw [conjunctions_cons, List.take_succ_cons, List.append_assoc, List.singleton_append]

/-- No question has to be answered for a chain to begin. -/
lemma chained_zero : Chained e past a rest 0 := fun i _ hi => absurd hi (Nat.not_lt_zero i)

/-- A chain goes on as a chain from the answer to its first question. -/
lemma Chained.cons (hanswer : e.produce past (.bitAnd (a 0) next) = .ok (a 1))
    (h : Chained e (past ++ [.produce (.bitAnd (a 0) next)]) (fun i => a (i + 1)) rest k) :
    Chained e past a (next :: rest) (k + 1) := by
  intro i hi hik
  cases i with
  | zero => simpa using hanswer
  | succ i =>
      rw [take_succ_conjunctions_cons]
      exact h i (Nat.lt_of_succ_lt_succ hi) (Nat.lt_of_succ_lt_succ hik)

end Chains

/-! ## How a chain ends -/

section Ends

variable (e : Engine)

/-- The chain breaks at question `k`: this one is refused, and it is the last one. -/
structure Breaks (past : List Engine.Call) (a : Nat → Ciphertext) (rest : List Ciphertext)
    (k : Nat) (cause : EngineError) (asked : List Engine.Call) : Prop where
  chained : Chained e past a rest k
  refused : ∃ next, rest[k]? = some next ∧
    e.produce (past ++ (conjunctions a rest).take k) (.bitAnd (a k) next) = .error cause
  asked_eq : asked = past ++ (conjunctions a rest).take (k + 1)

/-- The chain holds: all its questions are answered. -/
structure Holds (past : List Engine.Call) (a : Nat → Ciphertext) (rest : List Ciphertext)
    (asked : List Engine.Call) : Prop where
  chained : Chained e past a rest rest.length
  asked_eq : asked = past ++ conjunctions a rest

variable {e} {past asked : List Engine.Call} {a : Nat → Ciphertext} {next : Ciphertext}
  {rest : List Ciphertext} {k : Nat} {cause : EngineError}

lemma Breaks.cons (hanswer : e.produce past (.bitAnd (a 0) next) = .ok (a 1))
    (h : Breaks e (past ++ [.produce (.bitAnd (a 0) next)]) (fun i => a (i + 1)) rest k cause
      asked) :
    Breaks e past a (next :: rest) (k + 1) cause asked where
  chained := h.chained.cons hanswer
  refused := by
    obtain ⟨last, hlast, hrefused⟩ := h.refused
    rw [take_succ_conjunctions_cons]
    exact ⟨last, hlast, hrefused⟩
  asked_eq := by
    rw [take_succ_conjunctions_cons]
    exact h.asked_eq

lemma Holds.cons (hanswer : e.produce past (.bitAnd (a 0) next) = .ok (a 1))
    (h : Holds e (past ++ [.produce (.bitAnd (a 0) next)]) (fun i => a (i + 1)) rest asked) :
    Holds e past a (next :: rest) asked where
  chained := h.chained.cons hanswer
  asked_eq := by
    rw [h.asked_eq, conjunctions_cons, List.append_assoc, List.singleton_append]

/-- A conjunction is a chain that breaks, or one that holds and whose last answer is returned. -/
lemma conjoin_chain (e : Engine) (first : Ciphertext) (rest : List Ciphertext) (j : Journal) :
    ∃ a, a 0 = first ∧
      ((∃ k cause, Breaks e j.calls a rest k cause (conjoin e first rest j).2.calls ∧
          (conjoin e first rest j).1 = .error cause) ∨
        (Holds e j.calls a rest (conjoin e first rest j).2.calls ∧
          (conjoin e first rest j).1 = .ok (a rest.length))) := by
  induction rest generalizing first j with
  | nil =>
      refine ⟨fun _ => first, rfl, .inr ⟨⟨?_, ?_⟩, rfl⟩⟩
      · exact chained_zero
      · exact (List.append_nil _).symm
  | cons next rest ih =>
      cases hanswer : e.produce j.calls (.bitAnd first next) with
      | error cause =>
          have hconjoin : conjoin e first (next :: rest) j =
              (.error cause,
                (j.produce e (.bitAnd first next)).2.log (.conjunctionFailed cause)) := by
            simp only [conjoin, Journal.produce, hanswer]
          rw [hconjoin]
          refine ⟨fun _ => first, rfl, .inl ⟨0, cause, ⟨chained_zero, ?_, ?_⟩, rfl⟩⟩
          · exact ⟨next, rfl, by simpa using hanswer⟩
          · rw [take_succ_conjunctions_cons, List.take_zero, List.append_nil]
            rfl
      | ok both =>
          have hconjoin : conjoin e first (next :: rest) j =
              conjoin e both rest (j.produce e (.bitAnd first next)).2 := by
            simp only [conjoin, Journal.produce, hanswer]
          rw [hconjoin]
          -- The chain from the answer is put behind the first question.
          obtain ⟨a, rfl, hends⟩ := ih both (j.produce e (.bitAnd first next)).2
          refine ⟨fun i => i.casesOn first a, rfl, ?_⟩
          rcases hends with ⟨k, cause, hbreaks, hresult⟩ | ⟨hholds, hresult⟩
          · exact .inl ⟨k + 1, cause, hbreaks.cons hanswer, hresult⟩
          · exact .inr ⟨hholds.cons hanswer, hresult⟩

end Ends

/-! ## The list of requirements -/

lemma foldl_push (r : Requires) (later : List Ciphertext) :
    later.foldl Requires.push r = ⟨r.conditions ++ later⟩ := by
  induction later generalizing r with
  | nil => simp
  | cons c later ih =>
      rw [List.foldl_cons, ih, Requires.push, List.append_assoc, List.singleton_append]

/-! ## The main statement -/

/-- **What is asked while requirements are checked**, whatever the engine answers.  Without
requirements it is asked nothing, and the outcome is positive.  Otherwise there is a chain from the
first requirement through all others, in their order.  If it breaks, then the error that broke it is
the outcome, and no further question is put.  If it holds, then exactly one more question is put,
for the plaintext of what the chain has come to; the outcome is the error to which this leads, or
whether the plaintext is different from 0.

In all cases no requirements are left, neither after they were checked nor after they were only
taken.  What is stated afterwards stands alone. -/
theorem evaluation_follows_chain (e : Engine) (j : Journal) :
    ((Requires.empty.evaluate e j).1 = .ok true ∧ (Requires.empty.evaluate e j).2.2 = j) ∧
    (∀ first rest, ∃ a, a 0 = first ∧
      ((∃ k cause,
          Breaks e j.calls a rest k cause (Requires.evaluate e ⟨first :: rest⟩ j).2.2.calls ∧
          (Requires.evaluate e ⟨first :: rest⟩ j).1 = .error cause) ∨
        ∃ asked, Holds e j.calls a rest asked ∧
          (Requires.evaluate e ⟨first :: rest⟩ j).2.2.calls = asked ++ [.decrypt (a rest.length)] ∧
          (Requires.evaluate e ⟨first :: rest⟩ j).1 =
            (e.decrypt asked (a rest.length)).map fun value => decide (value ≠ 0))) ∧
    ∀ r : Requires, (r.evaluate e j).2.1 = .empty ∧ r.take = (r.conditions, .empty) ∧
      ∀ later : List Ciphertext, (later.foldl Requires.push r.take.2).take.1 = later := by
  refine ⟨⟨rfl, rfl⟩, fun first rest => ?_, fun r => ⟨rfl, rfl, fun later => ?_⟩⟩
  · obtain ⟨a, hfirst, hends⟩ := conjoin_chain e first rest j
    refine ⟨a, hfirst, ?_⟩
    simp only [Requires.evaluate, Requires.take, evaluateConditions]
    generalize conjoin e first rest j = o at hends ⊢
    obtain ⟨result, j'⟩ := o
    rcases hends with ⟨k, cause, hbreaks, hresult⟩ | ⟨hholds, hresult⟩
    · obtain rfl : result = .error cause := hresult
      exact .inl ⟨k, cause, hbreaks, rfl⟩
    · obtain rfl : result = .ok (a rest.length) := hresult
      refine .inr ⟨j'.calls, hholds, ?_⟩
      simp only [Journal.decrypt]
      cases e.decrypt j'.calls (a rest.length) <;> exact ⟨rfl, rfl⟩
  · exact congrArg Requires.conditions (foldl_push .empty later)

/-- An engine that gives out after one conjunction is asked for a second one, and nothing more. -/
example :
    (Requires.evaluate (Clear.engine.failing ⟨"bitand", 1, fun _ => .other "down"⟩)
      ⟨List.replicate 4 (Clear.encode 1 .euint8)⟩ {}).2.2.calls =
        List.replicate 2
          (.produce (.bitAnd (Clear.encode 1 .euint8) (Clear.encode 1 .euint8))) := by
  decide +kernel

end CipherCalls
