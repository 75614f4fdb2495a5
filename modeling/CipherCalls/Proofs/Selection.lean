/-
# Finding the method of a call

The nine selectors are different, so a call that starts with the selector of a method is
dispatched to that method, with everything behind the selector, up to the declared length, as its
payload.  Any other input lacks a selector, or has an unknown one.
-/
import Mathlib
import CipherCalls.Bytes.Lemmas
import CipherCalls.Dispatch

namespace CipherCalls

@[simp] lemma length_selectorBytes (selector : UInt32) : (selectorBytes selector).length = 4 := by
  simp [selectorBytes]

/-- The bytes of a selector are read back as the selector. -/
lemma ofNat_toNatBE_selectorBytes (selector : UInt32) :
    UInt32.ofNat (Bytes.toNatBE (selectorBytes selector)) = selector := by
  have hlt : selector.toNat < 256 ^ 4 := selector.toNat_lt
  rw [selectorBytes, Bytes.toNatBE_ofNatBE, Nat.mod_eq_of_lt hlt, UInt32.ofNat_toNat]

namespace Method

/-- The selectors of the methods, in the order in which the methods are listed. -/
lemma map_selector_all : all.map selector =
    [0xF953E427, 0x8C14CC21, 0x666A3588, 0x4BE68D20, 0x5A4EE440, 0xD9D47BB0, 0xE71746B8, 0x4EE071A1,
      0x0425FBC1] := by
  decide +kernel

/-- The selectors of the methods are different from each other. -/
theorem nodup_selectors : (all.map selector).Nodup := by
  rw [map_selector_all]
  decide

lemma selector_injective {m m' : Method} (h : m.selector = m'.selector) : m = m' :=
  List.inj_on_of_nodup_map nodup_selectors (mem_all m) (mem_all m') h

/-- A method is found by its selector. -/
lemma ofSelector?_selector (m : Method) : ofSelector? m.selector = some m := by
  have hmem : (m.selector, m) ∈ table := List.mem_map_of_mem (mem_all m)
  rw [ofSelector?, Option.map_eq_some_iff]
  cases hf : table.find? (·.1 = m.selector) with
  | none =>
      have hne := List.find?_eq_none.mp hf _ hmem
      simp at hne
  | some entry =>
      -- Whatever method is found has the same selector, and therefore is this one.
      obtain ⟨m', -, rfl⟩ := List.mem_map.mp (List.mem_of_find?_eq_some hf)
      have hselector : m'.selector = m.selector := by simpa using List.find?_some hf
      exact ⟨_, rfl, selector_injective hselector⟩

/-- What follows the selector, cut to the declared length, is the payload. -/
@[simp] lemma payload_selectorBytes (m : Method) (selector : UInt32) (rest : Bytes) :
    m.payload (selectorBytes selector ++ rest) = rest.take m.payloadLength := by
  rw [payload, List.drop_left' (length_selectorBytes selector)]

end Method

/-- A call is dispatched to the method whose selector it starts with. -/
@[simp] theorem dispatch_selectorBytes (m : Method) (rest : Bytes) :
    dispatch (selectorBytes m.selector ++ rest) = .ok m := by
  have hlen : ¬(selectorBytes m.selector ++ rest).length < 4 := by simp
  rw [dispatch, if_neg hlen, List.take_left' (length_selectorBytes _)]
  simp only [ofNat_toNatBE_selectorBytes, Method.ofSelector?_selector]

/-- An input without a method lacks a selector, or has an unknown one. -/
lemma dispatch_eq_error {input : Bytes} {cause : CallError} (h : dispatch input = .error cause) :
    (∃ n, cause = .missingSelector n) ∨ ∃ selector, cause = .unknownSelector selector := by
  rw [dispatch] at h
  split at h
  · cases h
    exact .inl ⟨_, rfl⟩
  · dsimp only at h
    split at h <;> cases h
    exact .inr ⟨_, rfl⟩

section EncodeCall

variable (m : Method) (parts : List Bytes)

lemma encodeCall_signature :
    encodeCall m.signature parts = selectorBytes m.selector ++ parts.flatten := rfl

@[simp] lemma dispatch_encodeCall : dispatch (encodeCall m.signature parts) = .ok m := by
  rw [encodeCall_signature, dispatch_selectorBytes]

@[simp] lemma payload_encodeCall :
    m.payload (encodeCall m.signature parts) = parts.flatten.take m.payloadLength := by
  rw [encodeCall_signature, Method.payload_selectorBytes]

/-- Running a call with the selector of a method runs the method on what follows. -/
theorem run_encodeCall (b : Backend) (s : Session) :
    run b (encodeCall m.signature parts) s =
      runMethod b (parts.flatten.take m.payloadLength) s m := by
  rw [run, dispatch_encodeCall]
  simp only [payload_encodeCall]

/-- A handle fills the payload of a method that takes nothing else. -/
lemma payload_encodeCall_handle {m : Method} (hm : m.payloadLength = 32) (h : Handle) :
    m.payload (encodeCall m.signature [h.bytes]) = h.bytes := by
  rw [payload_encodeCall, List.flatten_singleton, List.take_of_length_le]
  rw [Handle.length_bytes, hm]

end EncodeCall

end CipherCalls
