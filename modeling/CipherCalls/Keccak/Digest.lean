/-
# The Keccak-256 digest

A message is completed to whole blocks of 136 bytes by a byte `01`, zero bytes and a final bit
`80`; the blocks are added one after the other to the front of the state, which is permuted after
each of them; the digest is the first 32 bytes of the last state.
-/
import CipherCalls.Word
import CipherCalls.Keccak.Permutation

namespace CipherCalls.Keccak

/-- The number of bytes a block adds to the state. -/
def rate : Nat := 136

/-- The `i`-th group of eight bytes as a lane, least significant byte first.  Bytes beyond the end
of the string count as zero. -/
def lane (bs : Bytes) (i : Nat) : UInt64 :=
  UInt64.ofNat (Bytes.toNatLE ((bs.drop (8 * i)).take 8))

/-- The row written by the first 40 bytes of a string. -/
def Row.ofBytes (bs : Bytes) : Row := ⟨lane bs 0, lane bs 1, lane bs 2, lane bs 3, lane bs 4⟩

/-- The state written by a string of at most 200 bytes. -/
def State.ofBytes (bs : Bytes) : State :=
  ⟨.ofBytes bs, .ofBytes (bs.drop 40), .ofBytes (bs.drop 80), .ofBytes (bs.drop 120),
    .ofBytes (bs.drop 160)⟩

/-- A message completed to whole blocks.  When a single byte is missing, it carries both marks. -/
def pad (message : Bytes) : Bytes :=
  let gap := rate - message.length % rate
  if gap = 1 then message ++ [0x81]
  else message ++ 0x01 :: (List.replicate (gap - 2) 0 ++ [0x80])

/-- The state after `n` blocks of a padded message. -/
def absorb : Nat → State → Bytes → State
  | 0, s, _ => s
  | n + 1, s, bs => absorb n (s.xor (.ofBytes (bs.take rate))).permute (bs.drop rate)

/-- The first four lanes of a state as a word. -/
def State.front (s : State) : Word where
  bytes := Bytes.ofNatLE 8 s.v.a.toNat ++ Bytes.ofNatLE 8 s.v.b.toNat ++
    Bytes.ofNatLE 8 s.v.c.toNat ++ Bytes.ofNatLE 8 s.v.d.toNat
  length_bytes := by simp

/-- The Keccak-256 digest of a message. -/
def digest (message : Bytes) : Word :=
  let padded := pad message
  (absorb (padded.length / rate) .zero padded).front

/-- A padded message consists of whole blocks. -/
theorem length_pad_mod (message : Bytes) : (pad message).length % rate = 0 := by
  have h := Nat.mod_lt message.length (show 0 < 136 by decide)
  by_cases hg : 136 - message.length % 136 = 1
  · simp only [pad, rate, hg, if_true, List.length_append, List.length_singleton]
    omega
  · simp only [pad, rate, hg, if_false, List.length_append, List.length_cons,
      List.length_replicate, List.length_nil]
    omega

end CipherCalls.Keccak
