/-
# The Keccak permutation

The state is a five by five square of 64-bit lanes, kept as five rows of five lanes.  A round is
the composition of four maps, each of which is defined on its own:

* `State.theta` adds to every lane the parities of two neighbouring columns;
* `State.rhoPi` rotates every lane by its own amount and moves it to its new place;
* `State.chi` combines every lane with the two lanes to its right, row by row;
* `State.iota` adds the round constant to the first lane.

The permutation is the sequence of the 24 rounds.
-/

namespace CipherCalls.Keccak

/-- A 64-bit lane rotated to the left by `n` places, for `0 < n < 64`. -/
def rotate (w n : UInt64) : UInt64 := (w <<< n) ||| (w >>> (64 - n))

/-- Five lanes side by side. -/
structure Row where
  a : UInt64
  b : UInt64
  c : UInt64
  d : UInt64
  e : UInt64
deriving DecidableEq

namespace Row

/-- The row of zero lanes. -/
def zero : Row := ⟨0, 0, 0, 0, 0⟩

/-- Two rows added lane by lane. -/
def xor (r s : Row) : Row :=
  ⟨r.a ^^^ s.a, r.b ^^^ s.b, r.c ^^^ s.c, r.d ^^^ s.d, r.e ^^^ s.e⟩

/-- For every column, the sum of the column to its left and of the column to its right turned by
one place. -/
def neighbours (p : Row) : Row :=
  ⟨p.e ^^^ rotate p.b 1, p.a ^^^ rotate p.c 1, p.b ^^^ rotate p.d 1, p.c ^^^ rotate p.e 1,
    p.d ^^^ rotate p.a 1⟩

/-- Every lane combined with the two lanes to its right, the row being closed to a ring. -/
def chi (r : Row) : Row :=
  ⟨r.a ^^^ (~~~r.b &&& r.c), r.b ^^^ (~~~r.c &&& r.d), r.c ^^^ (~~~r.d &&& r.e),
    r.d ^^^ (~~~r.e &&& r.a), r.e ^^^ (~~~r.a &&& r.b)⟩

end Row

/-- Five rows, one below the other. -/
structure State where
  v : Row
  w : Row
  x : Row
  y : Row
  z : Row
deriving DecidableEq

namespace State

/-- The state of zero lanes. -/
def zero : State := ⟨.zero, .zero, .zero, .zero, .zero⟩

/-- A map of rows applied to every row. -/
def map (f : Row → Row) (s : State) : State := ⟨f s.v, f s.w, f s.x, f s.y, f s.z⟩

/-- Two states added lane by lane. -/
def xor (s t : State) : State :=
  ⟨s.v.xor t.v, s.w.xor t.w, s.x.xor t.x, s.y.xor t.y, s.z.xor t.z⟩

/-- The sum of every column. -/
def parity (s : State) : Row := s.v.xor (s.w.xor (s.x.xor (s.y.xor s.z)))

/-- The parities of the two neighbouring columns are added to every lane. -/
def theta (s : State) : State :=
  let change := s.parity.neighbours
  s.map (·.xor change)

/-- Every lane is rotated by its own amount and moved to its new place. -/
def rhoPi (s : State) : State where
  v := ⟨s.v.a, rotate s.w.b 44, rotate s.x.c 43, rotate s.y.d 21, rotate s.z.e 14⟩
  w := ⟨rotate s.v.d 28, rotate s.w.e 20, rotate s.x.a 3, rotate s.y.b 45, rotate s.z.c 61⟩
  x := ⟨rotate s.v.b 1, rotate s.w.c 6, rotate s.x.d 25, rotate s.y.e 8, rotate s.z.a 18⟩
  y := ⟨rotate s.v.e 27, rotate s.w.a 36, rotate s.x.b 10, rotate s.y.c 15, rotate s.z.d 56⟩
  z := ⟨rotate s.v.c 62, rotate s.w.d 55, rotate s.x.e 39, rotate s.y.a 41, rotate s.z.b 2⟩

/-- Every row is combined with itself. -/
def chi (s : State) : State := s.map Row.chi

/-- A constant is added to the first lane. -/
def iota (k : UInt64) (s : State) : State := { s with v := { s.v with a := s.v.a ^^^ k } }

/-- One round, with its constant. -/
def round (s : State) (k : UInt64) : State := s.theta.rhoPi.chi.iota k

end State

/-- The constants of the 24 rounds. -/
def roundConstants : List UInt64 :=
  [0x0000000000000001, 0x0000000000008082, 0x800000000000808A, 0x8000000080008000,
   0x000000000000808B, 0x0000000080000001, 0x8000000080008081, 0x8000000000008009,
   0x000000000000008A, 0x0000000000000088, 0x0000000080008009, 0x000000008000000A,
   0x000000008000808B, 0x800000000000008B, 0x8000000000008089, 0x8000000000008003,
   0x8000000000008002, 0x8000000000000080, 0x000000000000800A, 0x800000008000000A,
   0x8000000080008081, 0x8000000000008080, 0x0000000080000001, 0x8000000080008008]

/-- The 24 rounds in order. -/
def State.permute (s : State) : State := roundConstants.foldl State.round s

end CipherCalls.Keccak
