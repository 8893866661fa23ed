/-! A seeded stream of 32-bit words: the keystream of a ChaCha cipher with twelve rounds. -/

namespace Volley.Keystream

structure Row where
  first : UInt32
  second : UInt32
  third : UInt32
  fourth : UInt32
  deriving Repr, DecidableEq

def Row.map (f : UInt32 → UInt32) (r : Row) : Row :=
  ⟨f r.first, f r.second, f r.third, f r.fourth⟩

def Row.zipWith (f : UInt32 → UInt32 → UInt32) (r s : Row) : Row :=
  ⟨f r.first s.first, f r.second s.second, f r.third s.third, f r.fourth s.fourth⟩

def Row.shift (r : Row) : Row := ⟨r.second, r.third, r.fourth, r.first⟩

def Row.toList (r : Row) : List UInt32 := [r.first, r.second, r.third, r.fourth]

structure Square where
  a : Row
  b : Row
  c : Row
  d : Row
  deriving Repr, DecidableEq

def Square.toList (s : Square) : List UInt32 :=
  s.a.toList ++ s.b.toList ++ s.c.toList ++ s.d.toList

def rotateLeft (count : UInt32) (w : UInt32) : UInt32 := (w <<< count) ||| (w >>> (32 - count))

def Square.mix (high low : UInt32) (s : Square) : Square :=
  let a := s.a.zipWith (· + ·) s.b
  let d := (s.d.zipWith (· ^^^ ·) a).map (rotateLeft high)
  let c := s.c.zipWith (· + ·) d
  let b := (s.b.zipWith (· ^^^ ·) c).map (rotateLeft low)
  ⟨a, b, c, d⟩

def Square.columnRound (s : Square) : Square := (s.mix 16 12).mix 8 7

def Square.diagonalRound (s : Square) : Square :=
  let t := Square.columnRound ⟨s.a, s.b.shift, s.c.shift.shift, s.d.shift.shift.shift⟩
  ⟨t.a, t.b.shift.shift.shift, t.c.shift.shift, t.d.shift⟩

def Square.doubleRound (s : Square) : Square := s.columnRound.diagonalRound

def constants : Row := ⟨0x61707865, 0x3320646e, 0x79622d32, 0x6b206574⟩

structure Key where
  high : Row
  low : Row
  deriving Repr, DecidableEq

def block (key : Key) (number : UInt64) : List UInt32 :=
  let start : Square :=
    ⟨constants, key.high, key.low, ⟨number.toUInt32, (number >>> 32).toUInt32, 0, 0⟩⟩
  let mixed := Nat.repeat Square.doubleRound 6 start
  List.zipWith (· + ·) start.toList mixed.toList

def nextSeedState (state : UInt64) : UInt64 := state * 6364136223846793005 + 11634580027462260723

def seedWord (state : UInt64) : UInt32 :=
  let folded : UInt32 := (((state >>> 18) ^^^ state) >>> 27).toUInt32
  let count : UInt32 := (state >>> 59).toUInt32
  (folded >>> count) ||| (folded <<< ((32 - count) % 32))

def Key.ofSeed (seed : UInt64) : Key :=
  let s1 := nextSeedState seed
  let s2 := nextSeedState s1
  let s3 := nextSeedState s2
  let s4 := nextSeedState s3
  let s5 := nextSeedState s4
  let s6 := nextSeedState s5
  let s7 := nextSeedState s6
  let s8 := nextSeedState s7
  ⟨⟨seedWord s1, seedWord s2, seedWord s3, seedWord s4⟩,
    ⟨seedWord s5, seedWord s6, seedWord s7, seedWord s8⟩⟩

end Volley.Keystream

namespace Volley

/-- A position in the stream of a key: the words left of the block at hand, and the number of the
next block. -/
structure Keystream where
  key : Keystream.Key
  number : UInt64
  pending : List UInt32
  deriving Repr, DecidableEq

def Keystream.ofSeed (seed : UInt64) : Keystream := ⟨.ofSeed seed, 0, []⟩

def Keystream.next (s : Keystream) : UInt32 × Keystream :=
  match s.pending with
  | w :: rest => (w, { s with pending := rest })
  | [] =>
    match Keystream.block s.key s.number with
    | w :: rest => (w, ⟨s.key, s.number + 1, rest⟩)
    | [] => (0, ⟨s.key, s.number + 1, []⟩)

end Volley
