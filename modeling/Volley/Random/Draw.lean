import Volley.Numeral
import Volley.Random.Keystream

/-!
A word is accepted for a draw below `n` when the low half of its product with `n` does not pass the
zone; the high half is then the result.
-/

namespace Volley

/-- Where random words come from: the stream of a seed, or given words over and over. -/
inductive WordSource
  | keystream (stream : Keystream)
  | cycle (words : List UInt64) (rest : List UInt64)
  deriving Repr, DecidableEq

namespace WordSource

def ofSeed (seed : UInt64) : WordSource := .keystream (.ofSeed seed)

def ofWords (words : List UInt64) : WordSource := .cycle words words

/-- The next word of 64 bits; a seeded stream joins two words, the low half first. -/
def next64 : WordSource → UInt64 × WordSource
  | .keystream s =>
    let (low, s) := s.next
    let (high, s) := s.next
    (low.toUInt64 ||| (high.toUInt64 <<< 32), .keystream s)
  | .cycle words (w :: rest) => (w, .cycle words rest)
  | .cycle words [] =>
    match words with
    | w :: rest => (w, .cycle words rest)
    | [] => (0, .cycle [] [])

def next32 : WordSource → UInt32 × WordSource
  | .keystream s =>
    let (w, s) := s.next
    (w, .keystream s)
  | source =>
    let (w, source) := source.next64
    -- Of a given word the low half counts.
    (w.toUInt32, source)

end WordSource

inductive WordWidth
  | half
  | full
  deriving Repr, DecidableEq

def WordWidth.bits : WordWidth → Nat
  | .half => 32
  | .full => 64

def WordWidth.ofCount (n : Nat) : WordWidth := if n < 2 ^ 32 then .half else .full

def WordSource.next (source : WordSource) : WordWidth → Nat × WordSource
  | .half =>
    let (w, source) := source.next32
    (w.toNat, source)
  | .full =>
    let (w, source) := source.next64
    (w.toNat, source)

/-- A computation that consumes random words. It has no result when a draw keeps rejecting words. -/
abbrev Draw := StateT WordSource Option

namespace Draw

/-- The greatest low half with which a word is accepted: `n`, shifted until its top bit is the top
bit of a word, less one. -/
def zone (bits n : Nat) : Nat := n * 2 ^ (bits - 1 - n.log2) - 1

def accept? (bits n word : Nat) : Option Nat :=
  if word * n % 2 ^ bits ≤ zone bits n then some (word * n / 2 ^ bits) else none

def belowWithin (width : WordWidth) (n : Nat) : Nat → Draw Nat
  | 0 => fun _ => none
  | attempts + 1 => fun source =>
    let (word, source) := source.next width
    match accept? width.bits n word with
    | some i => some (i, source)
    | none => belowWithin width n attempts source

/-- After so many words a source has come round, and a draw that rejected them all is endless. There
are sixteen words in each of the `2 ^ 64` blocks of a stream. -/
def attemptLimit : WordSource → Nat
  | .keystream s => s.pending.length + 2 ^ 68
  | .cycle words rest => rest.length + words.length + 1

def below (width : WordWidth) (n : Nat) : Draw Nat :=
  fun source => belowWithin width n (attemptLimit source) source

def choose {α : Type} (width : WordWidth) (items : List α) : Draw α := do
  let i ← below width items.length
  match items[i]? with
  | some item => return item
  | none => fun _ => none

end Draw

/-- A draw that can break down with a message. -/
abbrev Making := ExceptT String Draw

end Volley
