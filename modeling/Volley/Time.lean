
namespace Volley

structure Span where
  nanos : Nat
  deriving Repr, DecidableEq

namespace Span

def zero : Span := ⟨0⟩

def ofMicros (n : Nat) : Span := ⟨n * 1000⟩
def ofMillis (n : Nat) : Span := ⟨n * 1000000⟩
def ofSeconds (n : Nat) : Span := ⟨n * 1000000000⟩

def micros (s : Span) : Nat := s.nanos / 1000

def millis (s : Span) : Nat := s.nanos / 1000000

/-- Milliseconds, rounded up: the time at which a timer with a resolution of one millisecond is
over. -/
def ceilMillis (s : Span) : Nat := (s.nanos + 999999) / 1000000

def seconds (s : Span) : Nat := s.nanos / 1000000000

def subsecond (s : Span) : Nat := s.nanos % 1000000000

def toFloat (s : Span) : Float :=
  s.seconds.toUInt64.toFloat + s.subsecond.toUInt64.toFloat / 1000000000.0

def decimalText (whole part places : Nat) : String :=
  let digits := toString part
  let padded := List.replicate (places - digits.length) '0' ++ digits.toList
  let kept := (padded.reverse.dropWhile (· = '0')).reverse
  if kept.isEmpty then toString whole else toString whole ++ "." ++ String.ofList kept

def describe (s : Span) : String :=
  let n := s.nanos
  if 1000000000 ≤ n then decimalText (n / 1000000000) (n % 1000000000) 9 ++ "s"
  else if 1000000 ≤ n then decimalText (n / 1000000) (n % 1000000) 6 ++ "ms"
  else if 1000 ≤ n then decimalText (n / 1000) (n % 1000) 3 ++ "µs"
  else toString n ++ "ns"

end Span

end Volley
