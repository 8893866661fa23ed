
namespace Volley

inductive Clock
  | fixed (seconds : Int64)
  | monotone (latest : Int64)
  deriving Repr, DecidableEq

namespace Clock

def start : Clock := .monotone 0

def read (c : Clock) (reading : Int64) : Int64 × Clock :=
  match c with
  | .fixed seconds => (seconds, c)
  | .monotone latest =>
    let now := max latest reading
    (now, .monotone now)

theorem read_monotone (latest reading : Int64) :
    (Clock.monotone latest).read reading = (max latest reading, .monotone (max latest reading)) :=
  rfl

end Clock

end Volley
