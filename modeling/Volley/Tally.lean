import Volley.Decimal.Binary64
import Volley.Outcome

namespace Volley

abbrev Counts (κ : Type) := List (κ × Nat)

namespace Counts

def add {κ : Type} [DecidableEq κ] (rank : κ → Nat) (k : κ) (count : Nat) : Counts κ → Counts κ
  | [] => [(k, count)]
  | (key, n) :: rest =>
    -- The keys stay in the order of their ranks.
    if key = k then (key, n + count) :: rest
    else if rank k < rank key then (k, count) :: (key, n) :: rest
    else (key, n) :: add rank k count rest

def merge {κ : Type} [DecidableEq κ] (rank : κ → Nat) (counts other : Counts κ) : Counts κ :=
  other.foldl (fun acc (k, n) => acc.add rank k n) counts

end Counts

def FailureKind.rank : FailureKind → Nat
  | .timeout => 0
  | .connect => 1
  | .request => 2
  | .serialization => 3

structure Tally where
  total : Nat
  passed : Nat
  failed : Nat
  statuses : Counts UInt16
  failures : Counts FailureKind
  latencies : List Nat
  deriving Repr, DecidableEq

namespace Tally

def empty : Tally := ⟨0, 0, 0, [], [], []⟩

def latencyOf (o : Outcome) : Nat := min o.latency.micros (2 ^ 64 - 1)

def record (t : Tally) (o : Outcome) : Tally where
  total := t.total + 1
  passed := if o.passed then t.passed + 1 else t.passed
  failed := if o.passed then t.failed else t.failed + 1
  statuses := match o.status? with
    | some status => t.statuses.add UInt16.toNat status 1
    | none => t.statuses
  failures := match o.failure? with
    | some kind => t.failures.add FailureKind.rank kind 1
    | none => t.failures
  latencies := latencyOf o :: t.latencies

def ofList (outcomes : List Outcome) : Tally := outcomes.foldl record empty

def merge (t other : Tally) : Tally where
  total := t.total + other.total
  passed := t.passed + other.passed
  failed := t.failed + other.failed
  statuses := t.statuses.merge UInt16.toNat other.statuses
  failures := t.failures.merge FailureKind.rank other.failures
  latencies := other.latencies ++ t.latencies

def passRate (t : Tally) : Float :=
  if t.total = 0 then 0.0 else t.passed.toUInt64.toFloat / t.total.toUInt64.toFloat

def rate (t : Tally) (elapsed : Span) : Float :=
  let seconds := elapsed.toFloat
  if seconds <= 0.0 then 0.0 else t.total.toUInt64.toFloat / seconds

end Tally

structure LatencySummary where
  min : Nat
  max : Nat
  mean : Nat
  p50 : Nat
  p95 : Nat
  p99 : Nat
  deriving Repr, DecidableEq

namespace LatencySummary

/-- Shares are doubles over `2 ^ 53`: one half, and those nearest to 0.95 and 0.99. -/
def half : Nat := 2 ^ 52

def ninetyFive : Nat := 8556839292003942

def ninetyNine : Nat := 8917127262193582

/-- The rank of a percentile among `count` samples: the count as a double and its product with the
share are rounded as doubles are, and the product is then rounded up. -/
def rank (share count : Nat) : Nat :=
  let product := Binary64.roundSignificant (share * Binary64.roundSignificant count)
  (product + (2 ^ 53 - 1)) / 2 ^ 53

def place (share count : Nat) : Nat := Nat.max 1 (Nat.min (rank share count) count) - 1

def percentile (share : Nat) (sorted : List Nat) : Nat :=
  sorted.getD (place share sorted.length) 0

/-- The mean without its fraction. The sum is kept in a word of 128 bits and the mean in one of 64
bits. -/
def meanOf (samples : List Nat) : Nat :=
  samples.foldl (fun sum sample => (sum + sample) % 2 ^ 128) 0 / samples.length % 2 ^ 64

def ofSamples (samples : List Nat) : Option LatencySummary :=
  match samples.mergeSort with
  | [] => none
  | least :: rest =>
    let sorted := least :: rest
    some {
      min := least
      max := rest.getLastD least
      mean := meanOf sorted
      p50 := percentile half sorted
      p95 := percentile ninetyFive sorted
      p99 := percentile ninetyNine sorted }

end LatencySummary

def Tally.latencySummary (t : Tally) : Option LatencySummary :=
  LatencySummary.ofSamples t.latencies

end Volley
