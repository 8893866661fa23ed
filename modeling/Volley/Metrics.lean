import Volley.Decimal.Digits
import Volley.Outcome

namespace Volley

abbrev Counters := List (String × Nat)

namespace Counters

def get (c : Counters) (label : String) : Nat := (c.lookup label).getD 0

def bump (label : String) : Counters → Counters
  | [] => [(label, 1)]
  | (other, n) :: rest =>
    if other = label then (other, n + 1) :: rest
    else if label < other then (label, 1) :: (other, n) :: rest
    else (other, n) :: bump label rest

end Counters

structure Histogram where
  buckets : List Nat
  count : Nat
  sum : Float

namespace Histogram

def bounds : List Float := [0.001, 0.005, 0.01, 0.05, 0.1, 0.25, 0.5, 1.0, 2.5, 5.0]

def empty : Histogram := ⟨bounds.map fun _ => 0, 0, 0.0⟩

/-- Adds one to every bucket whose bound is not passed by `seconds`. -/
def observe (h : Histogram) (seconds : Float) : Histogram where
  buckets := List.zipWith (fun bound n => if seconds <= bound then n + 1 else n) bounds h.buckets
  count := h.count + 1
  sum := h.sum + seconds

end Histogram

structure Metrics where
  requests : Counters
  statuses : Counters
  failures : Counters
  durations : List (String × Histogram)
  active : Int

namespace Metrics

def empty : Metrics := ⟨[], [], [], [], 0⟩

def resultLabel (passed : Bool) : String := if passed then "passed" else "failed"

def duration (m : Metrics) (label : String) : Histogram :=
  (m.durations.lookup label).getD .empty

def observe (label : String) (seconds : Float) :
    List (String × Histogram) → List (String × Histogram)
  | [] => [(label, Histogram.empty.observe seconds)]
  | (other, h) :: rest =>
    if other = label then (other, h.observe seconds) :: rest
    else if label < other then (label, Histogram.empty.observe seconds) :: (other, h) :: rest
    else (other, h) :: observe label seconds rest

def record (m : Metrics) (passed : Bool) (status : Option UInt16) (failure : Option String)
    (seconds : Float) : Metrics where
  requests := m.requests.bump (resultLabel passed)
  statuses := match status with
    | some status => m.statuses.bump (toString status.toNat)
    | none => m.statuses
  failures := match failure with
    | some kind => m.failures.bump kind
    | none => m.failures
  durations := observe (resultLabel passed) seconds m.durations
  active := m.active

def recordOutcome (m : Metrics) (o : Outcome) : Metrics :=
  m.record o.passed o.status? (o.failure?.map (·.name)) o.latency.toFloat

def shift (m : Metrics) (change : Int) : Metrics := { m with active := m.active + change }

@[simp] theorem shift_zero (m : Metrics) : m.shift 0 = m := by simp [shift]

def labelValue (text : String) : String :=
  let escape (c : Char) : List Char :=
    if c = '\\' then ['\\', '\\']
    else if c = '"' then ['\\', '"']
    else if c = '\n' then ['\\', 'n']
    else [c]
  "\"" ++ String.ofList (text.toList.flatMap escape) ++ "\""

def labelled (name : String) (labels : List (String × String)) : String :=
  let pairs := labels.map fun (key, value) => key ++ "=" ++ labelValue value
  name ++ "\x7b" ++ String.intercalate "," pairs ++ "\x7d"

def family (name help kind : String) (samples : List String) : List String :=
  if samples.isEmpty then []
  else s!"# HELP {name} {help}" :: s!"# TYPE {name} {kind}" :: samples

def counterSamples (name label : String) (c : Counters) : List String :=
  c.map fun (value, n) => labelled name [(label, value)] ++ " " ++ toString n

def histogramSamples (name label value : String) (h : Histogram) : List String :=
  let bucket (bound : String) (n : Nat) :=
    labelled (name ++ "_bucket") [(label, value), ("le", bound)] ++ " " ++ toString n
  List.zipWith (fun bound n => bucket (Binary64.ofFloat bound).plain n) Histogram.bounds
      h.buckets ++
    [bucket "+Inf" h.count,
      labelled (name ++ "_sum") [(label, value)] ++ " " ++ (Binary64.ofFloat h.sum).plain,
      labelled (name ++ "_count") [(label, value)] ++ " " ++ toString h.count]

def lines (m : Metrics) : List String :=
  family "push_request_duration_seconds" "Push request duration in seconds" "histogram"
      (m.durations.flatMap fun (value, h) =>
        histogramSamples "push_request_duration_seconds" "result" value h) ++
    family "push_request_errors_total" "Number of push requests that failed without a response"
      "counter" (counterSamples "push_request_errors_total" "kind" m.failures) ++
    family "push_request_status_total" "Number of push responses by HTTP status code" "counter"
      (counterSamples "push_request_status_total" "status" m.statuses) ++
    family "push_requests_total" "Total number of push requests issued" "counter"
      (counterSamples "push_requests_total" "result" m.requests) ++
    family "push_virtual_users_active" "Number of virtual users currently running" "gauge"
      ["push_virtual_users_active " ++ toString m.active]

end Metrics

end Volley
