import Volley.Run.State

namespace Volley

structure UserReport where
  id : Nat
  iterations : Nat
  tally : Tally
  deriving Repr, DecidableEq

def UserReport.ofUser (u : Run.User) : UserReport := ⟨u.id, u.iterations, u.tally⟩

structure Report where
  elapsed : Span
  tally : Tally
  users : List UserReport
  crashed : Nat
  /-- Whether the channel says at the end that the run is to stop. -/
  cancelled : Bool
  deriving Repr, DecidableEq

namespace Report

def ofEnded (s : Run.State) (ended : List Run.User) : Report :=
  let reports := (ended.filter fun u => !u.phase.isCrashed).map UserReport.ofUser
  let users := reports.mergeSort fun a b => a.id ≤ b.id
  { elapsed := .ofMillis s.now
    tally := users.foldl (fun sum u => sum.merge u.tally) .empty
    users
    crashed := ended.countP fun u => u.phase.isCrashed
    cancelled := s.channel.value }

def ofState (s : Run.State) : Report := ofEnded s s.users

def rate (r : Report) : Float := r.tally.rate r.elapsed

def scope (users : Nat) : Log.Scope :=
  ⟨.info, Run.source, "run", [("virtual_users", .number users)]⟩

def startNote (users : Nat) (policy : Policy) (seed : Option UInt64) : Log.Event :=
  let seedText := match seed with
    | some n => s!"Some({n.toNat})"
    | none => "None"
  ⟨.info, Run.source, "starting push load run",
    [("policy", .plain policy.describe), ("seed", .plain seedText)], [scope users]⟩

def endNote (r : Report) (users : Nat) : Log.Event :=
  ⟨.info, Run.source, "push load run finished",
    [("total", .number r.tally.total), ("passed", .number r.tally.passed),
      ("failed", .number r.tally.failed), ("elapsed_ms", .number r.elapsed.millis),
      ("cancelled", .flag r.cancelled)], [scope users]⟩

def source : String := "chatify_push_loadtest::service"

def passShare (t : Tally) : String := (Binary64.ofFloat (t.passRate * 100.0)).fixed 2 ++ "%"

def event (level : Log.Level) (message : String) (fields : List (String × Log.Value)) : Log.Event :=
  ⟨level, source, message, fields, []⟩

def notes (r : Report) : List Log.Event :=
  let latency (name : String) (micros : Nat) : String × Log.Value :=
    (name, .plain (Span.ofMicros micros).describe)
  [event .info "✓ status check summary"
    [("total", .number r.tally.total), ("passed", .number r.tally.passed),
      ("failed", .number r.tally.failed), ("pass_rate", .quoted (passShare r.tally)),
      ("iterations_per_second", .quoted ((Binary64.ofFloat r.rate).fixed 1)),
      ("elapsed_ms", .number r.elapsed.millis), ("cancelled", .flag r.cancelled)]] ++
  (match r.tally.latencySummary with
    | some s => [event .info "request latency"
        [latency "min" s.min, latency "mean" s.mean, latency "p50" s.p50, latency "p95" s.p95,
          latency "p99" s.p99, latency "max" s.max]]
    | none => []) ++
  r.tally.statuses.map (fun (status, count) =>
    event .info "responses by status"
      [("status", .number status.toNat), ("count", .number count)]) ++
  r.tally.failures.map (fun (kind, count) =>
    event .warn "requests without response"
      [("kind", .quoted kind.name), ("count", .number count)]) ++
  if r.crashed = 0 then []
  else [event .warn "virtual users terminated abnormally" [("crashed", .number r.crashed)]]

def metricsNote (m : Metrics) : Log.Event :=
  event .debug "final metrics snapshot"
    [("metrics", .plain (String.join (m.lines.map (· ++ "\n"))))]

end Report

end Volley
