import Volley.Log.Filter
import Volley.Outcome
import Volley.Push.Protocol

/-! A reply that comes exactly at the limit still counts. -/

namespace Volley

inductive Ending
  | answer (status : UInt16) (body : String)
  | failure (error : TransportError)
  | panic (message : String)
  | silence
  deriving Repr, DecidableEq

/-- What a transport does with a call: how long it takes, in milliseconds, how it ends, and what is
logged when it begins. -/
structure Reply where
  delay : Nat
  ending : Ending
  notes : List Log.Event := []
  deriving Repr, DecidableEq

structure Request where
  url : String
  headers : List (String × String)
  body : String
  deriving Repr, DecidableEq

structure Delivery where
  url : String
  headers : List (String × String)
  expectedStatus : UInt16
  timeout : Span
  recipe : Recipe
  protocol : Option Protocol
  deriving DecidableEq

inductive Settled
  | outcome (outcome : Outcome)
  | crash (message : String)
  deriving Repr, DecidableEq

namespace Delivery

def check (d : Delivery) : String := s!"status is {d.expectedStatus.toNat}"

def limit (d : Delivery) : Nat := d.timeout.ceilMillis

def request (d : Delivery) (push : Push) : Request := ⟨d.url, d.headers, push.body⟩

def inTime (d : Delivery) (reply : Reply) : Bool := reply.ending ≠ .silence && reply.delay ≤ d.limit

def length (d : Delivery) (reply : Reply) : Nat :=
  if d.inTime reply then reply.delay else d.limit

def overdue (d : Delivery) : String := s!"no response within {d.timeout.describe}"

def settle (d : Delivery) (push : Push) (reply : Reply) : Settled :=
  let latency := Span.ofMillis (d.length reply)
  let failed (kind : FailureKind) (message : String) : Settled :=
    .outcome (.ofFailure d.check kind message latency push.contentId push.sender)
  if d.inTime reply then
    match reply.ending with
    | .answer status _ =>
      .outcome (.ofStatus d.check d.expectedStatus status latency push.contentId push.sender)
    | .failure e => failed e.kind e.message
    | .panic message => .crash message
    | .silence => failed .timeout d.overdue
  else failed .timeout d.overdue

def source : String := "chatify_push_loadtest::application::handlers::virtual_user_driver"

def scope (d : Delivery) : Log.Scope := ⟨.debug, source, "run_iteration", [("url", .plain d.url)]⟩

def event (d : Delivery) (level : Log.Level) (message : String)
    (fields : List (String × Log.Value)) : Log.Event :=
  ⟨level, source, message, fields, [d.scope]⟩

/-- The delivery whose pushes are held against rules, if debugging events of iterations are
logged. -/
def guarded (d : Delivery) (filter : Log.Filter) (protocol : Protocol) : Delivery :=
  { d with protocol := if filter.allows .debug source [d.scope] then some protocol else none }

def complaints (d : Delivery) (push : Push) : List Log.Event :=
  match d.protocol with
  | none => []
  | some protocol =>
    match protocol.check push with
    | .ok () => []
    | .error violation =>
      [d.event .warn "generated request violates protocol"
        [("error", .plain violation.message), ("content_id", .plain push.contentId)]]

def openingNotes (d : Delivery) (push : Push) (reply : Reply) : List Log.Event :=
  d.complaints push ++ reply.notes.map fun e => { e with scopes := d.scope :: e.scopes }

def notes (d : Delivery) (reply : Reply) : List Log.Event :=
  let late := [d.event .warn "push request timed out"
    [("timeout_ms", .number (d.timeout.millis % 2 ^ 64))]]
  if d.inTime reply then
    match reply.ending with
    | .answer status body =>
      if status = d.expectedStatus then
        [d.event .debug "push request passed"
          [("status", .number status.toNat), ("latency_ms", .number reply.delay)]]
      else
        [d.event .warn "push request failed check"
          [("status", .number status.toNat), ("expected", .number d.expectedStatus.toNat),
            ("body", .plain body)]]
    | .failure e => [d.event .warn "push request transport error" [("error", .plain e.message)]]
    | .panic _ => []
    | .silence => late
  else late

end Delivery

end Volley
