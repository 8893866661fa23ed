import Volley.Json.Basic
import Volley.Time

/-! An outcome has either a status or a failure, never both. -/

namespace Volley

inductive FailureKind
  | timeout
  | connect
  | request
  | serialization
  deriving Repr, DecidableEq

namespace FailureKind

def all : List FailureKind := [.timeout, .connect, .request, .serialization]

def name : FailureKind → String
  | .timeout => "timeout"
  | .connect => "connect"
  | .request => "request"
  | .serialization => "serialization"

def ofName? (text : String) : Option FailureKind := all.find? (·.name = text)

end FailureKind

inductive Verdict
  | answered (status : UInt16) (passed : Bool)
  | failed (kind : FailureKind) (message : String)
  deriving Repr, DecidableEq

structure Outcome where
  check : String
  verdict : Verdict
  latency : Span
  contentId : String
  sender : String
  deriving Repr, DecidableEq

namespace Outcome

def passed (o : Outcome) : Bool :=
  match o.verdict with
  | .answered _ passed => passed
  | .failed _ _ => false

def status? (o : Outcome) : Option UInt16 :=
  match o.verdict with
  | .answered status _ => some status
  | .failed _ _ => none

def failure? (o : Outcome) : Option FailureKind :=
  match o.verdict with
  | .answered _ _ => none
  | .failed kind _ => some kind

def ofStatus (check : String) (expected status : UInt16) (latency : Span)
    (contentId sender : String) : Outcome :=
  ⟨check, .answered status (status = expected), latency, contentId, sender⟩

def ofFailure (check : String) (kind : FailureKind) (message : String) (latency : Span)
    (contentId sender : String) : Outcome :=
  ⟨check, .failed kind message, latency, contentId, sender⟩

def toJson (o : Outcome) : Json := .object [
  ("assertion_name", .text o.check),
  ("passed", .boolean o.passed),
  ("status_code", match o.status? with
    | some status => .number (.whole status.toNat)
    | none => .null),
  ("latency", .object [
    ("secs", .number (.whole o.latency.seconds)),
    ("nanos", .number (.whole o.latency.subsecond))]),
  ("error", match o.verdict with
    | .answered _ _ => .null
    | .failed kind message =>
      .object [("kind", .text kind.name), ("message", .text message)]),
  ("content_id", .text o.contentId),
  ("from_user_id", .text o.sender)]

end Outcome

structure TransportError where
  kind : FailureKind
  detail : String
  deriving Repr, DecidableEq

namespace TransportError

def label : FailureKind → String
  | .timeout => "request timed out: "
  | .connect => "connection failed: "
  | .request => "request failed: "
  | .serialization => ""

def message (e : TransportError) : String := label e.kind ++ e.detail

end TransportError

end Volley
