import Volley.Log.Event
import Volley.Plan.Policy
import Volley.Push.Protocol
import Volley.Settings.Basic
import Volley.Url.Reader

/-! All faults of settings are found here, the first in a fixed order. -/

namespace Volley

structure Plan where
  endpoint : Url
  headers : List (String × String)
  timeout : Span
  expectedStatus : UInt16
  corpus : Corpus
  recipients : List String
  ttl : Int64
  users : Nat
  policy : Policy
  thinkTime : Option Span
  seed : Option UInt64
  deriving DecidableEq

namespace Plan

def isWeb (scheme : String) : Bool := scheme = "http" || scheme = "https"

def endpointOf (idna : Url.Idna) (address path : String) : Except SetupError Url :=
  match Url.parse idna (Blank.trim address) with
  | .error reason => .error (.malformedTarget address reason)
  | .ok base =>
    if !isWeb base.scheme then .error (.targetScheme address)
    else if base.host?.isNone then .error (.targetHost address)
    else
      match base.join idna path with
      | .error reason => .error (.endpointPath path reason)
      | .ok endpoint => .ok endpoint

/-- How long a run goes on: a duration counts before a number of iterations, and one iteration is
the default. -/
def policyOf : Option UInt64 → Option UInt64 → Except SetupError Policy
  | some secs, _ =>
    if secs = 0 then .error .noDuration else .ok (.duration (.ofSeconds secs.toNat))
  | none, some count =>
    if count = 0 then .error .noIterations else .ok (.iterations count.toNat)
  | none, none => .ok (.iterations 1)

def corpusOf : Option (List String) → Except SetupError Corpus
  | some phrases => Corpus.make phrases
  | none => .ok .builtin

def defaultTimeoutMs : UInt64 := 5000

def defaultStatus : UInt16 := 200

def ensure (holds : Bool) (fault : SetupError) : Except SetupError Unit :=
  if holds then .ok () else .error fault

def ofSettings (idna : Url.Idna) (s : Settings) : Except SetupError Plan := do
  let service := s.serviceOrEmpty
  ensure s.referencesHold (.unknownTarget s.targetName)
  let address := (service.targetUrl <|> s.target?.map (·.baseUrl)).getD ""
  let path := (service.path <|> s.target?.bind (·.path)).getD Settings.defaultPath
  let endpoint ← endpointOf idna address path
  let timeoutMs := (service.requestTimeoutMs <|> s.target?.bind (·.timeoutMs)).getD defaultTimeoutMs
  ensure (0 < timeoutMs) .noTimeout
  let corpus ← corpusOf service.phrases
  let recipients := service.toUserIds.getD Recipe.defaultRecipients
  ensure (recipients ≠ []) .noRecipients
  let ttl := service.ttlSeconds.getD Recipe.defaultTtl
  ensure (0 < ttl) (.ttl ttl)
  let users := service.virtualUsers.getD 1
  ensure (0 < users) .noUsers
  let policy ← policyOf service.durationSecs service.iterations
  return {
    endpoint
    headers := (s.target?.map (·.headers)).getD []
    timeout := .ofMillis timeoutMs.toNat
    expectedStatus := service.expectedStatus.getD defaultStatus
    corpus
    recipients
    ttl
    users := users.toNat
    policy
    thinkTime := (service.thinkTimeMs.filter (0 < ·)).map fun ms => .ofMillis ms.toNat
    seed := service.seed }

def recipe (p : Plan) : Except SetupError Recipe := Recipe.make p.corpus p.recipients p.ttl

inductive Stage
  | plan
  | recipe
  deriving Repr, DecidableEq

def Stage.message : Stage → String
  | .plan => "Failed to load push load test configuration"
  | .recipe => "Failed to build payload synthesizer"

structure Fault where
  stage : Stage
  cause : SetupError
  deriving Repr, DecidableEq

def Fault.message (f : Fault) : String := f.stage.message ++ ": " ++ f.cause.message

def prepare (idna : Url.Idna) (s : Settings) : Except Fault (Plan × Recipe) :=
  match ofSettings idna s with
  | .error cause => .error ⟨.plan, cause⟩
  | .ok plan =>
    match plan.recipe with
    | .error cause => .error ⟨.recipe, cause⟩
    | .ok recipe => .ok (plan, recipe)

def notes (p : Plan) : List Log.Event :=
  [⟨.info, "chatify_push_loadtest::service::wire", "push load test context initialized",
    [("endpoint", .plain p.endpoint.render), ("virtual_users", .number p.users),
      ("policy", .plain p.policy.describe)], []⟩]

end Plan

end Volley
