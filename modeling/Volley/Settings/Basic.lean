import Volley.Keyed

namespace Volley

inductive LogFormat
  | text
  | json
  deriving Repr, DecidableEq

structure Logging where
  level : String := "info"
  withTarget : Bool := true
  withThreadIds : Bool := false
  withFile : Bool := false
  withLineNumber : Bool := false
  format : LogFormat := .text
  deriving Repr, DecidableEq

structure Target where
  baseUrl : String
  path : Option String := none
  timeoutMs : Option UInt64 := none
  headers : List (String × String) := []
  deriving Repr, DecidableEq

structure Service where
  target : Option String := none
  targetUrl : Option String := none
  path : Option String := none
  toUserIds : Option (List String) := none
  virtualUsers : Option UInt64 := none
  iterations : Option UInt64 := none
  durationSecs : Option UInt64 := none
  ttlSeconds : Option Int64 := none
  expectedStatus : Option UInt16 := none
  thinkTimeMs : Option UInt64 := none
  seed : Option UInt64 := none
  phrases : Option (List String) := none
  requestTimeoutMs : Option UInt64 := none
  deriving Repr, DecidableEq

def Service.merge (base overlay : Service) : Service where
  target := overlay.target <|> base.target
  targetUrl := overlay.targetUrl <|> base.targetUrl
  path := overlay.path <|> base.path
  toUserIds := overlay.toUserIds <|> base.toUserIds
  virtualUsers := overlay.virtualUsers <|> base.virtualUsers
  iterations := overlay.iterations <|> base.iterations
  durationSecs := overlay.durationSecs <|> base.durationSecs
  ttlSeconds := overlay.ttlSeconds <|> base.ttlSeconds
  expectedStatus := overlay.expectedStatus <|> base.expectedStatus
  thinkTimeMs := overlay.thinkTimeMs <|> base.thinkTimeMs
  seed := overlay.seed <|> base.seed
  phrases := overlay.phrases <|> base.phrases
  requestTimeoutMs := overlay.requestTimeoutMs <|> base.requestTimeoutMs

structure Settings where
  logging : Logging := {}
  targets : List (String × Target) := []
  service : Option Service := none
  deriving Repr, DecidableEq

namespace Settings

def defaultTargetName : String := "local"

def defaultPath : String := "/chatify/logic/v1/sendSystemPush"

def defaultTarget : Target where
  baseUrl := "http://localhost:8034"
  path := some defaultPath
  timeoutMs := some 5000

def withDefaults (s : Settings) : Settings :=
  match s.targets.lookup defaultTargetName with
  | some _ => s
  | none => { s with targets := Keyed.insert defaultTargetName defaultTarget s.targets }

def builtin : Settings := withDefaults {}

def serviceOrEmpty (s : Settings) : Service := s.service.getD {}

def targetName (s : Settings) : String := s.serviceOrEmpty.target.getD defaultTargetName

def target? (s : Settings) : Option Target := s.targets.lookup s.targetName

def referencesHold (s : Settings) : Bool :=
  s.serviceOrEmpty.targetUrl.isSome || s.target?.isSome

end Settings

end Volley
