import Volley.Url.Error

namespace Volley

inductive SetupKind
  | configuration
  | generation
  deriving Repr, DecidableEq

def SetupKind.label : SetupKind → String
  | .configuration => "Configuration error: "
  | .generation => "Generation error: "

inductive SetupError
  | emptyAlphabet (lead : String)
  | emptyCorpus
  | emptyPhrase (index : Nat)
  | noRecipients
  | blankRecipient
  | ttl (seconds : Int64)
  | unknownTarget (name : String)
  | malformedTarget (url : String) (reason : Url.Error)
  | targetScheme (url : String)
  | targetHost (url : String)
  | endpointPath (path : String) (reason : Url.Error)
  | noTimeout
  | noUsers
  | noDuration
  | noIterations
  deriving Repr, DecidableEq

namespace SetupError

def kind : SetupError → SetupKind
  | .emptyAlphabet _ => .generation
  | .emptyCorpus => .generation
  | .emptyPhrase _ => .generation
  | _ => .configuration

def cause : SetupError → String
  | .emptyAlphabet lead => s!"identifier alphabet for prefix '{lead}' must not be empty"
  | .emptyCorpus => "phrase corpus must not be empty"
  | .emptyPhrase index => s!"phrase corpus entry #{index} is empty"
  | .noRecipients => "to_user_ids must not be empty"
  | .blankRecipient => "to_user_ids must not contain blank ids"
  | .ttl seconds => s!"ttl_seconds must be positive, got {seconds.toInt}"
  | .unknownTarget name => s!"unknown target profile '{name}'"
  | .malformedTarget url reason => s!"malformed target url '{url}': {reason.message}"
  | .targetScheme url => s!"target url '{url}' must use http or https"
  | .targetHost url => s!"target url '{url}' has no host"
  | .endpointPath path reason => s!"invalid endpoint path '{path}': {reason.message}"
  | .noTimeout => "request timeout must be positive"
  | .noUsers => "virtual_users must be at least 1"
  | .noDuration => "duration_secs must be positive"
  | .noIterations => "iterations must be at least 1"

def message (e : SetupError) : String := e.kind.label ++ e.cause

end SetupError

end Volley
