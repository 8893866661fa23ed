import Volley.Settings.Basic
import Volley.Toml.Decode

/-! Fields are visited in the order of their names, and the first fault counts. -/

namespace Volley

open Toml (Origin)
open Toml.Decode

def present {ε α : Type} (value : Except ε α) : Except ε (Option α) := value.map some

namespace Logging

def fields : List String :=
  ["level", "with_target", "with_thread_ids", "with_file", "with_line_number", "format"]

def set (origin : Origin) (l : Logging) (name : String) (value : Toml) :
    Except Toml.Error Logging := do
  match name with
  | "level" => return { l with level := ← text origin value }
  | "with_target" => return { l with withTarget := ← boolean origin value }
  | "with_thread_ids" => return { l with withThreadIds := ← boolean origin value }
  | "with_file" => return { l with withFile := ← boolean origin value }
  | "with_line_number" => return { l with withLineNumber := ← boolean origin value }
  | "format" =>
    return { l with format := ← choice origin [("text", .text), ("json", .json)] value }
  | _ => ignore value; return l

def ofToml (origin : Origin) : Toml → Except Toml.Error Logging :=
  record origin "LoggingConfig" fields (set origin) {}

end Logging

namespace Target

def fields : List String := ["base_url", "path", "timeout_ms", "headers"]

abbrev Parts := Option String × Target

def set (origin : Origin) (p : Parts) (name : String) (value : Toml) :
    Except Toml.Error Parts := do
  let (url, t) := p
  match name with
  | "base_url" => return (← present (text origin value), t)
  | "path" => return (url, { t with path := ← present (text origin value) })
  | "timeout_ms" =>
    return (url, { t with timeoutMs := ← present (unsigned64 origin "u64" value) })
  | "headers" => return (url, { t with headers := ← map origin (text origin) value })
  | _ => ignore value; return p

def ofToml (origin : Origin) (value : Toml) : Except Toml.Error Target := do
  let (url, t) ← record origin "TargetEndpointConfig" fields (set origin)
    (none, ⟨"", none, none, []⟩) value
  match url with
  | some url => return { t with baseUrl := url }
  | none =>
    match value with
    | .array _ => throw (.shape (.length 0 "struct TargetEndpointConfig with 4 elements"))
    | _ => throw (.shape (.missingField "base_url"))

end Target

namespace Service

def fields : List String :=
  ["target", "target_url", "path", "to_user_ids", "virtual_users", "iterations", "duration_secs",
    "ttl_seconds", "expected_status", "think_time_ms", "seed", "phrases", "request_timeout_ms"]

def set (origin : Origin) (s : Service) (name : String) (value : Toml) :
    Except Toml.Error Service := do
  match name with
  | "target" => return { s with target := ← present (text origin value) }
  | "target_url" => return { s with targetUrl := ← present (text origin value) }
  | "path" => return { s with path := ← present (text origin value) }
  | "to_user_ids" => return { s with toUserIds := ← present (texts origin value) }
  | "virtual_users" =>
    return { s with virtualUsers := ← present (unsigned64 origin "usize" value) }
  | "iterations" => return { s with iterations := ← present (unsigned64 origin "u64" value) }
  | "duration_secs" => return { s with durationSecs := ← present (unsigned64 origin "u64" value) }
  | "ttl_seconds" => return { s with ttlSeconds := ← present (signed64 origin "i64" value) }
  | "expected_status" =>
    return { s with expectedStatus := ← present (unsigned16 origin "u16" value) }
  | "think_time_ms" => return { s with thinkTimeMs := ← present (unsigned64 origin "u64" value) }
  | "seed" => return { s with seed := ← present (unsigned64 origin "u64" value) }
  | "phrases" => return { s with phrases := ← present (texts origin value) }
  | "request_timeout_ms" =>
    return { s with requestTimeoutMs := ← present (unsigned64 origin "u64" value) }
  | _ => ignore value; return s

def ofToml (origin : Origin) : Toml → Except Toml.Error Service :=
  record origin "PushLoadTestServiceConfig" fields (set origin) {}

def ofSection (origin : Origin) : Toml → Except Toml.Error (Option Service) :=
  record origin "ServicesConfig" ["push_loadtest"]
    (fun section? name value => do
      match name with
      | "push_loadtest" => return some (← ofToml origin value)
      | _ => ignore value; return section?)
    none

end Service

namespace Settings

def set (origin : Origin) (s : Settings) (name : String) (value : Toml) :
    Except Toml.Error Settings := do
  match name with
  | "logging" => return { s with logging := ← Logging.ofToml origin value }
  | "targets" => return { s with targets := ← map origin (Target.ofToml origin) value }
  | "services" => return { s with service := ← Service.ofSection origin value }
  | _ => ignore value; return s

def ofToml (origin : Origin) : Toml → Except Toml.Error Settings :=
  record origin "LoadGenAppConfig" ["logging", "targets", "services"] (set origin) {}

end Settings

structure Overlay where
  targets : List (String × Target) := []
  service : Option Service := none
  deriving Repr, DecidableEq

namespace Overlay

def set (o : Overlay) (name : String) (value : Toml) : Except Toml.Error Overlay := do
  match name with
  | "targets" => return { o with targets := ← map .fragments (Target.ofToml .fragments) value }
  | "services" => return { o with service := ← Service.ofSection .fragments value }
  | _ => ignore value; return o

def ofToml : Toml → Except Toml.Error Overlay :=
  record .fragments "EnvironmentOverlay" ["targets", "services"] set {}

end Overlay

/-- Settings over which those of an environment are laid: its targets replace others of the same
name, and its service is laid over the service. -/
def Settings.overlay (s : Settings) (o : Overlay) : Settings :=
  { s with
    targets := o.targets.foldl (fun targets (name, target) => Keyed.insert name target targets)
      s.targets
    service := match o.service with
      | some service => some (s.serviceOrEmpty.merge service)
      | none => s.service }

end Volley
