import Volley.Log.Event
import Volley.Settings.Basic
import Volley.Text.Blank
import Volley.Text.Integer

/-! A number of iterations takes the place of a duration, unless a duration is given beside it. -/

namespace Volley

abbrev Variables := String → Option String

namespace Variables

def targetUrl : String := "CHATIFY_TARGET_URL"
def virtualUsers : String := "CHATIFY_VUS"
def iterations : String := "CHATIFY_ITERATIONS"
def durationSecs : String := "CHATIFY_DURATION_SECS"
def seed : String := "CHATIFY_SEED"

def text? (vars : Variables) (name : String) : Option String :=
  match vars name with
  | some raw => if Blank.isBlankText raw then none else some (Blank.trim raw)
  | none => none

def number? (raw : String) : Option UInt64 :=
  (Integer.unsigned? (2 ^ 64) (Blank.trim raw)).map Nat.toUInt64

def count? (vars : Variables) (name : String) : Option UInt64 := (vars name).bind number?

end Variables

namespace Service

def override (vars : Variables) (s : Service) : Service :=
  { s with
    targetUrl := vars.text? Variables.targetUrl <|> s.targetUrl
    virtualUsers := vars.count? Variables.virtualUsers <|> s.virtualUsers
    iterations := vars.count? Variables.iterations <|> s.iterations
    durationSecs := vars.count? Variables.durationSecs <|>
      (if (vars.count? Variables.iterations).isSome then none else s.durationSecs)
    seed := vars.count? Variables.seed <|> s.seed }

end Service

def Settings.override (vars : Variables) (s : Settings) : Settings :=
  { s with service := some (s.serviceOrEmpty.override vars) }

namespace Variables

def source : String := "chatify_load_core::config::manager"

def unreadable (vars : Variables) (name : String) : List Log.Event :=
  match vars name with
  | none => []
  | some raw =>
    match number? raw with
    | some _ => []
    | none =>
      [⟨.warn, source, "ignoring unparsable environment override",
        [("key", .quoted name), ("value", .plain raw)], []⟩]

def replaced (vars : Variables) (s : Service) : List Log.Event :=
  match vars.count? iterations, s.durationSecs with
  | some count, some duration =>
    [⟨.debug, source, "iteration override replaces configured duration",
      [("duration_secs", .number duration.toNat), ("iterations", .number count.toNat)], []⟩]
  | _, _ => []

def notes (vars : Variables) (s : Service) : List Log.Event :=
  vars.unreadable virtualUsers ++ vars.unreadable iterations ++ vars.replaced s ++
    vars.unreadable durationSecs ++ vars.unreadable seed

end Variables

end Volley
