import Volley.Http.Message
import Volley.Log.Line
import Volley.Plan.Setup
import Volley.Run.Schedule
import Volley.Settings.Source

/-! The settings that were found first stay in force, and the log stays as it was first set up. -/

namespace Volley

structure Surroundings where
  files : Files
  given : Variables

namespace Surroundings

def environmentVariable : String := "CHATIFY_ENV"

def filterVariable : String := "RUST_LOG"

def environment (w : Surroundings) : String :=
  (w.given environmentVariable).getD Settings.defaultEnvironment

/-- The directives of the surroundings, if they can be read, or else those of the settings. -/
def filter? (w : Surroundings) (style : Logging) : Option Log.Filter :=
  (w.given filterVariable).bind Log.Filter.parse? <|> Log.Filter.parse? style.level

end Surroundings

structure Machine where
  entropy : Nat → UInt64
  daytime : Nat → Int64
  origin : Nat
  idna : Url.Idna
  transport : Request → Reply

structure Journal where
  filter : Log.Filter
  style : Logging
  deriving Repr, DecidableEq

structure Session where
  settings : Option Settings := none
  journal : Option Journal := none
  misread : List String := []
  /-- The metrics of the first run, which are the ones that are exported. -/
  exported : Option Metrics := none
  events : List Log.Event := []

namespace Session

def filter (s : Session) : Log.Filter := (s.journal.map (·.filter)).getD ⟨[]⟩

def log (s : Session) (events : List Log.Event) : Session :=
  let logged := (events.filter s.filter.admits).map fun e =>
    { e with scopes := (s.filter.inside e.scopes).entered }
  { s with events := logged.reverse ++ s.events }

def plainFilter : Log.Filter := .upTo (some .info)

def openLog (s : Session) (w : Surroundings) (style : Logging) : Bool × Session :=
  let (filter, s) := match w.filter? style with
    | some filter => (filter, s)
    | none => (plainFilter, { s with misread := style.level :: s.misread })
  match s.journal with
  | some _ => (false, s)
  | none => (true, { s with journal := some ⟨filter, style⟩ })

def misreadWarning (level : String) : String :=
  s!"invalid log level '{level}': invalid filter directive, falling back to info"

def load (s : Session) (w : Surroundings) (path : Option String) :
    Except Failure Settings × Session :=
  match s.settings with
  | some settings => (.ok settings, s)
  | none =>
    let s := s.log (Settings.notes w.files w.environment w.given path)
    match Settings.resolve w.files w.environment w.given path with
    | .ok settings => (.ok settings, { s with settings := some settings })
    | .error f => (.error f, s)

def source : String := "chatify_load_core::utils::helpers"

def loadedNote (w : Surroundings) (path : Option String) (settings : Settings) : Log.Event :=
  match Settings.sourceOf w.files path with
  | some path =>
    ⟨.info, source, "configuration loaded",
      [("config_path", .plain path), ("environment", .plain w.environment),
        ("targets", .number settings.targets.length)], []⟩
  | none => ⟨.warn, source, "no configuration found, running with built-in defaults", [], []⟩

def bootstrap (s : Session) (w : Surroundings) (path : Option String) :
    Except Failure Settings × Session :=
  match s.load w path with
  | (.error f, s) => (.error f, s)
  | (.ok settings, s) =>
    let (_, s) := s.openLog w settings.logging
    let s := s.log [loadedNote w path settings]
    match Failure.within .validation settings.checkReferences with
    | .error f => (.error f, s)
    | .ok () => (.ok settings, s)

inductive RunFault
  | failure (failure : Failure)
  | plan (fault : Plan.Fault)
  | broken (message : String)
  | endless
  deriving Repr, DecidableEq

def RunFault.message : RunFault → String
  | .failure f => f.message
  | .plan f => f.message
  | .broken message => message
  | .endless => "the run comes to no end"

def deliveryOf (s : Session) (p : Plan) (recipe : Recipe) : Delivery :=
  (p.delivery recipe).guarded s.filter (.ofRecipe recipe)

def perform (s : Session) (m : Machine) (p : Plan) (recipe : Recipe) :
    Except RunFault Report × Session :=
  let delivery := s.deliveryOf p recipe
  let setup :=
    p.setup delivery (fun call => m.transport (delivery.request call.push)) m.daytime m.origin
  let start := Run.State.initial .start {} .empty (Run.wordsOf p.seed m.entropy) p.users
  match Run.perform setup p.seed [] start with
  | .panic message => (.error (.broken message), s)
  | .endless => (.error .endless, s)
  | .finished report last =>
    let exported := s.exported.getD last.metrics
    let s := { s with exported := some exported }
    (.ok report, s.log (last.events.reverse ++ report.notes ++ [Report.metricsNote exported]))

def run (s : Session) (w : Surroundings) (m : Machine) (path : Option String) :
    Except RunFault Report × Session :=
  match s.bootstrap w path with
  | (.error f, s) => (.error (.failure f), s)
  | (.ok settings, s) =>
    match Plan.prepare m.idna settings with
    | .error f => (.error (.plan f), s)
    | .ok (plan, recipe) => (s.log plan.notes).perform m plan recipe

def lines (s : Session) (stamp : Log.Stamp) : List String :=
  match s.journal with
  | some journal => s.events.reverse.map (·.line journal.style stamp)
  | none => []

end Session

end Volley
