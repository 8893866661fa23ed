import Volley.Files.Tree
import Volley.Settings.Decode
import Volley.Settings.Overrides
import Volley.Toml.Reader

/-!
A directory has `base.toml` and, laid over it in this order, the fragments in `shared`, `services`
and `overrides`. Only the file of an environment may be missing.
-/

namespace Volley

inductive Failure.Cause
  | missing (path : String)
  | missingBase (path : String)
  | unreadable (cause : Files.Error)
  | toml (cause : Toml.Error)
  | unknownReference (name : String)
  deriving Repr, DecidableEq

def Failure.Cause.message : Failure.Cause → String
  | .missing path => s!"configuration path {path} does not exist"
  | .missingBase path => s!"missing base configuration: {path}"
  | .unreadable cause => cause.message
  | .toml cause => cause.message
  | .unknownReference name =>
    s!"services.push_loadtest references unknown target profile '{name}'"

inductive Failure.Context
  | loading (path : String)
  | environment (root : String)
  | readingFile (path : String)
  | readingFragment (path : String)
  | listing (path : String)
  | file (path : String)
  | fragment (path : String)
  | merged (path : String)
  | overlay (path : String)
  | validation
  deriving Repr, DecidableEq

def Failure.Context.message : Failure.Context → String
  | .loading path => s!"failed to load configuration from {path}"
  | .environment root => s!"failed to load environment config under {root}"
  | .readingFile path => s!"unable to read config file: {path}"
  | .readingFragment path => s!"unable to read config fragment {path}"
  | .listing path => s!"unable to read config directory {path}"
  | .file path => s!"invalid config format: {path}"
  | .fragment path => s!"invalid TOML content in fragment {path}"
  | .merged path => s!"invalid configuration after merging {path}"
  | .overlay path => s!"无效的环境配置格式: {path}"
  | .validation => "configuration validation failed"

structure Failure where
  contexts : List Failure.Context
  cause : Failure.Cause
  deriving Repr, DecidableEq

namespace Failure

def within {α : Type} (context : Context) : Except Failure α → Except Failure α
  | .ok a => .ok a
  | .error f => .error { f with contexts := context :: f.contexts }

def of {ε α : Type} (context : Context) (cause : ε → Cause) : Except ε α → Except Failure α
  | .ok a => .ok a
  | .error e => .error ⟨[context], cause e⟩

def message (f : Failure) : String :=
  String.intercalate ": " (f.contexts.map Context.message ++ [f.cause.message])

end Failure

namespace Settings

/-! ## Fragments -/

/-- A text as a fragment: its integers must fit a signed word of 64 bits. -/
def parseFragment (text : String) : Except Toml.Error Toml := do
  let value ← Toml.parse text
  if value.numbersFit Toml.fitsWord then return value else throw .range

def readFragment (files : Files) (path : String) : Except Failure Toml := do
  let text ← Failure.of (.readingFragment path) .unreadable (files.read path)
  Failure.of (.fragment path) .toml (parseFragment text)

def fragmentPaths (files : Files) (directory : String) : Except Failure (List String) :=
  if files.isThere directory then do
    let names ← Failure.of (.listing directory) .unreadable (files.list directory)
    return (names.filter Path.isToml).mergeSort.map (Path.join directory)
  else .ok []

def mergeDirectory (files : Files) (base : Toml) (directory : String) : Except Failure Toml := do
  (← fragmentPaths files directory).foldlM (fun merged path => do
    return merged.merge (← readFragment files path)) base

def fragmentDirectories : List String := ["shared", "services", "overrides"]

def mergedDirectory (files : Files) (path : String) : Except Failure Toml := do
  let base := Path.join path "base.toml"
  if files.isThere base then
    fragmentDirectories.foldlM
      (fun merged name => mergeDirectory files merged (Path.join path name))
      (← readFragment files base)
  else throw ⟨[], .missingBase base⟩

/-! ## One source -/

def ofDirectory (files : Files) (path : String) : Except Failure Settings := do
  Failure.of (.merged path) .toml (ofToml .fragments (← mergedDirectory files path))

def ofFile (files : Files) (path : String) : Except Failure Settings := do
  let text ← Failure.of (.readingFile path) .unreadable (files.read path)
  Failure.of (.file path) .toml (do ofToml .text (← Toml.parse text))

def load (files : Files) (path : String) : Except Failure Settings :=
  match files.at? path with
  | none => .error ⟨[], .missing path⟩
  | some (.directory _) => (ofDirectory files path).map withDefaults
  | some (.file _) => (ofFile files path).map withDefaults

/-! ## Environments -/

def environmentPath (root environment : String) : String :=
  Path.join (Path.join root "environments") (environment ++ ".toml")

def overlayOf (files : Files) (root environment : String) : Except Failure Overlay :=
  let path := environmentPath root environment
  if files.isThere path then do
    Failure.of (.overlay path) .toml (Overlay.ofToml (← readFragment files path))
  else .ok {}

def inEnvironment (files : Files) (root environment : String) (s : Settings) :
    Except Failure Settings :=
  (overlayOf files root environment).map s.overlay

/-- Work on settings in place. If it fails, they stay as they are at that moment. -/
abbrev Update := ExceptT Failure (StateM Settings)

def Update.on {α : Type} (work : Update α) (s : Settings) : Except Failure α × Settings :=
  (work.run.run s).run

def putTarget (name : String) (target : Target) : Update Unit :=
  modify fun s => { s with targets := Keyed.insert name target s.targets }

def layService (service : Service) : Update Unit :=
  modify fun s => { s with service := some (s.serviceOrEmpty.merge service) }

def enter (files : Files) (root environment : String) : Update Unit := do
  let path := environmentPath root environment
  if files.isThere path then
    let value ← readFragment files path
    let o ← Failure.of (.overlay path) .toml (Overlay.ofToml value)
    o.targets.forM fun (name, target) => putTarget name target
    o.service.forM layService

def defaultEnvironment : String := "development"

/-! ## All sources -/

def defaultSources : List String := ["config", "config.toml"]

def sourceOf (files : Files) (path : Option String) : Option String :=
  path <|> defaultSources.find? files.isThere

def rootOf (files : Files) (source : String) : String :=
  if files.isDirectory source then source
  else
    let parent := Path.parent source
    if parent.isEmpty then "config" else parent

def ofSource (files : Files) (environment source : String) : Except Failure Settings := do
  let s ← Failure.within (.loading source) (load files source)
  let root := rootOf files source
  Failure.within (.environment root) (s.inEnvironment files root environment)

def beforeVariables (files : Files) (environment : String) (path : Option String) :
    Except Failure Settings :=
  match sourceOf files path with
  | some source => ofSource files environment source
  | none => .ok builtin

def resolve (files : Files) (environment : String) (vars : Variables) (path : Option String) :
    Except Failure Settings :=
  (beforeVariables files environment path).map (override vars)

def checkReferences (s : Settings) : Except Failure Unit :=
  if s.referencesHold then .ok () else .error ⟨[], .unknownReference s.targetName⟩

/-! ## What is logged -/

def environmentNotes (files : Files) (root environment : String) : List Log.Event :=
  let path := environmentPath root environment
  if files.isThere path then []
  else [⟨.debug, Variables.source, "no environment config found", [("path", .plain path)], []⟩]

def sourceNotes (files : Files) (environment : String) (path : Option String) : List Log.Event :=
  match sourceOf files path with
  | some source =>
    match load files source with
    | .ok _ => environmentNotes files (rootOf files source) environment
    | .error _ => []
  | none => [⟨.warn, "chatify_load_core::config", "no configuration found, using built-in defaults",
      [], []⟩]

def notes (files : Files) (environment : String) (vars : Variables) (path : Option String) :
    List Log.Event :=
  sourceNotes files environment path ++
    match beforeVariables files environment path with
    | .ok s => vars.notes s.serviceOrEmpty
    | .error _ => []

end Settings

end Volley
