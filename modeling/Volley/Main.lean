import Std.Time.DateTime.Timestamp
import Volley.Session

/-! The first argument is the path of the settings, further ones are files that may be read besides.
A rehearsal opens no connection. -/

namespace Volley

def readInto (tree : Files) (path : String) : IO Files := do
  try
    let bytes ← IO.FS.readBinFile path
    return Files.put (.file bytes.toList) (Path.names path) tree
  catch _ => return tree

def readVariables : IO Variables := do
  let names := [Surroundings.environmentVariable, Surroundings.filterVariable, Variables.targetUrl,
    Variables.virtualUsers, Variables.iterations, Variables.durationSecs, Variables.seed]
  let values ← names.mapM fun name => return (name, ← IO.getEnv name)
  return fun name => (values.lookup name).join

def machineNow : IO Machine := do
  let bytes ← IO.getRandomBytes 8
  let entropy := bytes.foldl (fun n b => n * 256 + b.toUInt64) 0
  let seconds := (← Std.Time.Timestamp.now).toSecondsSinceUnixEpoch.val
  return {
    entropy := fun user => entropy + user.toUInt64
    daytime := fun time => Int64.ofInt (seconds + time / 1000)
    origin := ← IO.monoMsNow
    idna := .ascii
    transport := Http.refuse .ascii }

def rehearse (arguments : List String) : IO UInt32 := do
  let files ← (arguments ++ Settings.defaultSources).foldlM readInto .empty
  let w : Surroundings := ⟨files, ← readVariables⟩
  let (result, session) := ({} : Session).run w (← machineNow) arguments.head?
  for level in session.misread do
    IO.eprintln (Session.misreadWarning level)
  for line in session.lines ⟨"-", "main", "-", "-"⟩ do
    IO.println line
  match result with
  | .ok _ => return 0
  | .error fault =>
    IO.eprintln s!"Error: {fault.message}"
    return 1

end Volley

def main (arguments : List String) : IO UInt32 := Volley.rehearse arguments
