import Volley.Files.Path
import Volley.Keyed
import Volley.Text.Utf8

/-! Nothing is known of what lies outside of the tree; it is taken for an empty directory. -/

namespace Volley

inductive Files
  | file (bytes : List UInt8)
  | directory (entries : List (String × Files))

namespace Files

def empty : Files := .directory []

def put (leaf : Files) : List String → Files → Files
  | [], _ => leaf
  | name :: rest, .directory entries =>
    .directory (Keyed.insert name (put leaf rest ((entries.lookup name).getD empty)) entries)
  | name :: rest, .file _ => .directory [(name, put leaf rest empty)]

def walk : List String → Files → List Files → Option Files
  | [], here, _ => some here
  | _ :: _, .file _, _ => none
  | name :: rest, .directory entries, above =>
    if name = "" ∨ name = "." then walk rest (.directory entries) above
    else if name = ".." then
      match above with
      | up :: above => walk rest up above
      | [] => walk rest empty []
    else
      match entries.lookup name with
      | some next => walk rest next (.directory entries :: above)
      | none => none

def at? (tree : Files) (path : String) : Option Files :=
  if path.isEmpty then none
  else if Path.isAbsolute path then walk (Path.names path) empty []
  else walk (Path.names path) tree []

def isThere (tree : Files) (path : String) : Bool := (tree.at? path).isSome

def isDirectory (tree : Files) (path : String) : Bool :=
  match tree.at? path with
  | some (.directory _) => true
  | _ => false

inductive Error
  | missing
  | isDirectory
  | notDirectory
  | notUtf8
  deriving Repr, DecidableEq

def Error.message : Error → String
  | .missing => "No such file or directory (os error 2)"
  | .isDirectory => "Is a directory (os error 21)"
  | .notDirectory => "Not a directory (os error 20)"
  | .notUtf8 => "stream did not contain valid UTF-8"

def read (tree : Files) (path : String) : Except Error String :=
  match tree.at? path with
  | none => .error .missing
  | some (.directory _) => .error .isDirectory
  | some (.file bytes) =>
    match Utf8.decode bytes with
    | .ok text => .ok text
    | .error _ => .error .notUtf8

def list (tree : Files) (path : String) : Except Error (List String) :=
  match tree.at? path with
  | none => .error .missing
  | some (.file _) => .error .notDirectory
  | some (.directory entries) => .ok (entries.map Prod.fst)

end Files

end Volley
