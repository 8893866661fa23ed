import Volley.Url.Host

namespace Volley

inductive Url.SchemeKind
  | special
  | file
  | other
  deriving Repr, DecidableEq

structure Url.Authority where
  user : String := ""
  password : String := ""
  host : Option Url.Host
  port : Option Nat := none
  deriving Repr, DecidableEq

inductive Url.Path
  | segments (names : List String)
  | opaquePath (text : String)
  deriving Repr, DecidableEq

structure Url where
  scheme : String
  authority : Option Url.Authority
  path : Url.Path
  query : Option String := none
  fragment : Option String := none
  deriving Repr, DecidableEq

namespace Url

def defaultPort? (scheme : String) : Option Nat :=
  match scheme with
  | "http" => some 80
  | "ws" => some 80
  | "https" => some 443
  | "wss" => some 443
  | "ftp" => some 21
  | _ => none

def SchemeKind.of (scheme : String) : SchemeKind :=
  if scheme = "file" then .file
  else if (defaultPort? scheme).isSome then .special
  else .other

def SchemeKind.isSpecial : SchemeKind → Bool
  | .other => false
  | _ => true

def host? (u : Url) : Option Host := u.authority.bind (·.host)

def isOpaque (u : Url) : Bool :=
  match u.path with
  | .opaquePath _ => true
  | .segments _ => false

namespace Authority

def credentials (a : Authority) : String :=
  if a.user.isEmpty && a.password.isEmpty then ""
  else a.user ++ (if a.password.isEmpty then "" else ":" ++ a.password) ++ "@"

def render (a : Authority) : String :=
  a.credentials ++ (a.host.map Host.render).getD "" ++
    match a.port with
    | some port => s!":{port}"
    | none => ""

end Authority

namespace Path

def render : Path → String
  | .segments names => String.join (names.map ("/" ++ ·))
  | .opaquePath text => text

end Path

/-- The path of a URL and what stands before it. Two slashes that do not start an authority have a
point in front. -/
def renderPath (u : Url) : String :=
  let text := u.path.render
  match u.authority with
  | some a => "//" ++ a.render ++ text
  | none =>
    match u.path with
    | .segments ("" :: _ :: _) => "/." ++ text
    | _ => text

def render (u : Url) : String :=
  let query := match u.query with
    | some query => "?" ++ query
    | none => ""
  let fragment := match u.fragment with
    | some fragment => "#" ++ fragment
    | none => ""
  u.scheme ++ ":" ++ u.renderPath ++ query ++ fragment

end Url

end Volley
