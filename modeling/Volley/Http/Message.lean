import Volley.Http.Header
import Volley.Outcome
import Volley.Run.Delivery
import Volley.Text.Base64
import Volley.Url.Percent
import Volley.Url.Reader

/-! The type of the body is always JSON: fields that say otherwise are left out. -/

namespace Volley.Http

structure Message where
  url : Url
  headers : List Header
  body : String
  deriving Repr, DecidableEq

inductive Fault
  | unsendable (url : Option Url)
  | unreachable (url : Url)
  deriving Repr, DecidableEq

namespace Fault

def detail : Fault → String
  | .unsendable none => "builder error"
  | .unsendable (some url) => s!"builder error for url ({url.render})"
  | .unreachable url => s!"error sending request for url ({url.render})"

def toTransportError (f : Fault) : TransportError :=
  ⟨match f with
    | .unsendable _ => .request
    | .unreachable _ => .connect, f.detail⟩

end Fault

def unescape? (text : String) : Option String :=
  (Utf8.decode (Url.decode (Utf8.encode text))).toOption

def authorization (user : String) (password : Option String) : Header :=
  ("authorization", "Basic " ++ Base64.text (Utf8.encode (user ++ ":" ++ password.getD "")))

/-- The URL without a user whose name can be read, and the field for that user. -/
def withoutUser (url : Url) : Url × List Header :=
  match url.authority with
  | none => (url, [])
  | some a =>
    let password := if a.password.isEmpty then none else unescape? a.password
    match unescape? a.user with
    | none => (url, [])
    | some user =>
      if user.isEmpty && password.isNone then (url, [])
      else
        ({ url with authority := some { a with user := "", password := "" } },
          [authorization user password])

def isHostChar (c : Char) : Bool :=
  c.isAlphanum || c ∈ ['-', '.', '_', '~', ':', '[', ']', '!', '$', '&', '\'', '(', ')', '*', '+',
    ',', ';', '=', '%', '@']

def urlLimit : Nat := 65534

def isSendable (url : Url) : Bool :=
  (url.scheme = "http" || url.scheme = "https") &&
    (url.authority.map Url.Authority.render).all (·.toList.all isHostChar) &&
    url.render.utf8ByteSize ≤ urlLimit

namespace Message

def standard (headers : List Header) (body : String) : List Header :=
  (if headers.any (·.1 = "accept") then [] else [("accept", "*/*")]) ++
    if body.isEmpty then [] else [("content-length", toString body.utf8ByteSize)]

def ownHeaders (user configured : List Header) : List Header :=
  user ++ (Header.contentType, "application/json") ::
    (configured.filter (!·.isContentType)).map fun (name, value) => (name.toLower, value)

def make (idna : Url.Idna) (url : String) (configured : List Header) (body : String) :
    Except Fault Message :=
  match Url.parse idna url with
  | .error _ => .error (.unsendable none)
  | .ok url =>
    if url.host?.isNone then .error (.unsendable (some url))
    else
      let (url, user) := withoutUser url
      if !(configured.filter (!·.isContentType)).all Header.isValid then .error (.unsendable none)
      else if !isSendable url then .error (.unsendable (some url))
      else
        let headers := ownHeaders user configured
        .ok ⟨url, headers ++ standard headers body, body⟩

end Message

def source : String := "chatify_push_loadtest::infrastructure::transport::reqwest_transport"

def notes (configured : List Header) : List Log.Event :=
  (configured.filter Header.isContentType).map fun (_, value) =>
    ⟨.debug, source, "ignoring configured content-type header", [("value", .plain value)], []⟩

def refuse (idna : Url.Idna) (r : Request) : Reply :=
  let fault := match Message.make idna r.url r.headers r.body with
    | .error fault => fault
    | .ok message => .unreachable message.url
  ⟨0, .failure fault.toTransportError, notes r.headers⟩

end Volley.Http
