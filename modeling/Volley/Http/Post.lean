import Volley.Http.Message

/-! A field that may not be sent spoils a request for good. The client gets no spoiled requests. -/

namespace Volley.Http

structure Draft where
  url : Url
  headers : List Header
  body : String
  deriving Repr, DecidableEq

def Header.carried (h : Header) : Header := (h.1.toLower, h.2)

namespace Draft

def openTo (idna : Url.Idna) (url : String) : Except Fault Draft :=
  match Url.parse idna url with
  | .error _ => .error (.unsendable none)
  | .ok target =>
    if target.host?.isNone then .error (.unsendable (some target))
    else .ok ⟨(withoutUser target).1, (withoutUser target).2, ""⟩

def append (d : Draft) (h : Header) : Except Fault Draft :=
  if h.isValid then .ok { d with headers := d.headers ++ [h.carried] }
  else .error (.unsendable none)

def jsonType : Header := (Header.contentType, "application/json")

def carry (draft : Except Fault Draft) (h : Header) : Except Fault Draft :=
  if h.isContentType then draft else draft.bind (·.append h)

def fill (draft : Except Fault Draft) (configured : List Header) : Except Fault Draft :=
  configured.foldl carry (draft.bind (·.append jsonType))

def prepare (idna : Url.Idna) (r : Request) : Except Fault Draft :=
  (fill (openTo idna r.url) r.headers).map fun draft => { draft with body := r.body }

def message (d : Draft) : Except Fault Message :=
  if isSendable d.url then .ok ⟨d.url, d.headers ++ Message.standard d.headers d.body, d.body⟩
  else .error (.unsendable (some d.url))

end Draft

structure ClientError where
  isTimeout : Bool := false
  isConnect : Bool := false
  detail : String
  deriving Repr, DecidableEq

def ClientError.toTransportError (e : ClientError) : TransportError :=
  ⟨if e.isTimeout then .timeout else if e.isConnect then .connect else .request, e.detail⟩

def Fault.toClientError (f : Fault) : ClientError :=
  match f with
  | .unsendable _ => { detail := f.detail }
  | .unreachable _ => { isConnect := true, detail := f.detail }

structure Response where
  status : UInt16
  text : Except String String

abbrev Client (σ : Type) := Draft → StateM σ (Except ClientError Response)

def Draft.refusal (d : Draft) : Fault :=
  match d.message with
  | .error fault => fault
  | .ok message => .unreachable message.url

def refusing : Client Unit := fun draft => return .error draft.refusal.toClientError

structure Posted where
  result : Except TransportError (UInt16 × String)
  events : List Log.Event

namespace Posted

def failed (headers : List Header) (e : ClientError) : Posted :=
  ⟨.error e.toTransportError, notes headers⟩

def ofReturned (headers : List Header) : Except ClientError Response → Posted
  | .error e => failed headers e
  | .ok ⟨status, .ok text⟩ => ⟨.ok (status, text), notes headers⟩
  | .ok ⟨status, .error reason⟩ =>
    ⟨.ok (status, ""), notes headers ++
      [⟨.debug, source, "failed to read response body",
        [("status", .number status.toNat), ("error", .plain reason)], []⟩]⟩

def ending (p : Posted) : Ending :=
  match p.result with
  | .ok (status, body) => .answer status body
  | .error e => .failure e

end Posted

/-- Posts a text. The client is asked only if there is a request for it. -/
def post {σ : Type} (idna : Url.Idna) (client : Client σ) (r : Request) : StateM σ Posted :=
  match Draft.prepare idna r with
  | .error fault => return .failed r.headers fault.toClientError
  | .ok draft => return .ofReturned r.headers (← client draft)

end Volley.Http
