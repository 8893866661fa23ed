import Volley.Push.Recipe

namespace Volley

structure Protocol where
  contentFormat : IdFormat
  senderFormat : IdFormat
  ttl : Int64
  deriving Repr, DecidableEq

namespace Protocol

def ofRecipe (r : Recipe) : Protocol := ⟨r.contentFormat, r.senderFormat, r.ttl⟩

def default : Protocol := ofRecipe .default

inductive Violation
  | contentId (found : String)
  | sender (found : String)
  | content (cause : Content.Error)
  | emptyContent
  | noRecipients
  | expiryText (found : String)
  | expiry (found timestamp ttl : Int64)
  deriving Repr, DecidableEq

def Violation.message : Violation → String
  | .contentId found => s!"content_id '{found}' does not match format"
  | .sender found => s!"from_user_id '{found}' does not match format"
  | .content cause => cause.message
  | .emptyContent => "content cannot be empty"
  | .noRecipients => "to_user_ids cannot be empty"
  | .expiryText found => s!"expire_time '{found}' is not numeric"
  | .expiry found timestamp ttl =>
    s!"expire_time {found.toInt} != timestamp {timestamp.toInt} + ttl {ttl.toInt}"

def check (d : Protocol) (p : Push) : Except Violation Unit :=
  if !d.contentFormat.accepts p.contentId then .error (.contentId p.contentId)
  else if !d.senderFormat.accepts p.sender then .error (.sender p.sender)
  else
    match Content.decode p.content with
    | .error cause => .error (.content cause)
    | .ok phrase =>
      if phrase = "" then .error .emptyContent
      else if p.recipients = [] then .error .noRecipients
      else
        match p.expirySeconds? with
        | none => .error (.expiryText p.expiry)
        | some expiry =>
          if expiry = (TimeWindow.startingAt p.timestamp d.ttl).expiry then .ok ()
          else .error (.expiry expiry p.timestamp d.ttl)

end Protocol

end Volley
