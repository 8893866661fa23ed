import Volley.Json.Basic
import Volley.Random.Draw
import Volley.Text.Integer

namespace Volley

inductive PushKind
  | first
  | second
  | third
  deriving Repr, DecidableEq

namespace PushKind

def all : List PushKind := [.first, .second, .third]

def text : PushKind → String
  | .first => "1"
  | .second => "2"
  | .third => "3"

def ofText? (t : String) : Option PushKind := all.find? (·.text = t)

def pick : Draw PushKind := Draw.choose .full all

end PushKind

structure Push where
  contentId : String
  content : String
  timestamp : Int64
  kind : PushKind
  sender : String
  recipients : List String
  expiry : String
  deriving Repr, DecidableEq

namespace Push

def toJson (p : Push) : Json := .object [
  ("content_id", .text p.contentId),
  ("content", .text p.content),
  ("timestamp", .number (.whole p.timestamp.toInt)),
  ("push_type", .text p.kind.text),
  ("from_user_id", .text p.sender),
  ("to_user_ids", .array (p.recipients.map .text)),
  ("expire_time", .text p.expiry)]

def body (p : Push) : String := p.toJson.render

def expirySeconds? (p : Push) : Option Int64 := Integer.signed64? p.expiry

end Push

end Volley
