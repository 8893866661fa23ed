import Volley.Numeral
import Volley.Push.Content
import Volley.Push.Corpus
import Volley.Push.Identifier
import Volley.Push.Request
import Volley.Text.Blank

/-! Composing pushes is all that consumes random words in a run. -/

namespace Volley

structure TimeWindow where
  timestamp : Int64
  expiry : Int64
  deriving Repr, DecidableEq

def saturatingAdd (a b : Int64) : Int64 :=
  Int64.ofInt (max (-2 ^ 63) (min (2 ^ 63 - 1) (a.toInt + b.toInt)))

def TimeWindow.startingAt (now ttl : Int64) : TimeWindow := ⟨now, saturatingAdd now ttl⟩

structure Recipe where
  corpus : Corpus
  recipients : List String
  ttl : Int64
  senderFormat : IdFormat
  contentFormat : IdFormat
  deriving Repr, DecidableEq

namespace Recipe

def defaultRecipients : List String := ["uidhSSWsdYgB9"]

def defaultTtl : Int64 := 86400

def make (corpus : Corpus) (recipients : List String) (ttl : Int64) : Except SetupError Recipe :=
  if recipients = [] then .error .noRecipients
  else if recipients.any Blank.isBlankText then .error .blankRecipient
  else if ttl ≤ 0 then .error (.ttl ttl)
  else .ok ⟨corpus, recipients, ttl, .sender, .content⟩

def default : Recipe := ⟨.builtin, defaultRecipients, defaultTtl, .sender, .content⟩

def compose (r : Recipe) (now : Int64) : Making Push := do
  let phrase ← r.corpus.pick
  let window := TimeWindow.startingAt now r.ttl
  let contentId ← r.contentFormat.generate
  let sender ← r.senderFormat.generate
  let kind ← PushKind.pick
  return {
    contentId
    content := Content.encode phrase
    timestamp := window.timestamp
    kind
    sender
    recipients := r.recipients
    expiry := toString window.expiry.toInt }

end Recipe

end Volley
