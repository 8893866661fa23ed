import Volley.Text.Base64
import Volley.Text.Utf8

namespace Volley.Content

def encode (phrase : String) : String := Base64.text (Utf8.encode phrase)

inductive Error
  | base64 (cause : Base64.Error)
  | utf8 (cause : Utf8.Error)
  deriving Repr, DecidableEq

def Error.message : Error → String
  | .base64 cause => "content is not valid base64: " ++ cause.message
  | .utf8 cause => "content is not valid UTF-8: " ++ cause.message

def decode (content : String) : Except Error String :=
  match Base64.decode (Utf8.encode content) with
  | .error cause => .error (.base64 cause)
  | .ok bytes =>
    match Utf8.decode bytes with
    | .error cause => .error (.utf8 cause)
    | .ok phrase => .ok phrase

end Volley.Content
