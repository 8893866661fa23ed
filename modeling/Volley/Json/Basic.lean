import Volley.Shape

namespace Volley

/-- A JSON number: whole numbers are exact, all others are doubles. -/
inductive Json.Number
  | whole (value : Int)
  | fraction (value : Float)

inductive Json
  | null
  | boolean (value : Bool)
  | number (value : Json.Number)
  | text (value : String)
  | array (items : List Json)
  | object (members : List (String × Json))

namespace Json

inductive Error
  | ends
  | malformed
  | shape (cause : Mismatch)
  deriving Repr, DecidableEq

def hexDigit (n : Nat) : Char := Nat.digitChar n

def escape (c : Char) : List Char :=
  if c = '"' then ['\\', '"']
  else if c = '\\' then ['\\', '\\']
  else if c = '\x08' then ['\\', 'b']
  else if c = '\x0c' then ['\\', 'f']
  else if c = '\n' then ['\\', 'n']
  else if c = '\r' then ['\\', 'r']
  else if c = '\t' then ['\\', 't']
  else if c.toNat < 0x20 then
    ['\\', 'u', '0', '0', hexDigit (c.toNat / 16), hexDigit (c.toNat % 16)]
  else [c]

def quoteChars (text : String) : List Char := '"' :: text.toList.flatMap escape ++ ['"']

def quote (text : String) : String := String.ofList (quoteChars text)

def Number.render : Number → String
  | .whole value => toString value
  | .fraction value => (Binary64.ofFloat value).compact

mutual

def render : Json → String
  | .null => "null"
  | .boolean value => if value then "true" else "false"
  | .number value => value.render
  | .text value => quote value
  | .array items => "[" ++ String.intercalate "," (renderItems items) ++ "]"
  | .object members => "\x7b" ++ String.intercalate "," (renderMembers members) ++ "\x7d"

def renderItems : List Json → List String
  | [] => []
  | item :: rest => item.render :: renderItems rest

def renderMembers : List (String × Json) → List String
  | [] => []
  | (name, value) :: rest => (quote name ++ ":" ++ value.render) :: renderMembers rest

end

def found : Json → Found
  | .null => .null
  | .boolean value => .boolean value
  | .number (.whole value) => .integer value
  | .number (.fraction value) => .fraction (.ofFloat value)
  | .text value => .text value
  | .array _ => .sequence
  | .object _ => .map

def member? (name : String) : Json → Option Json
  | .object members => members.lookup name
  | _ => none

end Json

end Volley
