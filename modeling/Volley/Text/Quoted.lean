import Volley.Text.Printable

namespace Volley.Quoted

def codePoint (c : Char) : String :=
  "\\u\x7b" ++ String.ofList (Nat.toDigits 16 c.toNat) ++ "\x7d"

def character (c : Char) : String :=
  if c = '\x00' then "\\0"
  else if c = '\t' then "\\t"
  else if c = '\n' then "\\n"
  else if c = '\r' then "\\r"
  else if c = '"' then "\\\""
  else if c = '\\' then "\\\\"
  else if Printable.isShown c then String.singleton c
  else codePoint c

def render (text : String) : String :=
  "\"" ++ String.join (text.toList.map character) ++ "\""

end Volley.Quoted
