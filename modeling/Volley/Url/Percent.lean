import Volley.Text.Utf8

namespace Volley.Url

def isControl (c : Char) : Bool := c.toNat < 0x20 || 0x7F ≤ c.toNat

def inFragment (c : Char) : Bool := isControl c || c ∈ [' ', '"', '<', '>', '\x60']

def inPath (c : Char) : Bool := inFragment c || c ∈ ['#', '?', '\x7b', '\x7d']

def inUser (c : Char) : Bool :=
  inPath c || c ∈ ['/', ':', ';', '=', '@', '[', '\\', ']', '^', '|']

def inQuery (special : Bool) (c : Char) : Bool :=
  isControl c || c ∈ [' ', '"', '#', '<', '>'] || (special && c = '\'')

def hexUpper (n : Nat) : Char := (Nat.digitChar n).toUpper

def encodeByte (b : UInt8) : List Char :=
  ['%', hexUpper (b.toNat / 16), hexUpper (b.toNat % 16)]

def encode (set : Char → Bool) (cs : List Char) : String :=
  String.ofList (cs.flatMap fun c =>
    if set c then (Utf8.encode (String.singleton c)).flatMap encodeByte else [c])

def hexValue? (b : UInt8) : Option UInt8 :=
  if 48 ≤ b && b ≤ 57 then some (b - 48)
  else if 97 ≤ b && b ≤ 102 then some (b - 87)
  else if 65 ≤ b && b ≤ 70 then some (b - 55)
  else none

def decode : List UInt8 → List UInt8
  | 37 :: a :: b :: rest =>
    match hexValue? a, hexValue? b with
    | some high, some low => (high * 16 + low) :: decode rest
    | _, _ => 37 :: decode (a :: b :: rest)
  | b :: rest => b :: decode rest
  | [] => []

end Volley.Url
