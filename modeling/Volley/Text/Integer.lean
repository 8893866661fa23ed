import Volley.Numeral

namespace Volley.Integer

def digitsFrom (value : Nat) : List Char → Option Nat
  | [] => some value
  | c :: rest =>
    if c.isDigit then digitsFrom (value * 10 + (c.toNat - 48)) rest else none

def digits? : List Char → Option Nat
  | [] => none
  | cs => digitsFrom 0 cs

def unsigned? (bound : Nat) (text : String) : Option Nat :=
  let value := match text.toList with
    | '+' :: rest => digits? rest
    | cs => digits? cs
  value.filter (· < bound)

def signed64? (text : String) : Option Int64 :=
  match text.toList with
  | '-' :: rest =>
    match digits? rest with
    | some n => if n ≤ 2 ^ 63 then some (Int64.ofInt (-(n : Int))) else none
    | none => none
  | cs =>
    let unsigned := match cs with
      | '+' :: rest => digits? rest
      | cs => digits? cs
    match unsigned with
    | some n => if n < 2 ^ 63 then some (Int64.ofInt n) else none
    | none => none

end Volley.Integer
