import Volley.Keyed
import Volley.Shape

namespace Volley

inductive Toml
  | text (value : String)
  | integer (value : Int)
  /-- A fraction, or none if what is written is too large for a double. -/
  | fraction (value : Option Binary64)
  | boolean (value : Bool)
  | moment (text : String)
  | array (items : List Toml)
  | table (entries : List (String × Toml))

namespace Toml

inductive Error
  | malformed
  | range
  | choice
  | shape (cause : Mismatch)
  deriving Repr, DecidableEq

def Error.message : Error → String
  | .malformed => "malformed document"
  | .range => "number out of range"
  | .choice => "one name expected"
  | .shape cause => cause.message Binary64.pointed

def fitsWord (n : Int) : Bool := -2 ^ 63 ≤ n && n < 2 ^ 63

def fitsWide (n : Int) : Bool := -2 ^ 127 ≤ n && n < 2 ^ 128

mutual

def numbersFit (test : Int → Bool) : Toml → Bool
  | .integer n => test n
  | .fraction value => value.isSome
  | .array items => itemsFit test items
  | .table entries => entriesFit test entries
  | _ => true

def itemsFit (test : Int → Bool) : List Toml → Bool
  | [] => true
  | item :: rest => numbersFit test item && itemsFit test rest

def entriesFit (test : Int → Bool) : List (String × Toml) → Bool
  | [] => true
  | (_, value) :: rest => numbersFit test value && entriesFit test rest

end

mutual

def merge (base : Toml) : Toml → Toml
  | .table entries =>
    match base with
    | .table old => .table (mergeEntries old entries)
    | _ => .table entries
  | other => other

def mergeEntries (old : List (String × Toml)) : List (String × Toml) → List (String × Toml)
  | [] => old
  | (key, value) :: rest =>
    let merged := match old.lookup key with
      | some under => merge under value
      | none => value
    mergeEntries (Keyed.insert key merged old) rest

end

end Toml

end Volley
