import Volley.Decimal.Digits
import Volley.Text.Quoted

/-! The causes are the same for JSON and TOML, which differ in how a fraction is written. -/

namespace Volley

inductive Found
  | null
  | boolean (value : Bool)
  | integer (value : Int)
  | wide (value : Int)
  | fraction (value : Binary64)
  | text (value : String)
  | sequence
  | map
  | unitVariant
  deriving Repr, DecidableEq

def Found.describe (fraction : Binary64 → String) : Found → String
  | .null => "null"
  | .boolean value => s!"boolean `{value}`"
  | .integer value => s!"integer `{value}`"
  | .wide value =>
    let width := if value < 2 ^ 127 then "i128" else "u128"
    s!"integer `{value}` as {width}"
  | .fraction value => s!"floating point `{fraction value}`"
  | .text value => s!"string {Quoted.render value}"
  | .sequence => "sequence"
  | .map => "map"
  | .unitVariant => "unit variant"

inductive Mismatch
  | type (found : Found) (expected : String)
  | value (found : Found) (expected : String)
  | length (count : Nat) (expected : String)
  | missingField (name : String)
  | duplicateField (name : String)
  | variant (name : String) (allowed : List String)
  deriving Repr, DecidableEq

def Mismatch.choices : List String → String
  | [] => "there are no variants"
  | [a] => s!"expected `{a}`"
  | [a, b] => s!"expected `{a}` or `{b}`"
  | names => "expected one of " ++ String.intercalate ", " (names.map fun n => s!"`{n}`")

def Mismatch.message (fraction : Binary64 → String) : Mismatch → String
  | .type found expected => s!"invalid type: {found.describe fraction}, expected {expected}"
  | .value found expected => s!"invalid value: {found.describe fraction}, expected {expected}"
  | .length count expected => s!"invalid length {count}, expected {expected}"
  | .missingField name => s!"missing field `{name}`"
  | .duplicateField name => s!"duplicate field `{name}`"
  | .variant name allowed => s!"unknown variant `{name}`, {choices allowed}"

end Volley
