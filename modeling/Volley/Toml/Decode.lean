import Volley.Toml.Basic

/-!
A text may hold integers of more than 64 bits and takes a moment for a table. A merged value takes a
moment for a text, and wants an array without surplus items.
-/

namespace Volley.Toml

inductive Origin
  | text
  | fragments
  deriving Repr, DecidableEq

namespace Decode

def momentKey : String := "$__toml_private_datetime"

def found (origin : Origin) : Toml → Except Error Found
  | .text value => .ok (.text value)
  | .integer n =>
    if -2 ^ 63 ≤ n ∧ n < 2 ^ 64 then .ok (.integer n)
    else if fitsWide n then .ok (.wide n)
    else .error .range
  | .fraction (some value) => .ok (.fraction value)
  | .fraction none => .error .range
  | .boolean value => .ok (.boolean value)
  | .moment shown => .ok (match origin with | .text => .map | .fragments => .text shown)
  | .array _ => .ok .sequence
  | .table _ => .ok .map

def mismatch {α : Type} (origin : Origin) (expected : String) (value : Toml) : Except Error α := do
  throw (.shape (.type (← found origin value) expected))

def text (origin : Origin) : Toml → Except Error String
  | .text value => .ok value
  | .moment value =>
    match origin with
    | .text => mismatch origin "a string" (.moment value)
    | .fragments => .ok value
  | value => mismatch origin "a string" value

def boolean (origin : Origin) : Toml → Except Error Bool
  | .boolean value => .ok value
  | value => mismatch origin "a boolean" value

def integer (origin : Origin) (expected : String) (low high : Int) : Toml → Except Error Int
  | .integer n =>
    if low ≤ n ∧ n < high then .ok n
    else if -2 ^ 63 ≤ n ∧ n < 2 ^ 64 then .error (.shape (.value (.integer n) expected))
    else mismatch origin expected (.integer n)
  | value => mismatch origin expected value

def unsigned64 (origin : Origin) (expected : String) (value : Toml) : Except Error UInt64 :=
  (integer origin expected 0 (2 ^ 64) value).map fun n => n.toNat.toUInt64

def unsigned16 (origin : Origin) (expected : String) (value : Toml) : Except Error UInt16 :=
  (integer origin expected 0 (2 ^ 16) value).map fun n => n.toNat.toUInt16

def signed64 (origin : Origin) (expected : String) (value : Toml) : Except Error Int64 :=
  (integer origin expected (-2 ^ 63) (2 ^ 63) value).map Int64.ofInt

def texts (origin : Origin) : Toml → Except Error (List String)
  | .array items => items.mapM (text origin)
  | value => mismatch origin "a sequence" value

def map {α : Type} (origin : Origin) (item : Toml → Except Error α) :
    Toml → Except Error (List (String × α))
  | .table entries => entries.mapM fun (key, value) => (item value).map (key, ·)
  | .moment value =>
    match origin with
    | .text => (item (.text value)).map fun x => [(momentKey, x)]
    | .fragments => mismatch origin "a map" (.moment value)
  | value => mismatch origin "a map" value

def ignore (value : Toml) : Except Error Unit :=
  if numbersFit fitsWide value then .ok () else .error .range

/-- A record, built up by `set` from its fields: the entries of a table by their names, or the
items of an array in the order of `names`. -/
def record {α : Type} (origin : Origin) (expected : String) (names : List String)
    (set : α → String → Toml → Except Error α) (start : α) : Toml → Except Error α
  | .table entries => entries.foldlM (fun x (name, value) => set x name value) start
  | .array items => do
    let x ← (names.zip items).foldlM (fun x (name, value) => set x name value) start
    if origin = .fragments ∧ names.length < items.length then
      throw (.shape (.length items.length "fewer elements in array"))
    return x
  | .moment value =>
    match origin with
    | .text => .ok start
    | .fragments => mismatch origin s!"struct {expected}" (.moment value)
  | value => mismatch origin s!"struct {expected}" value

/-- A choice among names: a text, or a table whose only key is the name and whose value is
empty. -/
def choice {α : Type} (origin : Origin) (allowed : List (String × α)) : Toml → Except Error α
  | .text name => named name
  | .table [(name, value)] => do
    let x ← named name
    match value with
    | .array [] => return x
    | .table [] => return x
    | _ => throw .choice
  | .table _ => .error .choice
  | _ =>
    match origin with
    | .text => .error .choice
    | .fragments => .error (.shape (.type .unitVariant "string only"))
where
  named (name : String) : Except Error α :=
    match allowed.lookup name with
    | some x => .ok x
    | none => .error (.shape (.variant name (allowed.map Prod.fst)))

end Decode

end Volley.Toml
