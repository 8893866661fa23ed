import Volley.Toml.Basic

/-!
A table may be opened by one header only; keys with points add only to tables that such keys made.
-/

namespace Volley.Toml

inductive Growth
  | header
  | implied
  | dotted
  deriving Repr, DecidableEq

inductive Draft
  | value (value : Toml)
  | table (growth : Growth) (entries : List (String × Draft))
  | tables (earlier : List Toml) (last : List (String × Draft))

namespace Draft

abbrev Entries := List (String × Draft)

mutual

def finish : Draft → Toml
  | .value v => v
  | .table _ entries => .table (finishEntries entries)
  | .tables earlier last => .array (earlier ++ [.table (finishEntries last)])

def finishEntries : List (String × Draft) → List (String × Toml)
  | [] => []
  | (key, draft) :: rest => (key, finish draft) :: finishEntries rest

end

def assign (value : Toml) (entries : Entries) : String → List String → Option Entries
  | key, [] =>
    match entries.lookup key with
    | some _ => none
    | none => some (Keyed.insert key (.value value) entries)
  | key, next :: path =>
    match entries.lookup key with
    | none => do
      let inner ← assign value [] next path
      return Keyed.insert key (.table .dotted inner) entries
    | some (.table growth inner) =>
      -- Keys with points add only to tables that such keys made.
      if growth = .header ∨ (path.isEmpty ∧ growth ≠ .dotted) then none
      else do
        let inner ← assign value inner next path
        return Keyed.insert key (.table growth inner) entries
    | some (.tables earlier last) =>
      if path.isEmpty then none
      else do
        let last ← assign value last next path
        return Keyed.insert key (.tables earlier last) entries
    | some (.value _) => none

def enter (change : Entries → Option Entries) (key : String) (entries : Entries) :
    Option Entries := do
  let draft ← match entries.lookup key with
    | none => (change []).map (.table .implied)
    | some (.table growth inner) => (change inner).map (.table growth)
    -- A header below an array goes to its last table.
    | some (.tables earlier last) => (change last).map (.tables earlier)
    | some (.value _) => none
  return Keyed.insert key draft entries

def within (change : Entries → Option Entries) : List String → Entries → Option Entries
  | [], entries => change entries
  | key :: path, entries => enter (within change path) key entries

def openTable (key : String) (entries : Entries) : Option Entries :=
  match entries.lookup key with
  | none => some (Keyed.insert key (.table .header []) entries)
  | some (.table .implied inner) => some (Keyed.insert key (.table .header inner) entries)
  | some _ => none

def openItem (key : String) (entries : Entries) : Option Entries :=
  match entries.lookup key with
  | none => some (Keyed.insert key (.tables [] []) entries)
  | some (.tables earlier last) =>
    some (Keyed.insert key (.tables (earlier ++ [.table (finishEntries last)]) []) entries)
  | some _ => none

end Draft

end Volley.Toml
