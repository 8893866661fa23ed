import Volley.Toml.Draft
import Volley.Toml.Scalar

/-! Version 1.1 of the format: tables in braces may span lines and end with a comma. -/

namespace Volley.Toml

namespace Scan

def items (item : Scan Toml) : Nat → Scan (List Toml)
  | 0 => failure
  | rounds + 1 => do
    lines
    match ← get with
    | ']' :: rest => set rest; return []
    | _ =>
      let first ← item
      lines
      match ← get with
      | ']' :: rest => set rest; return [first]
      | ',' :: rest => set rest; return first :: (← items item rounds)
      | _ => failure

abbrev Change := Draft.Entries → Option Draft.Entries

def assignment (item : Scan Toml) : Scan Change := do
  let (key, path) ← keys
  punctuation '='
  blanks
  let value ← item
  return (Draft.assign value · key path)

def fields (item : Scan Toml) : Nat → Draft.Entries → Scan Draft.Entries
  | 0, _ => failure
  | rounds + 1, entries => do
    lines
    match ← get with
    | '\x7d' :: rest => set rest; return entries
    | _ =>
      let change ← assignment item
      let entries ← (change entries : Option Draft.Entries)
      lines
      match ← get with
      | '\x7d' :: rest => set rest; return entries
      | ',' :: rest => set rest; fields item rounds entries
      | _ => failure

def value (depth : Nat) : Scan Toml := do
  let cs ← get
  match cs with
  | '[' :: rest =>
    match depth with
    | 0 => failure
    | depth + 1 =>
      set rest
      return .array (← items (value depth) cs.length)
  | '\x7b' :: rest =>
    match depth with
    | 0 => failure
    | depth + 1 =>
      set rest
      return .table (Draft.finishEntries (← fields (value depth) cs.length []))
  | '"' :: _ => return .text (String.ofList (← quoted))
  | '\'' :: _ => return .text (String.ofList (← quoted))
  | _ => scalar

def depthLimit : Nat := 80

structure Progress where
  entries : Draft.Entries := []
  table : List String := []

def header : Scan (List String × String × Change) := do
  let double ← modifyGet fun cs =>
    match cs with
    | '[' :: rest => (true, rest)
    | cs => (false, cs)
  blanks
  let (first, more) ← keys
  let name := more.getLastD first
  punctuation ']'
  if double then
    punctuation ']'
    return ((first :: more).dropLast, name, Draft.openItem name)
  else return ((first :: more).dropLast, name, Draft.openTable name)

def line (p : Progress) : Scan Progress := do
  match ← get with
  | '[' :: rest =>
    set rest
    let (around, name, change) ← header
    let entries ← (Draft.within change around p.entries : Option Draft.Entries)
    lineEnd
    return ⟨entries, around ++ [name]⟩
  | _ =>
    let change ← assignment (value depthLimit)
    let entries ← (Draft.within change p.table p.entries : Option Draft.Entries)
    lineEnd
    return ⟨entries, p.table⟩

def document : Nat → Progress → Scan Draft.Entries
  | 0, _ => failure
  | rounds + 1, p => do
    lines
    match ← get with
    | [] => return p.entries
    | _ => document rounds (← line p)

end Scan

def dropMark : List Char → List Char
  | '\ufeff' :: rest => rest
  | cs => cs

def parse (text : String) : Except Error Toml :=
  let cs := dropMark text.toList
  match Scan.document (cs.length + 1) {} cs with
  | some (entries, _) => .ok (.table (Draft.finishEntries entries))
  | none => .error .malformed

end Volley.Toml
