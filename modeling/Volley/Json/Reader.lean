import Volley.Json.Scan

/-! Nesting is bounded by the length of the text, which serves as fuel. -/

namespace Volley.Json

namespace Scan

/-- What follows the opening bracket of a list or the item before: whether another item comes.
`first` says that no item has been read. -/
def moreItems (first : Bool) : Scan Bool := do
  match ← peek with
  | none => fail .ends
  | some ']' => return false
  | some ',' =>
    if first then return true
    else
      skip
      match ← peek with
      | none => fail .ends
      | some ']' => fail .malformed
      | some _ => return true
  | some _ => if first then return true else fail .malformed

def moreMembers (first : Bool) : Scan Bool := do
  match ← peek with
  | none => fail .ends
  | some '\x7d' => return false
  | some ',' =>
    if first then fail .malformed
    else
      skip
      match ← peek with
      | none => fail .ends
      | some '"' => return true
      | some _ => fail .malformed
  | some c => if first ∧ c = '"' then return true else fail .malformed

def memberName : Scan String := do
  skip
  let name ← stringRest
  punctuation ':'
  return name

mutual

def value : Nat → Scan Json
  | 0 => fail .malformed
  | fuel + 1 => do
    match ← peek with
    | none => fail .ends
    | some 'n' => skip; name ['u', 'l', 'l']; return .null
    | some 't' => skip; name ['r', 'u', 'e']; return .boolean true
    | some 'f' => skip; name ['a', 'l', 's', 'e']; return .boolean false
    | some '"' => skip; return .text (← stringRest)
    | some '[' => skip; return .array (← items true fuel)
    | some '\x7b' => skip; return .object (← members true fuel)
    | some c => if c = '-' ∨ c.isDigit then return .number (← number) else fail .malformed

def items (first : Bool) : Nat → Scan (List Json)
  | 0 => fail .malformed
  | fuel + 1 => do
    if ← moreItems first then
      let item ← value fuel
      return item :: (← items false fuel)
    else
      skip
      return []

def members (first : Bool) : Nat → Scan (List (String × Json))
  | 0 => fail .malformed
  | fuel + 1 => do
    if ← moreMembers first then
      let name ← memberName
      let item ← value fuel
      return (name, item) :: (← members false fuel)
    else
      skip
      return []

end

mutual

def skipValue : Nat → Scan Unit
  | 0 => fail .malformed
  | fuel + 1 => do
    match ← peek with
    | none => fail .ends
    | some 'n' => skip; name ['u', 'l', 'l']
    | some 't' => skip; name ['r', 'u', 'e']
    | some 'f' => skip; name ['a', 'l', 's', 'e']
    | some '"' => skip; skipString
    | some '[' => skip; skipItems true fuel
    | some '\x7b' => skip; skipMembers true fuel
    | some c => if c = '-' ∨ c.isDigit then skipNumber else fail .malformed

def skipItems (first : Bool) : Nat → Scan Unit
  | 0 => fail .malformed
  | fuel + 1 => do
    if ← moreItems first then
      skipValue fuel
      skipItems false fuel
    else skip

def skipMembers (first : Bool) : Nat → Scan Unit
  | 0 => fail .malformed
  | fuel + 1 => do
    if ← moreMembers first then
      skip
      skipString
      punctuation ':'
      skipValue fuel
      skipMembers false fuel
    else skip

end

def whole {α : Type} (scan : Scan α) (text : String) : Except Error α := do
  let (result, rest) ← scan text.toList
  match rest.dropWhile isSpace with
  | [] => .ok result
  | _ => .error .malformed

def fuelFor (text : String) : Nat := text.length + 1

end Scan

def parse (text : String) : Except Error Json :=
  Scan.whole (Scan.value (Scan.fuelFor text)) text

end Volley.Json
