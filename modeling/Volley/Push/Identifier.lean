import Volley.Random.Draw
import Volley.Setup

namespace Volley

structure IdFormat where
  lead : String
  alphabet : List Char
  length : Nat
  alphabet_nonempty : alphabet ≠ []
  deriving Repr, DecidableEq

namespace IdFormat

def make (lead alphabet : String) (length : Nat) : Except SetupError IdFormat :=
  if h : alphabet.toList ≠ [] then .ok ⟨lead, alphabet.toList, length, h⟩
  else .error (.emptyAlphabet lead)

def alphanumeric : List Char :=
  "abcdefghijklmnopqrstuvwxyzABCDEFGHIJKLMNOPQRSTUVWXYZ0123456789".toList

def digits : List Char := "0123456789".toList

def sender : IdFormat := ⟨"uid", alphanumeric, 10, by decide⟩

def content : IdFormat := ⟨"content", digits, 3, by decide⟩

def afterLead : List Char → List Char → Option (List Char)
  | [], cs => some cs
  | _ :: _, [] => none
  | l :: lead, c :: cs => if l = c then afterLead lead cs else none

def accepts (f : IdFormat) (candidate : String) : Bool :=
  match afterLead f.lead.toList candidate.toList with
  | some rest => rest.length = f.length && rest.all (f.alphabet.contains ·)
  | none => false

def drawChar (alphabet : List Char) : Draw Char :=
  Draw.choose (.ofCount alphabet.length) alphabet

def drawChars (alphabet : List Char) : Nat → Draw (List Char)
  | 0 => return []
  | count + 1 => do
    let c ← drawChar alphabet
    return c :: (← drawChars alphabet count)

/-- Room for an identifier, before any of it is drawn: each character may need four bytes. Sizes are
words of 64 bits, and no text is longer than the greatest signed one. -/
def reserve (f : IdFormat) : Except String Unit :=
  if 2 ^ 64 ≤ f.length * 4 then .error "attempt to multiply with overflow"
  else if 2 ^ 64 ≤ f.lead.utf8ByteSize + f.length * 4 then .error "attempt to add with overflow"
  else if 2 ^ 63 ≤ f.lead.utf8ByteSize + f.length * 4 then .error "capacity overflow"
  else .ok ()

def generate (f : IdFormat) : Making String := do
  f.reserve
  return f.lead ++ String.ofList (← drawChars f.alphabet f.length)

end IdFormat

end Volley
