import Volley.Toml.Basic

namespace Volley.Toml

abbrev Scan := StateT (List Char) Option

namespace Scan

/-! ## Blanks, comments and ends of lines -/

def isBlank (c : Char) : Bool := c = ' ' || c = '\t'

def isControl (c : Char) : Bool := (c.toNat < 0x20 && c ≠ '\t') || c.toNat = 0x7F

def blanks : Scan Unit := fun cs => some ((), cs.dropWhile isBlank)

def punctuation (c : Char) : Scan Unit := fun cs =>
  match cs with
  | d :: rest => if c = d then some ((), rest) else none
  | [] => none

def skipLines (inComment : Bool) : List Char → List Char
  | [] => []
  | '\r' :: '\n' :: rest => skipLines false rest
  | '\n' :: rest => skipLines false rest
  | c :: rest =>
    if inComment then if isControl c then c :: rest else skipLines true rest
    else if isBlank c then skipLines false rest
    else if c = '#' then skipLines true rest
    else c :: rest

def lines : Scan Unit := fun cs => some ((), skipLines false cs)

def lineEnd : Scan Unit := fun cs =>
  let rest := match cs.dropWhile isBlank with
    | '#' :: more => more.dropWhile fun c => !isControl c
    | cs => cs
  match rest with
  | [] => some ((), [])
  | '\n' :: rest => some ((), rest)
  | '\r' :: '\n' :: rest => some ((), rest)
  | _ => none

/-! ## Quoted texts -/

def hexValue? (c : Char) : Option Nat :=
  if c.isDigit then some (c.toNat - 48)
  else if 'a' ≤ c ∧ c ≤ 'f' then some (c.toNat - 87)
  else if 'A' ≤ c ∧ c ≤ 'F' then some (c.toNat - 55)
  else none

def hexFrom (value : Nat) : List Char → Option Nat
  | [] => some value
  | c :: rest => do hexFrom (value * 16 + (← hexValue? c)) rest

def codePoint? (width : Nat) (cs : List Char) : Option (Char × Nat) := do
  let digits := cs.take width
  if digits.length < width then none
  else
    let n ← hexFrom 0 digits
    if h : n.isValidChar then some (Char.ofNatAux n h, width + 1) else none

def escape? : List Char → Option (Char × Nat)
  | [] => none
  | c :: rest =>
    match c with
    | '"' => some ('"', 1)
    | '\\' => some ('\\', 1)
    | 'b' => some ('\x08', 1)
    | 'e' => some ('\x1b', 1)
    | 'f' => some ('\x0c', 1)
    | 'n' => some ('\n', 1)
    | 'r' => some ('\r', 1)
    | 't' => some ('\t', 1)
    | 'x' => codePoint? 2 rest
    | 'u' => codePoint? 4 rest
    | 'U' => codePoint? 8 rest
    | _ => none

def before (lead : List Char) (more : Option (List Char × List Char)) :
    Option (List Char × List Char) :=
  more.map fun (cs, rest) => (lead ++ cs, rest)

def basic : List Char → Option (List Char × List Char)
  | [] => none
  | c :: rest =>
    if c = '"' then some ([], rest)
    else if c = '\\' then
      match escape? rest with
      | some (x, width) => before [x] (basic (rest.drop width))
      | none => none
    else if isControl c then none
    else before [c] (basic rest)
termination_by cs => cs.length
decreasing_by all_goals grind

def literal (cs : List Char) : Option (List Char × List Char) :=
  let text := cs.takeWhile fun c => c ≠ '\'' && !isControl c
  match cs.drop text.length with
  | '\'' :: rest => some (text, rest)
  | _ => none

def skipBreaks : List Char → List Char
  | [] => []
  | '\r' :: '\n' :: rest => skipBreaks rest
  | c :: rest => if isBlank c || c = '\n' then skipBreaks rest else c :: rest

theorem length_skipBreaks (cs : List Char) : (skipBreaks cs).length ≤ cs.length := by
  fun_induction skipBreaks cs with
  | case1 => simp
  | case2 rest ih => simp; omega
  | case3 c rest _ _ ih => simp; omega
  | case4 => simp

def endsLine (cs : List Char) : Bool :=
  match cs.dropWhile isBlank with
  | '\n' :: _ => true
  | '\r' :: '\n' :: _ => true
  | _ => false

def quotes (quote : Char) (cs : List Char) : Nat := (cs.takeWhile (· = quote)).length

/-- Up to two quotes may stand before the closing three. Only a text with `escapes` gives the
backslash a meaning. -/
def block (quote : Char) (escapes : Bool) : List Char → Option (List Char × List Char)
  | [] => none
  | c :: rest =>
    if c = quote then
      let count := quotes quote rest + 1
      if count < 3 then
        before (List.replicate count quote) (block quote escapes (rest.drop (count - 1)))
      else
        let inner := min count 5 - 3
        some (List.replicate inner quote, rest.drop (inner + 2))
    else if c = '\\' ∧ escapes then
      if endsLine rest then block quote escapes (skipBreaks rest)
      else
        match escape? rest with
        | some (x, width) => before [x] (block quote escapes (rest.drop width))
        | none => none
    else if c = '\n' then before ['\n'] (block quote escapes rest)
    else if c = '\r' then
      match rest with
      | '\n' :: more => before ['\n'] (block quote escapes more)
      | _ => none
    else if isControl c then none
    else before [c] (block quote escapes rest)
termination_by cs => cs.length
decreasing_by all_goals grind [length_skipBreaks]

def dropBreak : List Char → List Char
  | '\n' :: rest => rest
  | '\r' :: '\n' :: rest => rest
  | cs => cs

def quoted : List Char → Option (List Char × List Char)
  | '"' :: '"' :: '"' :: rest => block '"' true (dropBreak rest)
  | '\'' :: '\'' :: '\'' :: rest => block '\'' false (dropBreak rest)
  | '"' :: rest => basic rest
  | '\'' :: rest => literal rest
  | _ => none

/-! ## Keys -/

def isBare (c : Char) : Bool := c.isAlphanum || c = '_' || c = '-'

def key : Scan String := fun cs =>
  match cs with
  | '"' :: rest => (basic rest).map fun (name, rest) => (String.ofList name, rest)
  | '\'' :: rest => (literal rest).map fun (name, rest) => (String.ofList name, rest)
  | cs =>
    let name := cs.takeWhile isBare
    if name.isEmpty then none else some (String.ofList name, cs.drop name.length)

def keysFrom : Nat → Scan (List String)
  | 0 => fun _ => none
  | fuel + 1 => do
    blanks
    let rest ← get
    match rest with
    | '.' :: more => do
      set more
      blanks
      let first ← key
      let others ← keysFrom fuel
      return first :: others
    | _ => return []

def keys : Scan (String × List String) := do
  let first ← key
  let rest ← get
  let others ← keysFrom (rest.length + 1)
  return (first, others)

end Scan

end Volley.Toml
