import Volley.Json.Basic

/-!
Strings and numbers have two scanners each: one for values that are wanted, and a coarser one for
values that are passed over.
-/

namespace Volley.Json

abbrev Scan := StateT (List Char) (Except Error)

namespace Scan

def isSpace (c : Char) : Bool := c = ' ' || c = '\n' || c = '\t' || c = '\r'

def peek : Scan (Option Char) := fun cs =>
  let rest := cs.dropWhile isSpace
  .ok (rest.head?, rest)

def skip : Scan Unit := fun cs => .ok ((), cs.tail)

def fail {α : Type} (e : Error) : Scan α := fun _ => .error e

def unexpected (c : Option Char) : Error :=
  match c with
  | some _ => .malformed
  | none => .ends

def punctuation (c : Char) : Scan Unit := do
  let next ← peek
  if next = some c then skip else fail (unexpected next)

def name : List Char → Scan Unit
  | [] => pure ()
  | c :: more => fun cs =>
    match cs with
    | [] => .error .ends
    | d :: rest => if c = d then name more rest else .error .malformed

/-! ## Strings -/

def hexValue? (c : Char) : Option Nat :=
  if c.isDigit then some (c.toNat - 48)
  else if 'a' ≤ c ∧ c ≤ 'f' then some (c.toNat - 87)
  else if 'A' ≤ c ∧ c ≤ 'F' then some (c.toNat - 55)
  else none

/-- The number that four hexadecimal digits spell. Fewer than four further bytes count as an end
of the text, whatever they are. -/
def hexFour : Scan Nat := fun cs =>
  match cs with
  | a :: b :: c :: d :: rest =>
    match hexValue? a, hexValue? b, hexValue? c, hexValue? d with
    | some a, some b, some c, some d => .ok (((a * 16 + b) * 16 + c) * 16 + d, rest)
    | _, _, _, _ => .error .malformed
  | _ => .error (if (String.ofList cs).utf8ByteSize < 4 then .ends else .malformed)

def simpleEscape? : Char → Option Char
  | '"' => some '"'
  | '\\' => some '\\'
  | '/' => some '/'
  | 'b' => some '\x08'
  | 'f' => some '\x0c'
  | 'n' => some '\n'
  | 'r' => some '\r'
  | 't' => some '\t'
  | _ => none

def unicodeEscape (cs : List Char) : Except Error (Char × List Char) :=
  match hexFour cs with
  | .error e => .error e
  | .ok (n, rest) =>
    if 0xDC00 ≤ n ∧ n ≤ 0xDFFF then .error .malformed
    else if n < 0xD800 ∨ 0xDBFF < n then .ok (Char.ofNat n, rest)
    else
      -- The second of two surrogates must follow.
      match name ['\\', 'u'] rest with
      | .error e => .error e
      | .ok ((), rest) =>
        match hexFour rest with
        | .error e => .error e
        | .ok (m, rest) =>
          if 0xDC00 ≤ m ∧ m ≤ 0xDFFF then
            .ok (Char.ofNat (0x10000 + (n - 0xD800) * 1024 + (m - 0xDC00)), rest)
          else .error .malformed

def escaped : List Char → Except Error (Char × List Char)
  | [] => .error .ends
  | c :: rest =>
    match simpleEscape? c with
    | some x => .ok (x, rest)
    | none => if c = 'u' then unicodeEscape rest else .error .malformed

theorem length_hexFour {cs : List Char} {n : Nat} {rest : List Char}
    (h : hexFour cs = .ok (n, rest)) : rest.length ≤ cs.length := by
  unfold hexFour at h
  split at h
  · split at h
    · simp only [Except.ok.injEq, Prod.mk.injEq] at h
      simp [← h.2]
      omega
    · cases h
  · cases h

theorem length_name {expected cs rest : List Char} (h : name expected cs = .ok ((), rest)) :
    rest.length ≤ cs.length := by
  induction expected generalizing cs with
  | nil =>
    have read : name [] cs = .ok ((), cs) := rfl
    simp only [read, Except.ok.injEq, Prod.mk.injEq, true_and] at h
    simp [h]
  | cons c more ih =>
    cases cs with
    | nil => simp [name] at h
    | cons d after =>
      simp only [name] at h
      split at h
      · have := ih h
        simp
        omega
      · cases h

theorem length_unicodeEscape {cs : List Char} {c : Char} {rest : List Char}
    (h : unicodeEscape cs = .ok (c, rest)) : rest.length ≤ cs.length := by
  unfold unicodeEscape at h
  split at h
  · cases h
  · rename_i first
    have := length_hexFour first
    split at h
    · cases h
    · split at h
      · simp only [Except.ok.injEq, Prod.mk.injEq] at h
        simpa [← h.2] using this
      · split at h
        · cases h
        · rename_i second
          have := length_name second
          split at h
          · cases h
          · rename_i third
            have := length_hexFour third
            split at h
            · simp only [Except.ok.injEq, Prod.mk.injEq] at h
              rw [← h.2]
              omega
            · cases h

theorem length_escaped {cs : List Char} {c : Char} {rest : List Char}
    (h : escaped cs = .ok (c, rest)) : rest.length ≤ cs.length := by
  cases cs with
  | nil => simp [escaped] at h
  | cons d after =>
    simp only [escaped] at h
    split at h
    · simp only [Except.ok.injEq, Prod.mk.injEq] at h
      simp [← h.2]
    · split at h
      · have := length_unicodeEscape h
        simp
        omega
      · cases h

def stringBody : List Char → Except Error (List Char × List Char)
  | [] => .error .ends
  | c :: rest =>
    if c = '"' then .ok ([], rest)
    else if c = '\\' then
      match _escape : escaped rest with
      | .error e => .error e
      | .ok (x, after) =>
        match stringBody after with
        | .error e => .error e
        | .ok (body, after) => .ok (x :: body, after)
    else if c.toNat < 0x20 then .error .malformed
    else
      match stringBody rest with
      | .error e => .error e
      | .ok (body, after) => .ok (c :: body, after)
termination_by cs => cs.length
decreasing_by
  · have := length_escaped _escape
    simp
    omega
  · simp

def stringRest : Scan String := fun cs =>
  match stringBody cs with
  | .error e => .error e
  | .ok (body, rest) => .ok (String.ofList body, rest)

/-- Passes over a string, after its opening quote, without pairing surrogates. -/
def skipString : List Char → Except Error (Unit × List Char)
  | [] => .error .ends
  | c :: rest =>
    if c = '"' then .ok ((), rest)
    else if c = '\\' then
      match rest with
      | [] => .error .ends
      | d :: after =>
        if (simpleEscape? d).isSome then skipString after
        else if d = 'u' then
          match _hex : hexFour after with
          | .error e => .error e
          | .ok (_, after) => skipString after
        else .error .malformed
    else if c.toNat < 0x20 then .error .malformed
    else skipString rest
termination_by cs => cs.length
decreasing_by
  · simp only [List.length_cons]
    omega
  · have := length_hexFour _hex
    simp
    omega
  · simp

/-! ## Numbers -/

def wholeLimit : Nat := 2 ^ 64

def fill (value : Nat) : List Char → Nat × List Char
  | [] => (value, [])
  | c :: rest =>
    if c.isDigit ∧ value * 10 + (c.toNat - 48) < wholeLimit then
      fill (value * 10 + (c.toNat - 48)) rest
    else (value, c :: rest)

def powerOfTen (n : Nat) : Float := Float.ofScientific 1 false n

/-- `significand · 10 ^ exponent` as a double: one multiplication, or divisions by at most
`10 ^ 308` at a time. Too large a product is no number. -/
def scaled (negative : Bool) (significand : Nat) (exponent : Int) : Except Error Float :=
  let start := significand.toUInt64.toFloat
  let sign (x : Float) := if negative then -x else x
  let rec divide (x : Float) (places : Nat) : Nat → Float
    | 0 => x
    | fuel + 1 =>
      if places ≤ 308 then x / powerOfTen places
      else if x == 0.0 then x
      else divide (x / powerOfTen 308) (places - 308) fuel
  if exponent < 0 then .ok (sign (divide start exponent.natAbs 5))
  else if 308 < exponent then if start == 0.0 then .ok (sign start) else .error .malformed
  else
    let x := start * powerOfTen exponent.toNat
    if x.isInf then .error .malformed else .ok (sign x)

def exponentLimit : Nat := 2 ^ 31

def exponentPart (negative : Bool) (significand : Nat) (places : Int) :
    List Char → Except Error (Float × List Char)
  | cs =>
    let (down, cs) := match cs with
      | '-' :: rest => (true, rest)
      | '+' :: rest => (false, rest)
      | cs => (false, cs)
    match cs with
    | [] => .error .ends
    | c :: _ =>
      if !c.isDigit then .error .malformed
      else
        let digits := cs.takeWhile Char.isDigit
        let rest := cs.dropWhile Char.isDigit
        let exponent := digits.foldl (fun n d => n * 10 + (d.toNat - 48)) 0
        if exponentLimit ≤ exponent then
          -- Exponents are words of 32 bits.
          if significand ≠ 0 ∧ !down then .error .malformed
          else .ok (if negative then -0.0 else 0.0, rest)
        else do
          let total := if down then places - exponent else places + exponent
          let x ← scaled negative significand total
          return (x, rest)

def afterDigits (negative : Bool) (significand : Nat) (places : Int) (cs : List Char) :
    Except Error (Float × List Char) :=
  match cs with
  | c :: rest =>
    if c = 'e' ∨ c = 'E' then exponentPart negative significand places rest
    else (scaled negative significand places).map (·, cs)
  | [] => (scaled negative significand places).map (·, cs)

def fractionPart (negative : Bool) (significand : Nat) (places : Int) (cs : List Char) :
    Except Error (Float × List Char) :=
  let (value, rest) := fill significand cs
  let taken := cs.length - rest.length
  match rest with
  | c :: _ =>
    if c.isDigit then
      -- Digits that no longer fit the significand are dropped.
      afterDigits negative value (places - taken) (rest.dropWhile Char.isDigit)
    else if taken = 0 then .error .malformed
    else afterDigits negative value (places - taken) rest
  | [] => if taken = 0 then .error .ends else afterDigits negative value (places - taken) rest

def afterWhole (negative : Bool) (value : Nat) (cs : List Char) :
    Except Error (Number × List Char) :=
  match cs with
  | '.' :: rest => (fractionPart negative value 0 rest).map fun (x, rest) => (.fraction x, rest)
  | c :: rest =>
    if c = 'e' ∨ c = 'E' then
      (exponentPart negative value 0 rest).map fun (x, rest) => (.fraction x, rest)
    else plain cs
  | [] => plain cs
where
  plain (cs : List Char) : Except Error (Number × List Char) :=
    if !negative then .ok (.whole value, cs)
    else if value = 0 ∨ 2 ^ 63 < value then .ok (.fraction (-value.toUInt64.toFloat), cs)
    else .ok (.whole (-(value : Int)), cs)

def numberRest (negative : Bool) (cs : List Char) : Except Error (Number × List Char) :=
  match cs with
  | [] => .error .ends
  | c :: rest =>
    if c = '0' then
      match rest with
      | d :: _ => if d.isDigit then .error .malformed else afterWhole negative 0 rest
      | [] => afterWhole negative 0 rest
    else if c.isDigit then
      let (value, after) := fill (c.toNat - 48) rest
      match after with
      | d :: _ =>
        if d.isDigit then
          let places := (after.takeWhile Char.isDigit).length
          let after := after.dropWhile Char.isDigit
          let number := match after with
            | '.' :: more => fractionPart negative value places more
            | _ => afterDigits negative value places after
          number.map fun (x, rest) => (.fraction x, rest)
        else afterWhole negative value after
      | [] => afterWhole negative value after
    else .error .malformed

def number : Scan Number := fun cs =>
  match cs with
  | '-' :: rest => numberRest true rest
  | cs => numberRest false cs

def skipDigits (cs : List Char) : Except Error (List Char) :=
  match cs with
  | c :: _ => if c.isDigit then .ok (cs.dropWhile Char.isDigit) else .error .malformed
  | [] => .error .malformed

def skipExponent (cs : List Char) : Except Error (List Char) :=
  match cs with
  | '-' :: rest => skipDigits rest
  | '+' :: rest => skipDigits rest
  | cs => skipDigits cs

def skipAfterDigits (cs : List Char) : Except Error (List Char) :=
  match cs with
  | c :: rest => if c = 'e' ∨ c = 'E' then skipExponent rest else .ok cs
  | [] => .ok cs

def skipWhole (cs : List Char) : Except Error (List Char) :=
  match cs with
  | '0' :: d :: rest => if d.isDigit then .error .malformed else .ok (d :: rest)
  | cs => skipDigits cs

def skipFraction (cs : List Char) : Except Error (List Char) :=
  match cs with
  | '.' :: rest => do skipAfterDigits (← skipDigits rest)
  | cs => skipAfterDigits cs

def skipNumber : Scan Unit := fun cs => do
  let cs := match cs with
    | '-' :: rest => rest
    | cs => cs
  return ((), ← skipFraction (← skipWhole cs))

end Scan

end Volley.Json
