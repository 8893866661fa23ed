import Volley.Numeral
import Volley.Url.Error
import Volley.Url.Percent

/-! A name whose last label is a number is an address of version 4. -/

namespace Volley.Url

inductive Host
  | name (text : String)
  | v4 (address : Nat)
  | v6 (groups : List Nat)
  deriving Repr, DecidableEq

def split (separator : Char) (cs : List Char) : List (List Char) :=
  cs.foldr (fun c parts =>
    if c = separator then [] :: parts
    else
      match parts with
      | part :: rest => (c :: part) :: rest
      | [] => [[c]]) [[]]

def hexDigit? (c : Char) : Option Nat :=
  if c.isDigit then some (c.toNat - 48)
  else if 'a' ≤ c ∧ c ≤ 'f' then some (c.toNat - 87)
  else if 'A' ≤ c ∧ c ≤ 'F' then some (c.toNat - 55)
  else none

def numberFrom (base value : Nat) : List Char → Option Nat
  | [] => some value
  | c :: rest => do
    let d ← hexDigit? c
    if d < base then numberFrom base (value * base + d) rest else none

/-! ## Version 4 -/

namespace V4

/-- A part of an address: decimal, octal after a zero, or hexadecimal after `0x`. -/
def part? : List Char → Option Nat
  | [] => none
  | '0' :: 'x' :: rest => numberFrom 16 0 rest
  | '0' :: 'X' :: rest => numberFrom 16 0 rest
  | '0' :: d :: rest => numberFrom 8 0 (d :: rest)
  | cs => numberFrom 10 0 cs

def labels (cs : List Char) : List (List Char) :=
  let parts := split '.' cs
  if parts.getLast? = some [] then parts.dropLast else parts

def isMeant (cs : List Char) : Bool :=
  match (labels cs).getLast? with
  | none => false
  | some last => (!last.isEmpty && last.all Char.isDigit) || (part? last).isSome

def assemble : List Nat → Option Nat
  | parts =>
    let lead := parts.dropLast
    let last := parts.getLastD 0
    if 4 < parts.length ∨ lead.any (255 < ·) ∨ 256 ^ (4 - lead.length) ≤ last then none
    else some (lead.zipIdx.foldl (fun sum (n, i) => sum + n * 256 ^ (3 - i)) last)

def parse (cs : List Char) : Except Error Host :=
  match (labels cs).mapM part? with
  | some parts =>
    match assemble parts with
    | some address => .ok (.v4 address)
    | none => .error .ipv4
  | none => .error .ipv4

def render (address : Nat) : String :=
  String.intercalate "." ([3, 2, 1, 0].map fun i => toString (address / 256 ^ i % 256))

end V4

/-! ## Version 6 -/

namespace V6

structure Groups where
  before : List Nat := []
  after : Option (List Nat) := none

namespace Groups

def size (g : Groups) : Nat := g.before.length + (g.after.map (·.length + 1)).getD 0

def push (g : Groups) (group : Nat) : Groups :=
  match g.after with
  | some after => { g with after := some (after ++ [group]) }
  | none => { g with before := g.before ++ [group] }

def finish (g : Groups) : Option (List Nat) :=
  match g.after with
  | some after =>
    some (g.before ++ List.replicate (8 - g.before.length - after.length) 0 ++ after)
  | none => if g.before.length = 8 then some g.before else none

end Groups

def byte? (cs : List Char) : Option Nat := do
  if cs.head? = some '0' ∧ cs ≠ ['0'] ∨ cs.isEmpty then none
  else (← numberFrom 10 0 cs) |> fun n => if n < 256 then some n else none

def tail? (cs : List Char) : Option (Nat × Nat) :=
  match (split '.' cs).map byte? with
  | [some a, some b, some c, some d] => some (a * 256 + b, c * 256 + d)
  | _ => none

def read (g : Groups) : Nat → List Char → Option Groups
  | 0, _ => none
  | _, [] => some g
  | rounds + 1, c :: rest =>
    if g.size = 8 then none
    else if c = ':' then
      match g.after with
      | some _ => none
      | none => read { g with after := some [] } rounds rest
    else
      let cs := c :: rest
      let digits := (cs.take 4).takeWhile fun c => (hexDigit? c).isSome
      match cs.drop digits.length with
      | [] => (numberFrom 16 0 digits).map g.push
      | ':' :: more =>
        if more.isEmpty then none
        else (numberFrom 16 0 digits).bind fun n => read (g.push n) rounds more
      | '.' :: _ =>
        if digits.isEmpty ∨ 6 < g.size then none
        else (tail? cs).map fun (high, low) => (g.push high).push low
      | _ => none

def groups? (cs : List Char) : Option (List Nat) :=
  let rounds := cs.length + 1
  let read := match cs with
    | ':' :: ':' :: rest => read { after := some [] } rounds rest
    | ':' :: _ => none
    | _ :: _ :: _ => read {} rounds cs
    | _ => none
  read.bind Groups.finish

def parse (cs : List Char) : Except Error Host :=
  match groups? cs with
  | some groups => .ok (.v6 groups)
  | none => .error .ipv6

def zeros (groups : List Nat) : Nat := (groups.takeWhile (· = 0)).length

def longestRun (groups : List Nat) : Nat × Nat :=
  (List.range groups.length).foldl (fun best i =>
    let length := zeros (groups.drop i)
    if best.2 < length then (i, length) else best) (0, 0)

def hex (groups : List Nat) : String :=
  String.intercalate ":" (groups.map fun n => String.ofList (Nat.toDigits 16 n))

def render (groups : List Nat) : String :=
  let (start, length) := longestRun groups
  if length < 2 then hex groups
  else hex (groups.take start) ++ "::" ++ hex (groups.drop (start + length))

end V6

/-! ## Hosts -/

def isForbiddenInHost (c : Char) : Bool :=
  c.toNat ≤ 0x20 || c ∈ ['#', '/', ':', '<', '>', '?', '@', '[', '\\', ']', '^', '|']

/-- The mapping of international names: the ASCII form of a name, whose bytes are given, unless it
has none. The tables of Unicode that decide on that come from outside. -/
structure Idna where
  toAscii : List UInt8 → Option (List Char)

/-- The mapping of names that are ASCII throughout: capitals become small letters, and labels that
are encoded already stay as they are. -/
def Idna.ascii : Idna where
  toAscii bytes :=
    let name := bytes.map fun b => (Char.ofNat b.toNat).toLower
    if name.any fun c => isForbiddenInHost c || c = '%' || 0x7F ≤ c.toNat then none else some name

namespace Host

def render : Host → String
  | .name text => text
  | .v4 address => V4.render address
  | .v6 groups => "[" ++ V6.render groups ++ "]"

def bracketed (cs : List Char) : Except Error Host :=
  if cs.getLast? = some ']' then V6.parse cs.tail.dropLast else .error .ipv6

def parse (idna : Idna) (cs : List Char) : Except Error Host :=
  if cs.head? = some '[' then bracketed cs
  else
    match idna.toAscii (decode (Utf8.encode (String.ofList cs))) with
    | none => .error .domain
    | some ascii =>
      if ascii.isEmpty then .error .emptyHost
      else if V4.isMeant ascii then V4.parse ascii
      else .ok (.name (String.ofList ascii))

def parseOpaque (cs : List Char) : Except Error (Option Host) :=
  if cs.head? = some '[' then (bracketed cs).map some
  else if cs.any fun c => c = '\x00' ∨ c = ' ' ∨ (isForbiddenInHost c ∧ 0x20 < c.toNat) then
    .error .domainCharacter
  else if cs.isEmpty then .ok none
  else .ok (some (.name (encode isControl cs)))

end Host

end Volley.Url
