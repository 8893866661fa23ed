/-! The standard alphabet with canonical padding: `decode` accepts only what `encode` writes. -/

namespace Volley.Base64

def pad : UInt8 := 61

def symbol (value : Nat) : UInt8 :=
  UInt8.ofNat <|
    if value < 26 then value + 65
    else if value < 52 then value + 71
    else if value < 62 then value - 4
    else if value = 62 then 43
    else 47

def value? (b : UInt8) : Option Nat :=
  if 65 ≤ b && b ≤ 90 then some (b.toNat - 65)
  else if 97 ≤ b && b ≤ 122 then some (b.toNat - 71)
  else if 48 ≤ b && b ≤ 57 then some (b.toNat + 4)
  else if b = 43 then some 62
  else if b = 47 then some 63
  else none

def encode : List UInt8 → List UInt8
  | [] => []
  | [a] =>
    let n := a.toNat
    [symbol (n / 4), symbol (n % 4 * 16), pad, pad]
  | [a, b] =>
    let n := a.toNat * 256 + b.toNat
    [symbol (n / 1024), symbol (n / 16 % 64), symbol (n % 16 * 4), pad]
  | a :: b :: c :: rest =>
    let n := (a.toNat * 256 + b.toNat) * 256 + c.toNat
    symbol (n / 262144) :: symbol (n / 4096 % 64) :: symbol (n / 64 % 64) :: symbol (n % 64) ::
      encode rest

def text (bytes : List UInt8) : String :=
  String.ofList ((encode bytes).map fun b => Char.ofNat b.toNat)

inductive Error
  | symbol (byte : UInt8) (offset : Nat)
  | lastSymbol (byte : UInt8) (offset : Nat)
  | length (symbols : Nat)
  | padding
  deriving Repr, DecidableEq

def Error.message : Error → String
  | .symbol byte offset => s!"Invalid symbol {byte.toNat}, offset {offset}."
  | .lastSymbol byte offset => s!"Invalid last symbol {byte.toNat}, offset {offset}."
  | .length symbols => s!"Invalid input length: {symbols}"
  | .padding => "Invalid padding"

def valueAt (offset : Nat) (b : UInt8) : Except Error Nat :=
  match value? b with
  | some v => .ok v
  | none => .error (.symbol b offset)

/-- The bytes of the last group, given the values of its symbols and the number of its pads. The
group starts at `offset`, and `last` is its last symbol. -/
def closeGroup (offset : Nat) (last : UInt8) (pads : Nat) : List Nat → Except Error (List UInt8)
  | [u, v] =>
    if pads ≠ 2 then .error .padding
    else if v % 16 ≠ 0 then .error (.lastSymbol last (offset + 1))
    else .ok [UInt8.ofNat (u * 4 + v / 16)]
  | [u, v, w] =>
    if pads ≠ 1 then .error .padding
    else if w % 4 ≠ 0 then .error (.lastSymbol last (offset + 2))
    else
      let n := (u * 64 + v) * 64 + w
      .ok [UInt8.ofNat (n / 1024), UInt8.ofNat (n / 4 % 256)]
  | [u, v, w, x] =>
    let n := ((u * 64 + v) * 64 + w) * 64 + x
    .ok [UInt8.ofNat (n / 65536), UInt8.ofNat (n / 256 % 256), UInt8.ofNat (n % 256)]
  | values => .error (.length (offset + values.length))

def lastGroup (offset : Nat) (values : List Nat) (last : UInt8) (pads : Nat) :
    List UInt8 → Except Error (List UInt8)
  | [] => closeGroup offset last pads values
  | b :: rest =>
    if b = pad then
      if values.length < 2 then .error (.symbol b (offset + values.length))
      else lastGroup offset values last (pads + 1) rest
    -- A symbol behind a pad makes the pad the fault.
    else if 0 < pads then .error (.symbol pad (offset + values.length))
    else
      match valueAt (offset + values.length) b with
      | .ok v => lastGroup offset (values ++ [v]) b pads rest
      | .error e => .error e

def groups (offset : Nat) : List UInt8 → Except Error (List UInt8)
  | [] => .ok []
  | a :: b :: c :: d :: e :: rest => do
    let u ← valueAt offset a
    let v ← valueAt (offset + 1) b
    let w ← valueAt (offset + 2) c
    let x ← valueAt (offset + 3) d
    let n := ((u * 64 + v) * 64 + w) * 64 + x
    let after ← groups (offset + 4) (e :: rest)
    return UInt8.ofNat (n / 65536) :: UInt8.ofNat (n / 256 % 256) :: UInt8.ofNat (n % 256) :: after
  | group => lastGroup offset [] 0 0 group

/-- A foreign byte that alone follows whole groups, such as a line end: it is reported before any
other fault. -/
def stray? (symbols : List UInt8) : Option (UInt8 × Nat) :=
  match symbols.getLast? with
  | some b =>
    if symbols.length % 4 = 1 ∧ b ≠ pad ∧ value? b = none then some (b, symbols.length - 1)
    else none
  | none => none

def decode (symbols : List UInt8) : Except Error (List UInt8) :=
  match stray? symbols with
  | some (b, offset) => .error (.symbol b offset)
  | none => groups 0 symbols

end Volley.Base64
