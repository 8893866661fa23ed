import Volley.Decimal.Nearest
import Volley.Toml.Scan

namespace Volley.Toml

/-! ## Numbers -/

namespace Numeral

def digits (isDigit : Char → Bool) (after : Bool) : List Char → Option (List Char)
  | [] => if after then some [] else none
  | c :: rest =>
    if c = '_' then if after then digits isDigit false rest else none
    else if isDigit c then (digits isDigit true rest).map (c :: ·)
    else none

def ofDigits (base : Nat) (ds : List Char) : Nat :=
  ds.foldl (fun n d => n * base + (Scan.hexValue? d).getD 0) 0

def wholePart (cs : List Char) : Option (List Char) :=
  (digits Char.isDigit false cs).filter fun ds => ds.length = 1 || ds.head? ≠ some '0'

def sign : List Char → Bool × List Char
  | '-' :: rest => (true, rest)
  | '+' :: rest => (false, rest)
  | cs => (false, cs)

def isDigitOrJoin (c : Char) : Bool := c.isDigit || c = '_'

def exponent? (cs : List Char) : Option Int := do
  let (negative, cs) := sign cs
  let n := ofDigits 10 (← digits Char.isDigit false cs)
  return if negative then -(n : Int) else n

def fraction (negative : Bool) (whole places : List Char) (exponent : Int) : Toml :=
  .fraction (Binary64.ofDecimal negative (ofDigits 10 (whole ++ places)) (exponent - places.length))

def decimal (negative : Bool) (cs : List Char) : Option Toml := do
  let whole ← wholePart (cs.takeWhile isDigitOrJoin)
  match cs.dropWhile isDigitOrJoin with
  | [] =>
    let n := ofDigits 10 whole
    return .integer (if negative then -(n : Int) else n)
  | '.' :: more =>
    let places ← digits Char.isDigit false (more.takeWhile isDigitOrJoin)
    match more.dropWhile isDigitOrJoin with
    | [] => return fraction negative whole places 0
    | 'e' :: rest => return fraction negative whole places (← exponent? rest)
    | 'E' :: rest => return fraction negative whole places (← exponent? rest)
    | _ => none
  | 'e' :: rest => return fraction negative whole [] (← exponent? rest)
  | 'E' :: rest => return fraction negative whole [] (← exponent? rest)
  | _ => none

def isOctal (c : Char) : Bool := '0' ≤ c && c ≤ '7'

def isBinary (c : Char) : Bool := c = '0' || c = '1'

def isHex (c : Char) : Bool := (Scan.hexValue? c).isSome

def read : List Char → Option Toml
  | '0' :: 'x' :: rest => (digits isHex false rest).map fun ds => .integer (ofDigits 16 ds)
  | '0' :: 'o' :: rest => (digits isOctal false rest).map fun ds => .integer (ofDigits 8 ds)
  | '0' :: 'b' :: rest => (digits isBinary false rest).map fun ds => .integer (ofDigits 2 ds)
  | cs =>
    let (negative, body) := sign cs
    if body = ['i', 'n', 'f'] then some (.fraction (some (.infinite negative)))
    else if body = ['n', 'a', 'n'] then some (.fraction (some .nan))
    else decimal negative body

end Numeral

/-! ## Moments -/

namespace Moment

def field (width : Nat) : Scan Nat := fun cs =>
  let ds := cs.take width
  if ds.length = width ∧ ds.all Char.isDigit then some (Numeral.ofDigits 10 ds, cs.drop width)
  else none

def padded (width n : Nat) : String :=
  let text := toString n
  String.ofList (List.replicate (width - text.length) '0') ++ text

def isLeap (year : Nat) : Bool := year % 4 = 0 && (year % 100 ≠ 0 || year % 400 = 0)

def days (year month : Nat) : Nat :=
  if month = 2 then if isLeap year then 29 else 28
  else if month ∈ [4, 6, 9, 11] then 30
  else 31

def bounded (width low high : Nat) : Scan Nat := do
  let n ← field width
  if low ≤ n ∧ n ≤ high then return n else failure

def date : Scan String := do
  let year ← field 4
  Scan.punctuation '-'
  let month ← bounded 2 1 12
  Scan.punctuation '-'
  let day ← bounded 2 1 (days year month)
  return s!"{padded 4 year}-{padded 2 month}-{padded 2 day}"

/-- The digits after the point of a second: nine of them count, and zeros at the end do not
show. -/
def subsecond : Scan String := fun cs =>
  match cs with
  | '.' :: more =>
    let ds := more.takeWhile Char.isDigit
    if ds.isEmpty then none
    else
      let shown := ((ds.take 9).reverse.dropWhile (· = '0')).reverse
      let text := if shown.isEmpty then "" else "." ++ String.ofList shown
      some (text, more.drop ds.length)
  | cs => some ("", cs)

def seconds : Scan String := fun cs =>
  match cs with
  | ':' :: more => (do
      let second ← bounded 2 0 60
      return s!":{padded 2 second}{← subsecond}" : Scan String) more
  | cs => some (":00", cs)

def time : Scan String := do
  let hour ← bounded 2 0 23
  Scan.punctuation ':'
  let minute ← bounded 2 0 59
  return s!"{padded 2 hour}:{padded 2 minute}{← seconds}"

def offset : Scan String := fun cs =>
  match cs with
  | [] => some ("", [])
  | c :: rest =>
    if c = 'Z' ∨ c = 'z' then some ("Z", rest)
    else if c = '+' ∨ c = '-' then
      (do
        let hour ← bounded 2 0 23
        Scan.punctuation ':'
        let minute ← bounded 2 0 59
        let mark := if c = '-' ∧ (hour ≠ 0 ∨ minute ≠ 0) then "-" else "+"
        return s!"{mark}{padded 2 hour}:{padded 2 minute}" : Scan String) rest
    else some ("", c :: rest)

def isDivider (c : Char) : Bool := c = 'T' || c = 't' || c = ' '

def moment : Scan String := fun cs =>
  match date cs with
  | some (day, c :: rest) =>
    if isDivider c then
      (do return s!"{day}T{← time}{← offset}" : Scan String) rest
    else none
  | some (day, []) => some (day, [])
  | none => time cs

def read (cs : List Char) : Option Toml :=
  match moment cs with
  | some (shown, []) => some (.moment shown)
  | _ => none

end Moment

namespace Scan

def isScalar (c : Char) : Bool :=
  c.isAlphanum || c = '+' || c = '-' || c = '_' || c = '.' || c = ':'

def isDate (cs : List Char) : Bool := (Moment.date cs).any fun (_, rest) => rest.isEmpty

/-- The characters of a value without quotes. A date goes on with a time after one space. -/
def word (cs : List Char) : List Char :=
  let first := cs.takeWhile isScalar
  match cs.drop first.length with
  | ' ' :: d :: rest =>
    if d.isDigit && isDate first then first ++ ' ' :: (d :: rest).takeWhile isScalar else first
  | _ => first

def scalar : Scan Toml := fun cs =>
  let text := word cs
  let value :=
    if text = "true".toList then some (.boolean true)
    else if text = "false".toList then some (.boolean false)
    else (Moment.read text).or (Numeral.read text)
  value.map (·, cs.drop text.length)

end Scan

end Volley.Toml
