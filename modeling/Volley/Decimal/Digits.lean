import Volley.Decimal.Binary64

/-!
The shortest decimal of a double is found on grids of one, two, … digits, among the reals that round
to the double.
-/

namespace Volley

structure Decimal where
  digits : Nat
  exponent : Int
  deriving Repr, DecidableEq

namespace Decimal

def width (n : Nat) : Nat := (Nat.toDigits 10 n).length

def magnitude (num den : Nat) : Int :=
  if den ≤ num then (width (num / den) : Int) - 1
  else
    let places := width (den / num)
    if den ≤ num * 10 ^ (places - 1) then 1 - (places : Int) else -(places : Int)

/-- The reals that round to a positive double, and the double itself, as numerators over one
denominator. The ends belong to the interval when `closed`. -/
structure Interval where
  low : Nat
  value : Nat
  high : Nat
  den : Nat
  closed : Bool
  deriving Repr, DecidableEq

def Interval.ofParts (mantissa : Nat) (exponent : Int) (narrow : Bool) : Interval :=
  -- In quarters of the distance to the next double, all ends are whole numbers.
  let unit := 2 ^ (exponent - 2).toNat
  let den := 2 ^ (2 - exponent).toNat
  ⟨(4 * mantissa - if narrow then 1 else 2) * unit, 4 * mantissa * unit,
    (4 * mantissa + 2) * unit, den, mantissa % 2 = 0⟩

def Interval.holds (i : Interval) (numerator : Nat) : Bool :=
  if i.closed then i.low ≤ numerator && numerator ≤ i.high
  else i.low < numerator && numerator < i.high

def Interval.scale (i : Interval) (k : Int) : Interval :=
  let up := 10 ^ (-k).toNat
  ⟨i.low * up, i.value * up, i.high * up, i.den * 10 ^ k.toNat, i.closed⟩

/-- The neighbour of the value on the grid `10 ^ k` that lies in the interval; of two the nearer,
and of two equally near the even one. -/
def onGrid (i : Interval) (k : Int) : Option Decimal :=
  let s := i.scale k
  let below := s.value / s.den
  let rest := s.value % s.den
  let lower := s.holds (below * s.den)
  let upper := s.holds ((below + 1) * s.den)
  if lower && (!upper || 2 * rest < s.den || (2 * rest = s.den && below % 2 = 0)) then
    some ⟨below, k⟩
  else if upper then some ⟨below + 1, k⟩
  else none

def firstHit (i : Interval) (k : Int) : Nat → Option Decimal
  | 0 => none
  | places + 1 =>
    match onGrid i k with
    | some d => some d
    | none => firstHit i (k - 1) places

def trim (d : Decimal) : Decimal := go d.digits d.exponent (width d.digits)
where
  go (digits : Nat) (exponent : Int) : Nat → Decimal
    | 0 => ⟨digits, exponent⟩
    | fuel + 1 =>
      if digits ≠ 0 ∧ digits % 10 = 0 then go (digits / 10) (exponent + 1) fuel
      else ⟨digits, exponent⟩

/-- The shortest decimal that reads back as `mantissa · 2 ^ exponent`. -/
def shortest (mantissa : Nat) (exponent : Int) (narrow : Bool) : Decimal :=
  if mantissa = 0 then ⟨0, 0⟩
  else
    let i := Interval.ofParts mantissa exponent narrow
    -- No double needs more than 17 digits.
    match firstHit i (magnitude i.value i.den) 17 with
    | some d => d.trim
    | none => ⟨0, 0⟩

def rounded (places : Nat) (mantissa : Nat) (exponent : Int) : Nat :=
  let num := mantissa * 2 ^ exponent.toNat * 10 ^ places
  let den := 2 ^ (-exponent).toNat
  let low := num / den
  let rest := num % den
  if 2 * rest < den then low
  else if den < 2 * rest then low + 1
  else if low % 2 = 0 then low
  else low + 1

def positional (d : Decimal) : String :=
  if 0 ≤ d.exponent then toString (d.digits * 10 ^ d.exponent.toNat)
  else
    let places := (-d.exponent).toNat
    let fraction := toString (d.digits % 10 ^ places)
    let zeros := String.ofList (List.replicate (places - fraction.length) '0')
    toString (d.digits / 10 ^ places) ++ "." ++ zeros ++ fraction

def scientific (d : Decimal) : String :=
  let text := (toString d.digits).toList
  let exponent := d.exponent + text.length - 1
  let mark := if exponent < 0 then "e-" else "e+"
  match text with
  | lead :: [] => String.singleton lead ++ mark ++ toString exponent.natAbs
  | lead :: rest => String.ofList (lead :: '.' :: rest) ++ mark ++ toString exponent.natAbs
  | [] => mark

end Decimal

namespace Binary64

def signed (negative : Bool) (text : String) : String := if negative then "-" ++ text else text

def plain : Binary64 → String
  | .nan => "NaN"
  | .infinite negative => signed negative "inf"
  | .finite negative m q narrow => signed negative (Decimal.shortest m q narrow).positional

def withPoint (text : String) : String := if text.toList.contains '.' then text else text ++ ".0"

def pointed : Binary64 → String
  | .finite negative m q narrow =>
    withPoint (signed negative (Decimal.shortest m q narrow).positional)
  | x => x.plain

def compact : Binary64 → String
  | .finite negative m q narrow =>
    let d := Decimal.shortest m q narrow
    let top := d.exponent + Decimal.width d.digits
    signed negative <|
      if d.digits = 0 ∨ (-5 < top ∧ top ≤ 16) then withPoint d.positional else d.scientific
  | x => x.plain

def fixed (places : Nat) : Binary64 → String
  | .finite negative m q _ =>
    let n := Decimal.rounded places m q
    signed negative <|
      if places = 0 then toString n else
        let fraction := toString (n % 10 ^ places)
        let zeros := String.ofList (List.replicate (places - fraction.length) '0')
        toString (n / 10 ^ places) ++ "." ++ zeros ++ fraction
  | x => x.plain

end Binary64

end Volley
