import Volley.Numeral

/-! A finite double is `± mantissa · 2 ^ exponent`. -/

namespace Volley

inductive Binary64
  | nan
  | infinite (negative : Bool)
  | finite (negative : Bool) (mantissa : Nat) (exponent : Int) (narrow : Bool)
  deriving Repr, DecidableEq

namespace Binary64

def ofBits (bits : UInt64) : Binary64 :=
  let n : Nat := bits.toNat
  let negative := n / 2 ^ 63 = 1
  let scale : Nat := n / 2 ^ 52 % 2048
  let fraction : Nat := n % 2 ^ 52
  if scale = 2047 then
    if fraction = 0 then .infinite negative else .nan
  else if scale = 0 then .finite negative fraction (-1074) false
  else .finite negative (2 ^ 52 + fraction) ((scale : Int) - 1075) (fraction = 0 && 1 < scale)

def ofFloat (x : Float) : Binary64 := ofBits x.toBits

/-- `n` rounded to at most 53 significant bits, to the nearest, a tie to the even neighbour. -/
def roundSignificant (n : Nat) : Nat :=
  let shift := n.log2 - 52
  let unit := 2 ^ shift
  let low := n / unit
  let rest := n % unit
  if 2 * rest < unit then low * unit
  else if unit < 2 * rest then (low + 1) * unit
  else if low % 2 = 0 then low * unit
  else (low + 1) * unit

end Binary64

end Volley
