import Volley.Decimal.Digits

namespace Volley.Binary64

def roundQuotient (num den : Nat) : Nat :=
  let low := num / den
  let rest := num % den
  if 2 * rest < den then low
  else if den < 2 * rest then low + 1
  else if low % 2 = 0 then low
  else low + 1

/-- The exponent of two at which the positive `num / den` has a mantissa of 53 bits, or the least
exponent that a double can have. -/
def scaleOf (num den : Nat) : Int :=
  let guess := (num.log2 : Int) - den.log2 - 52
  let isHigh := num * 2 ^ (-guess).toNat < den * 2 ^ guess.toNat * 2 ^ 52
  let least := if isHigh then guess - 1 else guess
  max least (-1074)

def ofQuotient (negative : Bool) (num den : Nat) : Option Binary64 :=
  let scale := scaleOf num den
  let mantissa := roundQuotient (num * 2 ^ (-scale).toNat) (den * 2 ^ scale.toNat)
  let (mantissa, scale) := if mantissa = 2 ^ 53 then (2 ^ 52, scale + 1) else (mantissa, scale)
  if 971 < scale then none
  else some (.finite negative mantissa scale (mantissa = 2 ^ 52 && -1074 < scale))

def ofDecimal (negative : Bool) (digits : Nat) (exponent : Int) : Option Binary64 :=
  let top := exponent + Decimal.width digits
  if digits = 0 ∨ top < -330 then some (.finite negative 0 (-1074) false)
  else if 310 < top then none
  else ofQuotient negative (digits * 10 ^ exponent.toNat) (10 ^ (-exponent).toNat)

end Volley.Binary64
