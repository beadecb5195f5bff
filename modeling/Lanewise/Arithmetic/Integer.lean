/-!
# Integer arithmetic

All of it is modular; division and modulo by zero give zero.
-/

namespace Lanewise.Integer

/-- Quotient rounded toward zero; dividing the least number by -1 wraps. -/
def div32 (a b : Int32) : Int32 :=
  if b = 0 then 0 else a / b

/-- Quotient rounded toward zero; dividing the least number by -1 wraps. -/
def div64 (a b : Int64) : Int64 :=
  if b = 0 then 0 else a / b

/-- Remainder of the quotient rounded down: it has the sign of the divisor. -/
def floorMod (a b : Int64) : Int64 :=
  if b = 0 then 0
  else
    let r := a % b
    if r ≠ 0 ∧ (decide (r < 0) ≠ decide (b < 0)) then r + b else r

/-- The product of `result` with the `n`-th power of `base`, by repeated squaring. -/
def mulPow (result base : Int64) (n : Nat) : Int64 :=
  if n = 0 then result
  else mulPow (if n % 2 = 1 then result * base else result) (base * base) (n / 2)
termination_by n
decreasing_by omega

/-- Power. A negative exponent gives the exact quotient rounded toward zero,
which is not zero for the bases 1 and -1 only. -/
def pow (base exponent : Int64) : Int64 :=
  if 0 ≤ exponent then mulPow 1 base exponent.toInt.toNat
  else if base = 1 then 1
  else if base = -1 then (if exponent % 2 = 0 then 1 else -1)
  else 0

/-- Power of 32-bit integers, through 64 bits. -/
def pow32 (base exponent : Int32) : Int32 :=
  (pow base.toInt64 exponent.toInt64).toInt32

/-- Floored modulo of 32-bit integers, through 64 bits. -/
def floorMod32 (a b : Int32) : Int32 :=
  (floorMod a.toInt64 b.toInt64).toInt32

end Lanewise.Integer
