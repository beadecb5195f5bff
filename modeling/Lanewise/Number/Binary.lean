/-!
# Binary interchange formats

A format is given by its precision and the width of its exponent field. Bits
are natural numbers: `decode` splits them into sign, significand and exponent,
`roundRatio` gives the bits nearest to a rational number, ties to even. All
arithmetic is exact, so that constants can be read, printed and stored without
a floating-point operation.
-/

namespace Lanewise

/-- A binary floating-point format. -/
structure BinaryFormat where
  /-- Bits of the significand, the implicit one included. -/
  precision : Nat
  exponentBits : Nat
  deriving DecidableEq

/-- What the bits of a format stand for. A finite number is
`significand * 2 ^ exponent` with its sign. -/
inductive BinaryValue where
  | nan (negative : Bool)
  | infinite (negative : Bool)
  | finite (negative : Bool) (significand : Nat) (exponent : Int)
  deriving DecidableEq

namespace BinaryFormat

def double : BinaryFormat := ⟨53, 11⟩

def single : BinaryFormat := ⟨24, 8⟩

/-- Exponent of the last place of the smallest numbers. -/
def minExponent (fmt : BinaryFormat) : Int :=
  3 - Nat.pow 2 (fmt.exponentBits - 1) - fmt.precision

/-- Weight of the exponent field. -/
def fieldUnit (fmt : BinaryFormat) : Nat :=
  Nat.pow 2 (fmt.precision - 1)

/-- Bits of positive infinity. -/
def infinity (fmt : BinaryFormat) : Nat :=
  (Nat.pow 2 fmt.exponentBits - 1) * fmt.fieldUnit

/-- Weight of the sign. -/
def signUnit (fmt : BinaryFormat) : Nat :=
  Nat.pow 2 fmt.exponentBits * fmt.fieldUnit

/-- Bits of the quiet NaN without sign. -/
def quietNaN (fmt : BinaryFormat) : Nat :=
  fmt.infinity + fmt.fieldUnit / 2

def withSign (fmt : BinaryFormat) (negative : Bool) (magnitude : Nat) : Nat :=
  if negative then fmt.signUnit + magnitude else magnitude

def decode (fmt : BinaryFormat) (bits : Nat) : BinaryValue :=
  let negative := bits / fmt.signUnit % 2 == 1
  let magnitude := bits % fmt.signUnit
  let field := magnitude / fmt.fieldUnit
  let fraction := magnitude % fmt.fieldUnit
  if fmt.infinity < magnitude then .nan negative
  else if fmt.infinity = magnitude then .infinite negative
  else if field = 0 then .finite negative fraction fmt.minExponent
  else .finite negative (fmt.fieldUnit + fraction) (fmt.minExponent + field - 1)

/-- The natural number nearest to `num / den`, a half going to the even one. -/
def roundDiv (num den : Nat) : Nat :=
  let quotient := num / den
  let remainder := num % den
  if den < 2 * remainder ∨ (2 * remainder = den ∧ quotient % 2 = 1) then quotient + 1
  else quotient

/-- Numerator and denominator of `num / den / 2 ^ q`. -/
def scale (num den : Nat) (q : Int) : Nat × Nat :=
  if 0 ≤ q then (num, den * Nat.pow 2 q.toNat) else (num * Nat.pow 2 (-q).toNat, den)

/-- Exponent of the last place of the number nearest to `num / den`. -/
def exponentFor (fmt : BinaryFormat) (num den : Nat) : Int :=
  let estimate := max ((num.log2 : Int) - den.log2 - fmt.precision) fmt.minExponent
  let (n, d) := scale num den estimate
  if Nat.pow 2 fmt.precision ≤ n / d then estimate + 1 else estimate

/-- Bits of the number nearest to `num / den`. A significand that rounds up to
the next power of two carries into the exponent field by itself. -/
def roundRatio (fmt : BinaryFormat) (num den : Nat) : Nat :=
  if num = 0 then 0
  else
    let q := fmt.exponentFor num den
    let (n, d) := scale num den q
    min ((q - fmt.minExponent).toNat * fmt.fieldUnit + roundDiv n d) fmt.infinity

/-- Bits of the number nearest to `significand * 2 ^ exponent`. -/
def roundBinary (fmt : BinaryFormat) (significand : Nat) (exponent : Int) : Nat :=
  if 0 ≤ exponent then fmt.roundRatio (significand * Nat.pow 2 exponent.toNat) 1
  else fmt.roundRatio significand (Nat.pow 2 (-exponent).toNat)

/-- Bits of the nearest number of another format. -/
def convert (source target : BinaryFormat) (bits : Nat) : Nat :=
  match source.decode bits with
  | .nan negative => target.withSign negative target.quietNaN
  | .infinite negative => target.withSign negative target.infinity
  | .finite negative m q => target.withSign negative (target.roundBinary m q)

/-- Whether the bits are a NaN. -/
def isNaN (fmt : BinaryFormat) (bits : Nat) : Bool :=
  match fmt.decode bits with
  | .nan _ => true
  | _ => false

/-- Equality of numbers: a NaN equals nothing, the zeros are equal. -/
def sameNumber (fmt : BinaryFormat) (a b : Nat) : Bool :=
  !fmt.isNaN a && !fmt.isNaN b
    && (a == b || (a % fmt.signUnit == 0 && b % fmt.signUnit == 0))

end BinaryFormat

end Lanewise
