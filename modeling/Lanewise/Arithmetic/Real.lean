import Lanewise.Function
import Lanewise.Number.Floating

/-!
# Real functions

The functions that programs can call on 64-bit and 32-bit floats. The usual
elementary functions are given; the rest are built here from them.
-/

namespace Lanewise

namespace Real

/-- Remainder of the quotient rounded down. -/
def floorMod (a b : Double) : Double :=
  a - Floating.map Float.floor (a / b) * b

/-- Remainder of the quotient rounded down. -/
def floorMod32 (a b : Single) : Single :=
  a - Floating.map Float32.floor (a / b) * b

/-- Bits of the remainder of the quotient rounded toward zero. It is exact: both
numbers are multiples of the smaller unit, and so is the remainder. -/
def truncModBits (fmt : BinaryFormat) (a b : Nat) : Nat :=
  let invalid := fmt.withSign true fmt.quietNaN
  match fmt.decode a, fmt.decode b with
  | .nan _, _ => a
  | _, .nan _ => b
  | .infinite _, _ => invalid
  | .finite _ _ _, .infinite _ => a
  | .finite negative m q, .finite _ n p =>
    if n = 0 then invalid
    else
      let unit := min q p
      let rest := (m * Nat.pow 2 (q - unit).toNat) % (n * Nat.pow 2 (p - unit).toNat)
      fmt.withSign negative (fmt.roundBinary rest unit)

def truncMod (a b : Double) : Double :=
  ⟨(truncModBits .double a.bits.toNat b.bits.toNat).toUInt64⟩

def truncMod32 (a b : Single) : Single :=
  ⟨(truncModBits .single a.bits.toNat b.bits.toNat).toUInt32⟩

/-- Logarithm of `1 + x`. The quotient corrects the error of rounding `1 + x`. -/
def log1p (x : Float) : Float :=
  let u := 1.0 + x
  if u == 1.0 || u == 1.0 / 0.0 then x
  else u.log * (x / (u - 1.0))

/-- Exponential less one. The quotient corrects the error of rounding the
exponential. -/
def expm1 (x : Float) : Float :=
  let u := x.exp
  if u == 1.0 then x
  else
    let d := u - 1.0
    if d == -1.0 || u == 1.0 / 0.0 then d
    else d * (x / u.log)

/-- Half the logarithm of `(1 + x) / (1 - x)`, which is `1 + 2x / (1 - x)`. -/
def atanh (x : Float) : Float :=
  0.5 * log1p (2.0 * x / (1.0 - x))

/-- Logarithm of `1 + x`, taken in 64 bits and rounded once. -/
def log1p32 (x : Float32) : Float32 :=
  (log1p x.toFloat).toFloat32

/-- Half the logarithm of `(1 + x) / (1 - x)`. The quotient `2x / (1 - x)` is a
32-bit number: near `-1` it has few digits left. -/
def atanh32 (x : Float32) : Float32 :=
  0.5 * log1p32 (2.0 * x / (1.0 - x))

/-- Length of a vector with `0 ≤ short ≤ long` whose squares neither overflow nor
vanish. The root of the sum of squares is off by the roundings of the squares;
`excess` is its square less that sum, put together from small differences, and a
Newton step takes it away. -/
def vectorLength (long short : Float) : Float :=
  let root := (long * long + short * short).sqrt
  let excess :=
    if root ≤ 2.0 * short then
      let d := root - short
      long * (2.0 * d - long) + (d - 2.0 * (long - short)) * d
    else
      let d := root - long
      2.0 * d * (long - 2.0 * short) + ((4.0 * d - short) * short + d * d)
  root - excess / (2.0 * root)

/-- Length of the vector `(a, b)`. A side below the last bit of the other only
adds to it; very long and very short vectors are scaled. An infinite side wins
over a NaN. -/
def hypot (a b : Float) : Float :=
  let a := a.abs
  let b := b.abs
  if a.isInf || b.isInf then 1.0 / 0.0
  else
    let (long, short) := if a < b then (b, a) else (a, b)
    if short ≤ long.scaleB (-54) then long + short
    else if Float.scaleB 1.0 511 < long then
      (vectorLength (long.scaleB (-600)) (short.scaleB (-600))).scaleB 600
    else if short < Float.scaleB 1.0 (-459) then
      (vectorLength (long.scaleB 600) (short.scaleB 600)).scaleB (-600)
    else vectorLength long short

/-- The smaller number; a NaN on either side is the result. -/
def min (a b : Double) : Double :=
  if a.isNaN then a else if b.isNaN || b.less a then b else a

/-- The larger number; a NaN on either side is the result. -/
def max (a b : Double) : Double :=
  if a.isNaN then a else if b.isNaN || a.less b then b else a

/-- The smaller number; a NaN on either side is the result. -/
def min32 (a b : Single) : Single :=
  if a.isNaN then a else if b.isNaN || b.less a then b else a

/-- The larger number; a NaN on either side is the result. -/
def max32 (a b : Single) : Single :=
  if a.isNaN then a else if b.isNaN || a.less b then b else a

end Real

namespace UnaryFunction

/-- The function on 64-bit numbers of the machine. -/
def onFloat : UnaryFunction → Float → Float
  | sqrt => Float.sqrt
  | sin => Float.sin
  | cos => Float.cos
  | tan => Float.tan
  | arcsin => Float.asin
  | arccos => Float.acos
  | arctan => Float.atan
  | sinh => Float.sinh
  | cosh => Float.cosh
  | tanh => Float.tanh
  | arcsinh => Float.asinh
  | arccosh => Float.acosh
  | arctanh => Real.atanh
  | log => Float.log
  | log1p => Real.log1p
  | log10 => Float.log10
  | exp => Float.exp
  | expm1 => Real.expm1
  | absolute => Float.abs
  | conj => id
  | ceil => Float.ceil
  | floor => Float.floor

/-- The function on 32-bit numbers of the machine. -/
def onFloat32 : UnaryFunction → Float32 → Float32
  | sqrt => Float32.sqrt
  | sin => Float32.sin
  | cos => Float32.cos
  | tan => Float32.tan
  | arcsin => Float32.asin
  | arccos => Float32.acos
  | arctan => Float32.atan
  | sinh => Float32.sinh
  | cosh => Float32.cosh
  | tanh => Float32.tanh
  | arcsinh => Float32.asinh
  | arccosh => Float32.acosh
  | arctanh => Real.atanh32
  | log => Float32.log
  | log1p => Real.log1p32
  | log10 => Float32.log10
  | exp => Float32.exp
  | expm1 => fun x => (Real.expm1 x.toFloat).toFloat32
  | absolute => Float32.abs
  | conj => id
  | ceil => Float32.ceil
  | floor => Float32.floor

/-- The function on 64-bit floats. Below one the inverse of the hyperbolic cosine
is the NaN without sign. -/
def onDouble (f : UnaryFunction) (x : Double) : Double :=
  match f with
  | absolute => x.abs
  | arccosh => if x.less 1.0 then .nan else Floating.map Float.acosh x
  | f => Floating.map f.onFloat x

/-- The function on 32-bit floats. Below one the inverse of the hyperbolic cosine
is the NaN without sign. -/
def onSingle (f : UnaryFunction) (x : Single) : Single :=
  match f with
  | absolute => x.abs
  | arccosh => if x.less 1.0 then .nan else Floating.map Float32.acosh x
  | f => Floating.map f.onFloat32 x

end UnaryFunction

namespace BinaryFunction

/-- The function on 64-bit floats. -/
def onDouble : BinaryFunction → Double → Double → Double
  | fmod => Real.truncMod
  | arctan2 => Floating.map₂ Float.atan2
  | pow => Floating.map₂ Float.pow

/-- The function on 32-bit floats. -/
def onSingle : BinaryFunction → Single → Single → Single
  | fmod => Real.truncMod32
  | arctan2 => Floating.map₂ Float32.atan2
  | pow => Floating.map₂ Float32.pow

end BinaryFunction

end Lanewise
