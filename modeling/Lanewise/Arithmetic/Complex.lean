import Lanewise.Arithmetic.Real
import Lanewise.Value

/-!
# Complex arithmetic and functions

Products and quotients are the textbook formulas on the parts, the functions
are built from real ones. The order of operations is fixed: it decides the last
bit and where infinities turn into NaN.
-/

namespace Lanewise.Complex

/-! ## Arithmetic -/

def ofReal (x : Double) : Complex := ⟨x, 0.0⟩

def zero : Complex := ⟨0.0, 0.0⟩

def one : Complex := ⟨1.0, 0.0⟩

/-- The imaginary unit. -/
def unit : Complex := ⟨0.0, 1.0⟩

/-- Equality of both parts as numbers. -/
def beq (z w : Complex) : Bool :=
  z.re.same w.re && z.im.same w.im

def neg (z : Complex) : Complex := ⟨-z.re, -z.im⟩

def add (z w : Complex) : Complex := ⟨z.re + w.re, z.im + w.im⟩

def sub (z w : Complex) : Complex := ⟨z.re - w.re, z.im - w.im⟩

def mul (z w : Complex) : Complex :=
  ⟨z.re * w.re - z.im * w.im, z.re * w.im + z.im * w.re⟩

def div (z w : Complex) : Complex :=
  let n := w.re * w.re + w.im * w.im
  ⟨(z.re * w.re + z.im * w.im) / n, (z.im * w.re - z.re * w.im) / n⟩

def conj (z : Complex) : Complex := ⟨z.re, -z.im⟩

def two : Complex := add one one

/-! ## Real functions of the parts -/

private def sqrtOf : Double → Double := Floating.map Float.sqrt
private def expOf : Double → Double := Floating.map Float.exp
private def logOf : Double → Double := Floating.map Float.log
private def sinOf : Double → Double := Floating.map Float.sin
private def cosOf : Double → Double := Floating.map Float.cos
private def sinhOf : Double → Double := Floating.map Float.sinh
private def coshOf : Double → Double := Floating.map Float.cosh

/-! ## Polar form -/

/-- Distance from zero. -/
def norm (z : Complex) : Double :=
  Floating.map₂ Real.hypot z.re z.im

/-- Angle from the positive real axis. -/
def arg (z : Complex) : Double :=
  Floating.map₂ Float.atan2 z.im z.re

def ofPolar (r theta : Double) : Complex :=
  ⟨r * cosOf theta, r * sinOf theta⟩

/-! ## Functions -/

/-- The exponential. Where the real part is infinite or a NaN the angle may not
count, or not be known. -/
def exp (z : Complex) : Complex :=
  let polar := ofPolar (expOf z.re) z.im
  if z.re.isInfinite then
    if z.re.isNegative then if z.im.isFinite then polar else zero
    else if z.im.same 0.0 || !z.im.isFinite then
      ⟨z.re, if z.im.isInfinite then .nan else z.im⟩
    else polar
  else if z.re.isNaN && z.im.same 0.0 then z
  else polar

def log (z : Complex) : Complex :=
  ⟨logOf z.norm, z.arg⟩

/-- The principal root. On the axes it is exact and keeps the sign of a zero
imaginary part. -/
def sqrt (z : Complex) : Complex :=
  if z.im.same 0.0 then
    if z.re.isNegative then
      let root := sqrtOf (-z.re)
      ⟨0.0, if z.im.isNegative then -root else root⟩
    else ⟨sqrtOf z.re, z.im⟩
  else if z.re.same 0.0 then
    let x := sqrtOf (z.im.abs / 2.0)
    ⟨x, if z.im.isNegative then -x else x⟩
  else ofPolar (sqrtOf z.norm) (z.arg / 2.0)

def sin (z : Complex) : Complex :=
  ⟨sinOf z.re * coshOf z.im, cosOf z.re * sinhOf z.im⟩

def cos (z : Complex) : Complex :=
  ⟨cosOf z.re * coshOf z.im, -sinOf z.re * sinhOf z.im⟩

def sinh (z : Complex) : Complex :=
  ⟨sinhOf z.re * cosOf z.im, coshOf z.re * sinOf z.im⟩

def cosh (z : Complex) : Complex :=
  ⟨coshOf z.re * cosOf z.im, sinhOf z.re * sinOf z.im⟩

def tan (z : Complex) : Complex :=
  let re2 := z.re + z.re
  let im2 := z.im + z.im
  let d := cosOf re2 + coshOf im2
  ⟨sinOf re2 / d, sinhOf im2 / d⟩

def tanh (z : Complex) : Complex :=
  let re2 := z.re + z.re
  let im2 := z.im + z.im
  let d := coshOf re2 + cosOf im2
  ⟨sinhOf re2 / d, sinOf im2 / d⟩

def asin (z : Complex) : Complex :=
  mul (neg unit) (log (add (sqrt (sub one (mul z z))) (mul unit z)))

def acos (z : Complex) : Complex :=
  mul (neg unit) (log (add (mul unit (sqrt (sub one (mul z z)))) z))

/-- Infinite at the two points where the logarithms are. -/
def atan (z : Complex) : Complex :=
  if beq z unit then ⟨0.0, .infinity⟩
  else if beq z (neg unit) then ⟨0.0, -.infinity⟩
  else
    div (sub (log (add one (mul unit z))) (log (sub one (mul unit z)))) (mul two unit)

def asinh (z : Complex) : Complex :=
  log (add z (sqrt (add one (mul z z))))

def acosh (z : Complex) : Complex :=
  mul two (log (add (sqrt (div (add z one) two)) (sqrt (div (sub z one) two))))

/-- Infinite at the two points where the logarithms are. -/
def atanh (z : Complex) : Complex :=
  if beq z one then ⟨.infinity, 0.0⟩
  else if beq z (neg one) then ⟨-.infinity, 0.0⟩
  else div (sub (log (add one z)) (log (sub one z))) two

def log1p (z : Complex) : Complex :=
  log ⟨z.re + 1.0, z.im⟩

/-- Natural logarithm of ten. -/
def ln10 : Double := 2.302585092994046

def log10 (z : Complex) : Complex :=
  let w := log z
  ⟨w.re / ln10, w.im / ln10⟩

def expm1 (z : Complex) : Complex :=
  let w := exp z
  ⟨w.re - 1.0, w.im⟩

/-- Power. A zero exponent gives one and a zero base zero, exactly; a zero base
with any other than a positive real exponent has no value. -/
def pow (z w : Complex) : Complex :=
  if beq w zero then one
  else if beq z zero then
    if Double.less 0.0 w.re && w.im.same 0.0 then zero else ⟨.nan, .nan⟩
  else exp (mul w (log z))

end Lanewise.Complex

namespace Lanewise

/-- The function on complex numbers; the roundings have none. -/
def UnaryFunction.onComplex : UnaryFunction → Complex → Complex
  | sqrt => Complex.sqrt
  | sin => Complex.sin
  | cos => Complex.cos
  | tan => Complex.tan
  | arcsin => Complex.asin
  | arccos => Complex.acos
  | arctan => Complex.atan
  | sinh => Complex.sinh
  | cosh => Complex.cosh
  | tanh => Complex.tanh
  | arcsinh => Complex.asinh
  | arccosh => Complex.acosh
  | arctanh => Complex.atanh
  | log => Complex.log
  | log1p => Complex.log1p
  | log10 => Complex.log10
  | exp => Complex.exp
  | expm1 => Complex.expm1
  | absolute => fun z => Complex.ofReal z.norm
  | conj => Complex.conj
  | ceil | floor => id

end Lanewise
