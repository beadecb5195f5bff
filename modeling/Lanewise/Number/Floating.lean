import Lanewise.Number.Binary

/-!
# Floating-point numbers

Numbers of 64 and 32 bits, told apart by their bits. The machine computes with
them; its own numbers do not tell one NaN from another, so the sign of a NaN is
looked after here: an operation that meets a NaN gives the first one it meets,
and one that has no value gives `invalid`, which is negative.
-/

namespace Lanewise

structure Double where
  bits : UInt64
  deriving DecidableEq

structure Single where
  bits : UInt32
  deriving DecidableEq

/-- Bit patterns that stand for the numbers of the machine type `Host`. -/
class Floating (α : Type) (Host : outParam Type) where
  toHost : α → Host
  /-- The bits of a number, none for a NaN. -/
  ofHost? : Host → Option α
  isNaN : α → Bool
  /-- What an operation without a value gives. -/
  invalid : α

namespace Floating

variable {α Host : Type} [Floating α Host]

/-- The result of an operation on numbers. -/
@[inline] def ofResult (x : Host) : α :=
  (ofHost? x).getD invalid

/-- An operation of the machine. No operation makes a number of a NaN. -/
@[inline] def map (f : Host → Host) (x : α) : α :=
  if isNaN x then x else ofResult (f (toHost x))

/-- An operation of the machine with two operands. Few of them make a number of
a NaN and another operand. -/
@[inline] def map₂ (f : Host → Host → Host) (x y : α) : α :=
  match ofHost? (f (toHost x) (toHost y)) with
  | some result => result
  | none => if isNaN x then x else if isNaN y then y else invalid

/-- A comparison of the machine. None holds of a NaN. -/
@[inline] def test (r : Host → Host → Bool) (x y : α) : Bool :=
  r (toHost x) (toHost y)

end Floating

namespace Double

instance : Floating Double Float where
  toHost x := .ofBits x.bits
  ofHost? x := if x.isNaN then none else some ⟨x.toBits⟩
  isNaN x := 0x7ff0000000000000 < (x.bits &&& 0x7fffffffffffffff)
  invalid := ⟨0xfff8000000000000⟩

instance : OfScientific Double where
  ofScientific m s e := Floating.ofResult (OfScientific.ofScientific m s e : Float)

instance : Add Double := ⟨Floating.map₂ (· + ·)⟩
instance : Sub Double := ⟨Floating.map₂ (· - ·)⟩
instance : Mul Double := ⟨Floating.map₂ (· * ·)⟩
instance : Div Double := ⟨Floating.map₂ (· / ·)⟩

/-- The other sign, also of a NaN. -/
instance : Neg Double := ⟨fun x => ⟨x.bits ^^^ 0x8000000000000000⟩⟩

def infinity : Double := ⟨0x7ff0000000000000⟩

/-- The NaN without sign. -/
def nan : Double := ⟨0x7ff8000000000000⟩

def isNaN (x : Double) : Bool :=
  Floating.isNaN x

/-- Whether the sign bit is set, as it is for a negative zero. -/
def isNegative (x : Double) : Bool :=
  x.bits >>> 63 == 1

/-- The number without its sign. -/
def abs (x : Double) : Double :=
  ⟨x.bits &&& 0x7fffffffffffffff⟩

def isInfinite (x : Double) : Bool :=
  x.abs.bits == infinity.bits

def isFinite (x : Double) : Bool :=
  x.abs.bits < infinity.bits

/-- Equality of numbers: the zeros are equal, a NaN equals nothing. -/
def same (x y : Double) : Bool :=
  Floating.test (· == ·) x y

def less (x y : Double) : Bool :=
  Floating.test (fun a b => a < b) x y

def atMost (x y : Double) : Bool :=
  Floating.test (fun a b => a ≤ b) x y

def ofInt32 (n : Int32) : Double := Floating.ofResult n.toFloat

/-- The number nearest to an integer. -/
def ofInt64 (n : Int64) : Double := Floating.ofResult n.toFloat

end Double

namespace Single

instance : Floating Single Float32 where
  toHost x := .ofBits x.bits
  ofHost? x := if x.isNaN then none else some ⟨x.toBits⟩
  isNaN x := 0x7f800000 < (x.bits &&& 0x7fffffff)
  invalid := ⟨0xffc00000⟩

instance : OfScientific Single where
  ofScientific m s e := Floating.ofResult (OfScientific.ofScientific m s e : Float32)

instance : Add Single := ⟨Floating.map₂ (· + ·)⟩
instance : Sub Single := ⟨Floating.map₂ (· - ·)⟩
instance : Mul Single := ⟨Floating.map₂ (· * ·)⟩
instance : Div Single := ⟨Floating.map₂ (· / ·)⟩

/-- The other sign, also of a NaN. -/
instance : Neg Single := ⟨fun x => ⟨x.bits ^^^ 0x80000000⟩⟩

/-- The NaN without sign. -/
def nan : Single := ⟨0x7fc00000⟩

def isNaN (x : Single) : Bool :=
  Floating.isNaN x

/-- The number without its sign. -/
def abs (x : Single) : Single :=
  ⟨x.bits &&& 0x7fffffff⟩

/-- Equality of numbers: the zeros are equal, a NaN equals nothing. -/
def same (x y : Single) : Bool :=
  Floating.test (· == ·) x y

def less (x y : Single) : Bool :=
  Floating.test (fun a b => a < b) x y

def atMost (x y : Single) : Bool :=
  Floating.test (fun a b => a ≤ b) x y

/-- The number nearest to an integer. -/
def ofInt32 (n : Int32) : Single := Floating.ofResult n.toFloat32

/-- The number nearest to an integer. -/
def ofInt64 (n : Int64) : Single := Floating.ofResult n.toFloat32

/-- The same number in 64 bits; a NaN keeps its sign. -/
def widen (x : Single) : Double :=
  if x.isNaN then (if x.bits >>> 31 == 1 then -Double.nan else Double.nan)
  else Floating.ofResult (Floating.toHost x).toFloat

end Single

end Lanewise
