import Lanewise.Arithmetic.Complex
import Lanewise.Arithmetic.Integer
import Lanewise.Constant
import Lanewise.Opcode
import Lanewise.Text.Padded

/-!
# Rules of operations

What each operation computes, as a function on values. Almost every rule maps
the values of one lane to a value of the same lane; reductions combine lanes.
-/

namespace Lanewise

/-- One value for each type of a list. -/
inductive Values : List ElementType → Type where
  | nil : Values []
  | cons {t : ElementType} {ts : List ElementType} : t.Value → Values ts → Values (t :: ts)

inductive Rule where
  /-- Every lane on its own. -/
  | map (arguments : List ElementType) (result : ElementType) (f : Values arguments → result.Value)
  /-- Lanes combined into an accumulator, which stands to the left. -/
  | fold (t : ElementType) (combine : t.Value → t.Value → t.Value)

namespace Rule

def unary (a r : ElementType) (f : a.Value → r.Value) : Rule :=
  .map [a] r fun | .cons x .nil => f x

def binary (a b r : ElementType) (f : a.Value → b.Value → r.Value) : Rule :=
  .map [a, b] r fun | .cons x (.cons y .nil) => f x y

/-- Choose between two values by a bool. -/
def select (t : ElementType) : Rule :=
  .map [.bool, t, t] t fun
    | .cons (c : Bool) (.cons x (.cons y .nil)) => if c then x else y

end Rule

/-! ## Comparisons -/

namespace Relation

/-- The relation on ordered values. -/
def ofOrder {α : Type} (less atMost same : α → α → Bool) : Relation → α → α → Bool
  | gt, a, b => less b a
  | ge, a, b => atMost b a
  | eq, a, b => same a b
  | ne, a, b => !same a b

/-- The relation on values without an order. -/
def ofEquality? {α : Type} (same : α → α → Bool) : Relation → Option (α → α → Bool)
  | eq => some same
  | ne => some fun a b => !same a b
  | gt | ge => none

/-- The relation on values of a type. A NaN is neither above, below nor equal to
anything; strings compare by their bytes without regard to padding. -/
def on? (r : Relation) : (t : ElementType) → Option (t.Value → t.Value → Bool)
  | .bool => ofEquality? (fun (a b : Bool) => a == b) r
  | .int => some (ofOrder (fun (a b : Int32) => a < b) (fun (a b : Int32) => a ≤ b)
      (fun (a b : Int32) => a == b) r)
  | .long => some (ofOrder (fun (a b : Int64) => a < b) (fun (a b : Int64) => a ≤ b)
      (fun (a b : Int64) => a == b) r)
  | .float => some (ofOrder Single.less Single.atMost Single.same r)
  | .double => some (ofOrder Double.less Double.atMost Double.same r)
  | .complex => ofEquality? Complex.beq r
  | .str =>
    some (ofOrder (fun a b => Text.comparePadded a b == .lt)
      (fun a b => Text.comparePadded a b != .gt) (fun a b => Text.comparePadded a b == .eq) r)

end Relation

/-! ## Arithmetic -/

namespace Arithmetic

def onInt : Arithmetic → Int32 → Int32 → Int32
  | add => (· + ·)
  | sub => (· - ·)
  | mul => (· * ·)
  | div => Integer.div32
  | pow => Integer.pow32
  | mod => Integer.floorMod32

def onLong : Arithmetic → Int64 → Int64 → Int64
  | add => (· + ·)
  | sub => (· - ·)
  | mul => (· * ·)
  | div => Integer.div64
  | pow => Integer.pow
  | mod => Integer.floorMod

def onSingle : Arithmetic → Single → Single → Single
  | add => (· + ·)
  | sub => (· - ·)
  | mul => (· * ·)
  | div => (· / ·)
  | pow => BinaryFunction.pow.onSingle
  | mod => Real.floorMod32

def onDouble : Arithmetic → Double → Double → Double
  | add => (· + ·)
  | sub => (· - ·)
  | mul => (· * ·)
  | div => (· / ·)
  | pow => BinaryFunction.pow.onDouble
  | mod => Real.floorMod

/-- Powers of complex numbers are called by name, and they have no modulo. -/
def onComplex? : Arithmetic → Option (Complex → Complex → Complex)
  | add => some Complex.add
  | sub => some Complex.sub
  | mul => some Complex.mul
  | div => some Complex.div
  | pow | mod => none

def on? (op : Arithmetic) : (t : ElementType) → Option (t.Value → t.Value → t.Value)
  | .int => some op.onInt
  | .long => some op.onLong
  | .float => some op.onSingle
  | .double => some op.onDouble
  | .complex => op.onComplex?
  | .bool | .str => none

end Arithmetic

namespace ElementType

/-- The value one. -/
def one? : (t : ElementType) → Option t.Value
  | int => some (1 : Int32)
  | long => some (1 : Int64)
  | float => some (1.0 : Single)
  | double => some (1.0 : Double)
  | complex => some Complex.one
  | bool | str => none

/-- The additive inverse. -/
def neg? : (t : ElementType) → Option (t.Value → t.Value)
  | int => some fun (n : Int32) => -n
  | long => some fun (n : Int64) => -n
  | float => some fun (x : Single) => -x
  | double => some fun (x : Double) => -x
  | complex => some Complex.neg
  | bool | str => none

/-- The square root as an operation of its own. -/
def sqrt? : (t : ElementType) → Option (t.Value → t.Value)
  | float => some UnaryFunction.sqrt.onSingle
  | double => some UnaryFunction.sqrt.onDouble
  | bool | int | long | complex | str => none

/-- Conversion to a type that holds more. -/
def cast? : (source target : ElementType) → Option (source.Value → target.Value)
  | bool, int => some fun (b : Bool) => if b then (1 : Int32) else (0 : Int32)
  | int, long => some Int32.toInt64
  | int, float => some Single.ofInt32
  | long, float => some Single.ofInt64
  | int, double => some Double.ofInt32
  | long, double => some Double.ofInt64
  | float, double => some Single.widen
  | int, complex => some fun (n : Int32) => Complex.ofReal (.ofInt32 n)
  | long, complex => some fun (n : Int64) => Complex.ofReal (.ofInt64 n)
  | float, complex => some fun (x : Single) => Complex.ofReal x.widen
  | double, complex => some Complex.ofReal
  | _, _ => none

end ElementType

/-! ## Reductions -/

namespace Reducer

/-- How a reducer combines two values of a type. -/
def on? : Reducer → (t : ElementType) → Option (t.Value → t.Value → t.Value)
  | sum, .int => some fun (a b : Int32) => a + b
  | sum, .long => some fun (a b : Int64) => a + b
  | sum, .float => some fun (a b : Single) => a + b
  | sum, .double => some fun (a b : Double) => a + b
  | sum, .complex => some Complex.add
  | prod, .int => some fun (a b : Int32) => a * b
  | prod, .long => some fun (a b : Int64) => a * b
  | prod, .float => some fun (a b : Single) => a * b
  | prod, .double => some fun (a b : Double) => a * b
  | prod, .complex => some Complex.mul
  | min, .int => some fun (a b : Int32) => if b < a then b else a
  | min, .long => some fun (a b : Int64) => if b < a then b else a
  | min, .float => some Real.min32
  | min, .double => some Real.min
  | max, .int => some fun (a b : Int32) => if a < b then b else a
  | max, .long => some fun (a b : Int64) => if a < b then b else a
  | max, .float => some Real.max32
  | max, .double => some Real.max
  | _, _ => none

/-- Value of an accumulator before any lane. -/
def identity? : Reducer → ElementType → Option Constant
  | sum, .int => some (.int 0)
  | sum, .long => some (.long 0)
  | sum, .float => some (.float 0)
  | sum, .double => some (.double 0)
  | sum, .complex => some (.complex 0 0)
  | prod, .int => some (.int 1)
  | prod, .long => some (.long 1)
  | prod, .float => some (.float 0x3f800000)
  | prod, .double => some (.double 0x3ff0000000000000)
  | prod, .complex => some (.complex 0x3ff0000000000000 0)
  | min, .int => some (.int Int32.maxValue)
  | min, .long => some (.long Int64.maxValue)
  | min, .float => some (.float 0x7f800000)
  | min, .double => some (.double 0x7ff0000000000000)
  | max, .int => some (.int Int32.minValue)
  | max, .long => some (.long Int64.minValue)
  | max, .float => some (.float 0xff800000)
  | max, .double => some (.double 0xfff0000000000000)
  | _, _ => none

end Reducer

/-! ## Calls -/

/-- The rule of the function at an index of a family. -/
def FunctionFamily.rule? (family : FunctionFamily) (index : UInt8) : Option Rule :=
  let i := index.toNat
  match family with
  | ff => UnaryFunction.realList[i]?.map fun f => .unary .float .float f.onSingle
  | dd => UnaryFunction.realList[i]?.map fun f => .unary .double .double f.onDouble
  | cc => UnaryFunction.complexList[i]?.map fun f => .unary .complex .complex f.onComplex
  | fff => BinaryFunction.realList[i]?.map fun f => .binary .float .float .float f.onSingle
  | ddd => BinaryFunction.realList[i]?.map fun f => .binary .double .double .double f.onDouble
  | ccc => BinaryFunction.complexList[i]?.map fun _ =>
    .binary .complex .complex .complex Complex.pow

/-- A family has rules exactly at its indices. -/
theorem FunctionFamily.isSome_rule? (family : FunctionFamily) (index : UInt8) :
    (family.rule? index).isSome = decide (index.toNat < family.size) := by
  rw [Bool.eq_iff_iff]
  cases family <;> simp [rule?, size, names]

/-! ## Operations -/

namespace Operation

/-- The rule of an operation. A call takes its function from the index operand;
`noop` has no rule. -/
def rule? (op : Operation) (index : UInt8) : Option Rule :=
  match op with
  | noop => none
  | copy t => some (.unary t t fun x => x)
  | invert => some (.unary .bool .bool Bool.not)
  | and => some (.binary .bool .bool .bool Bool.and)
  | or => some (.binary .bool .bool .bool Bool.or)
  | compare r t => (r.on? t).map (.binary t t .bool)
  | cast source target => (source.cast? target).map (.unary source target)
  | onesLike t => t.one?.map fun one => .unary t t fun _ => one
  | neg t => t.neg?.map (.unary t t)
  | arithmetic f t => (f.on? t).map (.binary t t t)
  | sqrt t => t.sqrt?.map (.unary t t)
  | select t => some (.select t)
  | call family => family.rule? index
  | real => some (.unary .complex .double Complex.re)
  | imag => some (.unary .complex .double Complex.im)
  | complex => some (.binary .double .double .complex Complex.mk)
  | reduce r t => (r.on? t).map (.fold t)

end Operation

end Lanewise
