import Lanewise.ElementType

/-!
# Callable functions

The functions a program can call, and the six families a call instruction
picks from. An instruction names a function by its position in the family, so
the order of each list is part of the program format.
-/

namespace Lanewise

/-- Functions of one argument. -/
inductive UnaryFunction where
  | sqrt | sin | cos | tan | arcsin | arccos | arctan
  | sinh | cosh | tanh | arcsinh | arccosh | arctanh
  | log | log1p | log10 | exp | expm1 | absolute | conj | ceil | floor
  deriving DecidableEq

namespace UnaryFunction

def name : UnaryFunction → String
  | sqrt => "sqrt"
  | sin => "sin"
  | cos => "cos"
  | tan => "tan"
  | arcsin => "arcsin"
  | arccos => "arccos"
  | arctan => "arctan"
  | sinh => "sinh"
  | cosh => "cosh"
  | tanh => "tanh"
  | arcsinh => "arcsinh"
  | arccosh => "arccosh"
  | arctanh => "arctanh"
  | log => "log"
  | log1p => "log1p"
  | log10 => "log10"
  | exp => "exp"
  | expm1 => "expm1"
  | absolute => "absolute"
  | conj => "conj"
  | ceil => "ceil"
  | floor => "floor"

/-- The functions defined on complex numbers. -/
def complexList : List UnaryFunction :=
  [sqrt, sin, cos, tan, arcsin, arccos, arctan, sinh, cosh, tanh, arcsinh,
    arccosh, arctanh, log, log1p, log10, exp, expm1, absolute, conj]

/-- The functions defined on real numbers: those on complex numbers, at the
same positions, and the two roundings. -/
def realList : List UnaryFunction :=
  complexList ++ [ceil, floor]

end UnaryFunction

/-- Functions of two arguments. -/
inductive BinaryFunction where
  | fmod | arctan2 | pow
  deriving DecidableEq

namespace BinaryFunction

def name : BinaryFunction → String
  | fmod => "fmod"
  | arctan2 => "arctan2"
  | pow => "pow"

/-- The functions defined on pairs of real numbers. -/
def realList : List BinaryFunction := [fmod, arctan2]

/-- The functions defined on pairs of complex numbers. -/
def complexList : List BinaryFunction := [pow]

end BinaryFunction

/-- A table of functions that share their argument and result type. The
letters spell the argument types. -/
inductive FunctionFamily where
  | ff | fff | dd | ddd | cc | ccc
  deriving DecidableEq

namespace FunctionFamily

def all : List FunctionFamily := [ff, fff, dd, ddd, cc, ccc]

/-- The type of every argument and of the result. -/
def elementType : FunctionFamily → ElementType
  | ff | fff => .float
  | dd | ddd => .double
  | cc | ccc => .complex

/-- How many arguments the functions take. -/
def arity : FunctionFamily → Nat
  | ff | dd | cc => 1
  | fff | ddd | ccc => 2

/-- The result letter, then the argument letters without the first. -/
def text : FunctionFamily → String
  | ff => "ff"
  | fff => "fff"
  | dd => "dd"
  | ddd => "ddd"
  | cc => "cc"
  | ccc => "ccc"

/-- Function names, in index order. -/
def names : FunctionFamily → List String
  | ff | dd => UnaryFunction.realList.map UnaryFunction.name
  | cc => UnaryFunction.complexList.map UnaryFunction.name
  | fff | ddd => BinaryFunction.realList.map BinaryFunction.name
  | ccc => BinaryFunction.complexList.map BinaryFunction.name

/-- Number of functions; the valid indices are those below it. -/
def size (family : FunctionFamily) : Nat :=
  family.names.length

/-- The index a name has, if the family holds it. -/
def indexOf? (family : FunctionFamily) (name : String) : Option UInt8 :=
  (family.names.findIdx? (· == name)).map Nat.toUInt8

/-- The name at an index, if it is in range. -/
def name? (family : FunctionFamily) (index : UInt8) : Option String :=
  family.names[index.toNat]?

/-- The names of a family are distinct, so each leads back to its index. -/
theorem indexOf?_names (family : FunctionFamily) :
    ∀ i : Fin family.size, family.indexOf? (family.names.get i) = some i.val.toUInt8 := by
  cases family <;> decide

end FunctionFamily

end Lanewise
