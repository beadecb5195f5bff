import Lanewise.Function

/-!
# Operations and opcodes

An `Operation` says what an instruction computes; its operand kinds and its
mnemonic are read off it. An `Opcode` is a byte that stands for one of the
operations of the `instructionSet`, which lists each of them once. Everything
else about an opcode (width, signature, being a reduction) is derived.
-/

namespace Lanewise

/-- Comparisons that yield a bool. -/
inductive Relation where
  | gt | ge | eq | ne
  deriving DecidableEq

/-- Binary arithmetic. -/
inductive Arithmetic where
  | add | sub | mul | div | pow | mod
  deriving DecidableEq

/-- How a reduction combines the values of a group. -/
inductive Reducer where
  | sum | prod | min | max
  deriving DecidableEq

/-- Name of a reducer in messages. -/
def Reducer.name : Reducer → String
  | .sum => "Sum"
  | .prod => "Prod"
  | .min => "Min"
  | .max => "Max"

/-- What one instruction computes, lane by lane. -/
inductive Operation where
  | noop
  | copy (t : ElementType)
  | invert
  | and
  | or
  | compare (r : Relation) (t : ElementType)
  | cast (source target : ElementType)
  /-- The value one in every lane, whatever the source holds. -/
  | onesLike (t : ElementType)
  | neg (t : ElementType)
  | arithmetic (op : Arithmetic) (t : ElementType)
  | sqrt (t : ElementType)
  /-- Choose between two sources by a bool. -/
  | select (t : ElementType)
  /-- Apply the function of the family that the index operand names. -/
  | call (family : FunctionFamily)
  | real
  | imag
  /-- Join a real and an imaginary part. -/
  | complex
  /-- Fold the source along the axis that the index operand names. -/
  | reduce (reducer : Reducer) (t : ElementType)
  deriving DecidableEq

/-- What an operand byte refers to. -/
inductive OperandKind where
  /-- A register of the given type. -/
  | register (t : ElementType)
  /-- A function index or a reduction axis. -/
  | index
  deriving DecidableEq

namespace OperandKind

/-- The letter of the operand in a mnemonic. -/
def toChar : OperandKind → Char
  | register t => t.toChar
  | index => 'n'

end OperandKind

namespace Operation

/-- Type of the destination register; a `noop` has none. -/
def result? : Operation → Option ElementType
  | noop => none
  | copy t | onesLike t | neg t | sqrt t | select t => some t
  | arithmetic _ t | reduce _ t => some t
  | invert | and | or | compare _ _ => some .bool
  | cast _ target => some target
  | call family => some family.elementType
  | real | imag => some .double
  | complex => some .complex

/-- Types of the source registers. -/
def arguments : Operation → List ElementType
  | noop => []
  | copy t | onesLike t | neg t | sqrt t | reduce _ t => [t]
  | arithmetic _ t => [t, t]
  | invert => [.bool]
  | and | or => [.bool, .bool]
  | compare _ t => [t, t]
  | cast source _ => [source]
  | select t => [.bool, t, t]
  | call family => List.replicate family.arity family.elementType
  | real | imag => [.complex]
  | complex => [.double, .double]

/-- Whether the last operand is an index. -/
def hasIndex : Operation → Bool
  | call _ | reduce _ _ => true
  | _ => false

/-- Operand kinds in encoding order: destination, sources, index. -/
def operandKinds (op : Operation) : List OperandKind :=
  op.result?.toList.map .register ++ op.arguments.map .register
    ++ (if op.hasIndex then [.index] else [])

/-- The part of the mnemonic before the signature. -/
def stem : Operation → String
  | noop => "noop"
  | copy _ => "copy"
  | invert => "invert"
  | and => "and"
  | or => "or"
  | compare .gt _ => "gt"
  | compare .ge _ => "ge"
  | compare .eq _ => "eq"
  | compare .ne _ => "ne"
  | cast _ _ => "cast"
  | onesLike _ => "ones_like"
  | neg _ => "neg"
  | arithmetic .add _ => "add"
  | arithmetic .sub _ => "sub"
  | arithmetic .mul _ => "mul"
  | arithmetic .div _ => "div"
  | arithmetic .pow _ => "pow"
  | arithmetic .mod _ => "mod"
  | sqrt _ => "sqrt"
  | select _ => "where"
  | call _ => "func"
  | real => "real"
  | imag => "imag"
  | complex => "complex"
  | reduce .sum _ => "sum"
  | reduce .prod _ => "prod"
  | reduce .min _ => "min"
  | reduce .max _ => "max"

/-- The letters of the operand kinds. -/
def signature (op : Operation) : String :=
  String.ofList (op.operandKinds.map OperandKind.toChar)

/-- The name in assembly text: the stem and the signature. -/
def mnemonic (op : Operation) : String :=
  match op.signature with
  | "" => op.stem
  | sig => op.stem ++ "_" ++ sig

/-- Number of operand bytes. -/
def operandCount (op : Operation) : Nat :=
  op.operandKinds.length

/-- A fourth operand does not fit the first slot and takes a second one. -/
def isDoubleWidth (op : Operation) : Bool :=
  3 < op.operandCount

/-- The reducer, for a reduction. -/
def reducer? : Operation → Option Reducer
  | reduce r _ => some r
  | _ => none

def isReduction (op : Operation) : Bool :=
  op.reducer?.isSome

/-- The function family, for a call. -/
def family? : Operation → Option FunctionFamily
  | call family => some family
  | _ => none

theorem operandCount_le (op : Operation) : op.operandCount ≤ 4 := by
  cases op
  case call family => cases family <;> decide
  all_goals simp [operandCount, operandKinds, result?, arguments, hasIndex]

end Operation

open ElementType in
/-- The operations a program can use, each at the position that is its byte. -/
def instructionSet : Array Operation := #[
  .noop,
  -- bools
  .copy bool, .invert, .and, .or, .compare .eq bool, .compare .ne bool,
  -- comparisons
  .compare .gt int, .compare .ge int, .compare .eq int, .compare .ne int,
  .compare .gt long, .compare .ge long, .compare .eq long, .compare .ne long,
  .compare .gt float, .compare .ge float, .compare .eq float, .compare .ne float,
  .compare .gt double, .compare .ge double, .compare .eq double, .compare .ne double,
  .compare .gt str, .compare .ge str, .compare .eq str, .compare .ne str,
  -- 32-bit integers
  .cast bool int, .copy int, .onesLike int, .neg int,
  .arithmetic .add int, .arithmetic .sub int, .arithmetic .mul int,
  .arithmetic .div int, .arithmetic .pow int, .arithmetic .mod int, .select int,
  -- 64-bit integers
  .cast int long, .copy long, .onesLike long, .neg long,
  .arithmetic .add long, .arithmetic .sub long, .arithmetic .mul long,
  .arithmetic .div long, .arithmetic .pow long, .arithmetic .mod long, .select long,
  -- 32-bit floats
  .cast int float, .cast long float, .copy float, .onesLike float, .neg float,
  .arithmetic .add float, .arithmetic .sub float, .arithmetic .mul float,
  .arithmetic .div float, .arithmetic .pow float, .arithmetic .mod float,
  .sqrt float, .select float, .call .ff, .call .fff,
  -- 64-bit floats
  .cast int double, .cast long double, .cast float double,
  .copy double, .onesLike double, .neg double,
  .arithmetic .add double, .arithmetic .sub double, .arithmetic .mul double,
  .arithmetic .div double, .arithmetic .pow double, .arithmetic .mod double,
  .sqrt double, .select double, .call .dd, .call .ddd,
  -- complex numbers
  .compare .eq complex, .compare .ne complex,
  .cast int complex, .cast long complex, .cast float complex, .cast double complex,
  .onesLike complex, .copy complex, .neg complex,
  .arithmetic .add complex, .arithmetic .sub complex, .arithmetic .mul complex,
  .arithmetic .div complex, .select complex, .call .cc, .call .ccc,
  .real, .imag, .complex,
  -- strings
  .copy str,
  -- reductions
  .reduce .sum int, .reduce .sum long, .reduce .sum float, .reduce .sum double,
  .reduce .sum complex,
  .reduce .prod int, .reduce .prod long, .reduce .prod float, .reduce .prod double,
  .reduce .prod complex,
  .reduce .min int, .reduce .min long, .reduce .min float, .reduce .min double,
  .reduce .max int, .reduce .max long, .reduce .max float, .reduce .max double]

/-- A byte that stands for an operation. -/
structure Opcode where
  byte : UInt8
  isDefined : byte.toNat < instructionSet.size
  deriving DecidableEq

namespace Opcode

def operation (op : Opcode) : Operation :=
  have := op.isDefined
  instructionSet[op.byte.toNat]

/-- The opcode of a byte, if the byte stands for an operation. -/
def ofByte? (byte : UInt8) : Option Opcode :=
  if h : byte.toNat < instructionSet.size then some ⟨byte, h⟩ else none

/-- The byte that starts an empty slot and the second slot of a
double-width instruction. -/
def noop : Opcode := ⟨0, by decide⟩

/-- Every opcode, by byte. -/
def all : List Opcode :=
  (List.range instructionSet.size).filterMap fun n => ofByte? n.toUInt8

def mnemonic (op : Opcode) : String :=
  op.operation.mnemonic

/-- The opcode a mnemonic names, if there is one. -/
def ofMnemonic? (name : String) : Option Opcode :=
  all.find? (·.mnemonic == name)

theorem ofByte?_byte (op : Opcode) : ofByte? op.byte = some op := by
  simp [ofByte?, op.isDefined]

theorem byte_of_ofByte? {byte : UInt8} {op : Opcode} (h : ofByte? byte = some op) :
    op.byte = byte := by
  unfold ofByte? at h
  split at h <;> cases h
  rfl

end Opcode

end Lanewise
