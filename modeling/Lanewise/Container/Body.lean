import Lanewise.Bytes
import Lanewise.Kernel

/-!
# Container bodies

The encoding of a kernel behind the header: fields in order, numbers little
endian and of fixed width, lists and strings preceded by their length in eight
bytes, types and constants tagged with the number of their type in four bytes.

A `Reader` takes a value from the front of the bytes and returns the rest.
-/

namespace Lanewise.Container

/-! ## Writing -/

def writeCount (n : Nat) : List UInt8 :=
  Bytes.littleEndian 8 n

/-- Number of a type among all types. -/
def typeTag (t : ElementType) : Nat :=
  ElementType.all.idxOf t

def writeType (t : ElementType) : List UInt8 :=
  Bytes.littleEndian 4 (typeTag t)

def writeBytes (bytes : List UInt8) : List UInt8 :=
  writeCount bytes.length ++ bytes

def writeSignature (sig : Signature) : List UInt8 :=
  writeCount sig.length ++ sig.flatMap writeType

def writeConstant (c : Constant) : List UInt8 :=
  writeType c.elementType ++
    match c with
    | .bool value => [if value then 1 else 0]
    | .int value => Bytes.littleEndian 4 value.toUInt32.toNat
    | .long value => Bytes.littleEndian 8 value.toUInt64.toNat
    | .float bits => Bytes.littleEndian 4 bits.toNat
    | .double bits => Bytes.littleEndian 8 bits.toNat
    | .complex re im => Bytes.littleEndian 8 re.toNat ++ Bytes.littleEndian 8 im.toNat
    | .str bytes => writeBytes bytes

/-- The body of a container. -/
def writeBody (k : Kernel) : List UInt8 :=
  writeBytes k.program.code ++ writeSignature k.fullSignature ++ writeSignature k.inputSignature
    ++ (writeCount k.constants.length ++ k.constants.flatMap writeConstant)
    ++ writeCount k.temporaries

/-! ## Reading -/

/-- Takes a value from the front of the bytes. -/
abbrev Reader (α : Type) := StateT (List UInt8) (Except BodyError) α

/-- The next `width` bytes. -/
def readBytes (width : Nat) : Reader (List UInt8) := fun bytes =>
  if bytes.length < width then .error .endOfInput
  else .ok (bytes.take width, bytes.drop width)

/-- A number of `width` bytes. -/
def readNumber (width : Nat) : Reader Nat :=
  Bytes.ofLittleEndian <$> readBytes width

/-- A list of `n` values. -/
def readMany {α : Type} (item : Reader α) : Nat → Reader (List α)
  | 0 => pure []
  | n + 1 => do
    let head ← item
    let tail ← readMany item n
    return head :: tail

/-- A list preceded by its length. -/
def readList {α : Type} (item : Reader α) : Reader (List α) := do
  readMany item (← readNumber 8)

def readType : Reader ElementType := do
  let tag ← readNumber 4
  match ElementType.all[tag]? with
  | some t => return t
  | none => throw (.unknownTag tag)

def readBool : Reader Bool := do
  match ← readNumber 1 with
  | 0 => return false
  | 1 => return true
  | n => throw (.notABool n.toUInt8)

/-- A byte string preceded by its length. -/
def readString : Reader (List UInt8) := do
  readBytes (← readNumber 8)

def readConstant : Reader Constant := do
  match ← readType with
  | .bool => .bool <$> readBool
  | .int => return .int (← readNumber 4).toUInt32.toInt32
  | .long => return .long (← readNumber 8).toUInt64.toInt64
  | .float => return .float (← readNumber 4).toUInt32
  | .double => return .double (← readNumber 8).toUInt64
  | .complex => return .complex (← readNumber 8).toUInt64 (← readNumber 8).toUInt64
  | .str => .str <$> readString

/-- The kernel whose body starts the bytes. -/
def readBody : Reader Kernel := do
  let code ← readString
  let full ← readList readType
  let inputs ← readList readType
  let constants ← readList readConstant
  let temporaries ← readNumber 8
  return ⟨⟨code⟩, full, inputs, constants, temporaries⟩

end Lanewise.Container
