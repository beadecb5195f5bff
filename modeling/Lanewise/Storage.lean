import Lanewise.Constant
import Lanewise.Text.Padded
import Lanewise.Value

/-!
# Storage of values

A storage says how the elements of a column are kept. It fixes the element
type and, for strings, the width; `read?` and `write?` are the only ways in and
out. The two integer widths convert into each other there, no other types do.
-/

namespace Lanewise

inductive Storage where
  | bool | int | long | float | double | complex
  /-- Strings of a fixed number of bytes. -/
  | str (width : Nat)
  deriving DecidableEq

namespace Storage

def elementType : Storage → ElementType
  | bool => .bool
  | int => .int
  | long => .long
  | float => .float
  | double => .double
  | complex => .complex
  | str _ => .str

/-- Bytes of a string, 0 for other types. -/
def stringWidth : Storage → Nat
  | str width => width
  | _ => 0

/-- Bytes of one element. -/
def cellSize (s : Storage) : Nat :=
  max s.elementType.itemSize s.stringWidth

/-- One stored element. -/
def Cell : Storage → Type
  | bool => Bool
  | int => Int32
  | long => Int64
  | float => Single
  | double => Double
  | complex => Complex
  | str width => Vector UInt8 width

/-- The element that fills fresh columns: false, zero or NULs. -/
def zero : (s : Storage) → s.Cell
  | bool => false
  | int => (0 : Int32)
  | long => (0 : Int64)
  | float => (0.0 : Single)
  | double => (0.0 : Double)
  | complex => (⟨0.0, 0.0⟩ : Complex)
  | str width => Vector.replicate width 0

/-- How a stored element is read as a value of a type, if it can be. -/
def read? : (s : Storage) → (t : ElementType) → Option (s.Cell → t.Value)
  | bool, .bool => some fun (b : Bool) => b
  | int, .int => some fun (n : Int32) => n
  | int, .long => some fun (n : Int32) => n.toInt64
  | long, .int => some fun (n : Int64) => n.toInt32
  | long, .long => some fun (n : Int64) => n
  | float, .float => some fun (x : Single) => x
  | double, .double => some fun (x : Double) => x
  | complex, .complex => some fun (z : Complex) => z
  | str _, .str => some Vector.toList
  | _, _ => none

/-- How a value of a type is stored, if it can be. -/
def write? : (s : Storage) → (t : ElementType) → Option (t.Value → s.Cell)
  | bool, .bool => some fun (b : Bool) => b
  | int, .int => some fun (n : Int32) => n
  | int, .long => some fun (n : Int64) => n.toInt32
  | long, .int => some fun (n : Int32) => n.toInt64
  | long, .long => some fun (n : Int64) => n
  | float, .float => some fun (x : Single) => x
  | double, .double => some fun (x : Double) => x
  | complex, .complex => some fun (z : Complex) => z
  | str width, .str => some (Text.padded width)
  | _, _ => none

/-- How an element moves between storages of one type, if they are of one. A
string is cut off or filled up with NUL. -/
def copy? (source target : Storage) : Option (source.Cell → target.Cell) := do
  guard (source.elementType = target.elementType)
  let read ← source.read? source.elementType
  let write ← target.write? source.elementType
  return write ∘ read

/-- A type is read exactly where the storage stands for it. -/
theorem isSome_read? (s : Storage) (t : ElementType) :
    (s.read? t).isSome = s.elementType.accepts t := by
  cases s <;> cases t <;> rfl

/-- What can be read can be written. -/
theorem isSome_write? (s : Storage) (t : ElementType) :
    (s.write? t).isSome = s.elementType.accepts t := by
  cases s <;> cases t <;> rfl

end Storage

/-- The storage for a type; the width counts for strings, which have at least
one byte. -/
def ElementType.storage (width : Nat) : ElementType → Storage
  | .bool => .bool
  | .int => .int
  | .long => .long
  | .float => .float
  | .double => .double
  | .complex => .complex
  | .str => .str (max width 1)

theorem ElementType.elementType_storage (t : ElementType) (width : Nat) :
    (t.storage width).elementType = t := by
  cases t <;> rfl

theorem ElementType.storage_of_storage (t : ElementType) (width : Nat) :
    (t.storage width).elementType.storage (t.storage width).stringWidth = t.storage width := by
  cases t with
  | str => exact congrArg Storage.str (Nat.max_eq_left (Nat.le_max_right width 1))
  | _ => rfl

/-- How a constant is read as a value of a type, if it can be. The two integer
widths convert into each other. -/
def Constant.value? : Constant → (t : ElementType) → Option t.Value
  | .bool b, .bool => some b
  | .int n, .int => some n
  | .int n, .long => some n.toInt64
  | .long n, .int => some n.toInt32
  | .long n, .long => some n
  | .float bits, .float => some (Single.mk bits)
  | .double bits, .double => some (Double.mk bits)
  | .complex re im, .complex => some ⟨⟨re⟩, ⟨im⟩⟩
  | .str bytes, .str => some bytes
  | _, _ => none

theorem Constant.isSome_value? (c : Constant) (t : ElementType) :
    (c.value? t).isSome = c.elementType.accepts t := by
  cases c <;> cases t <;> rfl

end Lanewise
