import Lanewise.Column
import Lanewise.Shape

/-!
# Arrays

Host arrays: a column laid out over a shape in row-major order.
-/

namespace Lanewise

structure NdArray where
  data : Column
  shape : Shape

namespace NdArray

/-- A column under a shape with as many elements. -/
def ofColumn (data : Column) (shape : Shape) : Except EvalError NdArray := do
  let expected ← shape.checkedSize
  if data.size = expected then return ⟨data, shape⟩
  else throw (.shape (.elementCount data.size shape))

/-- A column as an array of one dimension. -/
def ofVector (data : Column) : NdArray :=
  ⟨data, [data.size]⟩

/-- The first element of a column as an array without dimensions. -/
def scalar (data : Column) : NdArray :=
  ⟨data.head 1, []⟩

/-- Zeros; the width counts for strings. -/
def zeros [Allocator] (t : ElementType) (width : Nat) (shape : Shape) :
    Except EvalError NdArray := do
  let size ← shape.checkedSize
  return ⟨← Column.zeros (t.storage width) size, shape⟩

/-- One constant throughout. -/
def full [Allocator] (c : Constant) (t : ElementType) (shape : Shape) :
    Except EvalError NdArray := do
  let size ← shape.checkedSize
  return ⟨← Column.filled c t c.stringWidth size, shape⟩

/-- Width of the longest string, 1 when there is none. -/
def longest (items : List (List UInt8)) : Nat :=
  match items with
  | [] => 1
  | _ => (items.map List.length).foldl max 0

/-- The same elements under another shape. -/
def reshape (a : NdArray) (shape : Shape) : Except EvalError NdArray :=
  ofColumn a.data shape

/-- Number of elements. -/
def size (a : NdArray) : Nat :=
  a.data.size

def elementType (a : NdArray) : ElementType :=
  a.data.elementType

/-- Bytes of each string, 0 for other types. -/
def stringWidth (a : NdArray) : Nat :=
  a.data.stringWidth

/-- The string at a position, without its padding. -/
def stringAt? (a : NdArray) (i : Nat) : Option (List UInt8) := do
  let strings ← a.data.values? .str
  let bytes ← strings i
  return Text.trimPadding bytes

/-- Type and shape, as messages show them. -/
def text (a : NdArray) : String :=
  s!"array<{a.elementType.toChar}>" ++ Text.bracketed a.shape

end NdArray

end Lanewise
