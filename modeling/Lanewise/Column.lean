import Lanewise.EvalError
import Lanewise.Storage

/-!
# Columns

A column holds the elements of a register or of a host array, all in one
storage. No operation changes the storage or the length of the column it works
on, except `assign`.
-/

namespace Lanewise

/-- Half of what 64 bits address, more than there is for anything. -/
def memorySize : Nat := 0x8000000000000000

/-- Where columns get their memory. Requests are granted up to some number of bytes. -/
class Allocator where
  /-- The largest request that is granted. -/
  limit : Nat
  limit_lt : limit < memorySize

/-- Requests of less than 64 GiB are granted. -/
@[reducible]
def Allocator.roomy : Allocator where
  limit := 0xFFFFFFFFF
  limit_lt := by decide

structure Column where
  storage : Storage
  cells : Array storage.Cell

namespace Column

def size (c : Column) : Nat :=
  c.cells.size

def elementType (c : Column) : ElementType :=
  c.storage.elementType

/-- Bytes of each string, 0 for other types. -/
def stringWidth (c : Column) : Nat :=
  c.storage.stringWidth

/-- Type and length, as messages show them. -/
def text (c : Column) : String :=
  s!"{c.elementType.toChar}[{c.size}]"

/-! ## Construction -/

/-- The column of a register that keeps its data elsewhere. -/
def empty : Column := ⟨.bool, #[]⟩

instance : Inhabited Column := ⟨empty⟩

/-- Room for `len` elements, or the refusal. A request that does not fit 64 bits
is reported as the largest number that does. -/
def reserve [Allocator] (s : Storage) (len : Nat) : Except EvalError Unit :=
  let bytes := len * s.cellSize
  if bytes ≤ Allocator.limit then .ok () else .error (.allocation (min bytes (UInt64.size - 1)))

/-- `len` copies of one element. The element is not made when no copy is wanted:
strings can be wider than memory. -/
def replicate (s : Storage) (len : Nat) (cell : Unit → s.Cell) : Column :=
  ⟨s, if len = 0 then #[] else Array.replicate len (cell ())⟩

/-- `len` elements that are false, zero or NULs, where there is room for them. -/
def fresh (s : Storage) (len : Nat) : Column :=
  replicate s len fun _ => s.zero

/-- `len` elements that are false, zero or NULs. -/
def zeros [Allocator] (s : Storage) (len : Nat) : Except EvalError Column := do
  reserve s len
  return fresh s len

/-- `len` copies of a constant, stored as type `t`. Strings are as wide as
asked for and at least as wide as the constant. -/
def filled [Allocator] (c : Constant) (t : ElementType) (width len : Nat) :
    Except EvalError Column :=
  let s := t.storage (max width c.stringWidth)
  match c.value? t, s.write? t with
  | some value, some write => do
    reserve s len
    return replicate s len fun _ => write value
  | _, _ => .error (.mismatch (.constantType c t))

/-- Strings, cut off or filled up to a width of at least one byte. -/
def ofStrings (items : List (List UInt8)) (width : Nat) : Column :=
  let width := max width 1
  ⟨.str width, (items.map (Text.padded width)).toArray⟩

/-! ## Parts -/

/-- The elements from `start` up to `stop`, as far as there are any. -/
def slice (c : Column) (start stop : Nat) : Column :=
  ⟨c.storage, c.cells.extract start stop⟩

/-- The first `n` elements, or all of a shorter column. -/
def head (c : Column) (n : Nat) : Column :=
  c.slice 0 n

/-- Consecutive parts of `n` elements, the last one maybe shorter. -/
def chunks (c : Column) (n : Nat) : List Column :=
  let n := max n 1
  (List.range ((c.size + n - 1) / n)).map fun k => c.slice (k * n) (k * n + n)

/-! ## Copying elements between columns -/

/-- Perform writes in order. The first one that has no cell to go to or no value
to bring ends them; the answer tells whether all were done. -/
def writeCells {α : Type} (cells : Array α) : List (Nat × Option α) → Array α × Bool
  | [] => (cells, true)
  | (_, none) :: _ => (cells, false)
  | (i, some value) :: rest =>
    if h : i < cells.size then writeCells (cells.set i value) rest else (cells, false)

/-- Element `k` becomes the element of `src` at the `k`-th offset. Tells whether
the types agree and every offset exists. -/
def gather (dst src : Column) (offsets : List Nat) : Column × Bool :=
  match src.storage.copy? dst.storage with
  | none => (dst, false)
  | some copy =>
    let writes := (offsets.take dst.size).zipIdx.map fun (offset, k) =>
      (k, src.cells[offset]?.map copy)
    let (cells, done) := writeCells dst.cells writes
    (⟨dst.storage, cells⟩, done)

/-- The element at the `k`-th offset becomes element `k` of `src`. Tells whether
the types agree and every offset exists. -/
def scatter (dst src : Column) (offsets : List Nat) : Column × Bool :=
  match src.storage.copy? dst.storage with
  | none => (dst, false)
  | some copy =>
    let writes := (offsets.zip src.cells.toList).map fun (offset, cell) =>
      (offset, some (copy cell))
    let (cells, done) := writeCells dst.cells writes
    (⟨dst.storage, cells⟩, done)

/-- What ends a copy at offsets of `c`, some of which it does not have. The bytes of
a string are found by products with the width, and these may not fit 64 bits. -/
def fault (c other : Column) (role : OffsetRole) (offsets : List Nat) : EvalError :=
  match c.storage, other.storage, offsets.find? (c.size ≤ ·) with
  | .str width, .str _, some offset =>
    if (offset + 1) * width < UInt64.size then .misuse (.offsetOutside role) else .crash .overflow
  | _, _, _ => .misuse (.offsetOutside role)

/-- The elements from `start` on become those of `src`. -/
def write (dst : Column) (start : Nat) (src : Column) : Column × Bool :=
  dst.scatter src (List.range' start src.size)

/-- The first elements become those of `src`. -/
def copyFrom (dst src : Column) : Column × Bool :=
  dst.write 0 src

/-- An exact copy of `src`, whatever the column was before. -/
def assign (_ src : Column) : Column :=
  src

/-- A column of its own with the same elements, where there is room for it. -/
def tryClone [Allocator] (c : Column) : Except EvalError Column := do
  let room ← zeros (c.elementType.storage c.stringWidth) c.size
  return room.assign c

/-! ## Elements as values -/

/-- The elements read as values of a type, if the column can be. -/
def values? (c : Column) (t : ElementType) : Option (Nat → Option t.Value) := do
  let read ← c.storage.read? t
  return fun i => c.cells[i]?.map read

/-- Replace each of the first `n` elements by what `f` makes of its position and
of the element, read as a value of a type. An element that keeps its value is
written back too: a 64-bit integer read as one of 32 bits loses its upper half. -/
def revise? (c : Column) (n : Nat) (t : ElementType) (f : Nat → t.Value → t.Value) :
    Option Column := do
  let read ← c.storage.read? t
  let write ← c.storage.write? t
  return ⟨c.storage, c.cells.mapIdx fun i cell => if i < n then write (f i (read cell)) else cell⟩

/-! ## Laws -/

theorem size_writeCells {α : Type} (cells : Array α) (writes : List (Nat × Option α)) :
    (writeCells cells writes).1.size = cells.size := by
  induction writes generalizing cells with
  | nil => rfl
  | cons w rest ih =>
    obtain ⟨i, value | value⟩ := w
    · rfl
    · unfold writeCells
      split
      · rw [ih, Array.size_set]
      · rfl

theorem size_scatter (dst src : Column) (offsets : List Nat) :
    (dst.scatter src offsets).1.size = dst.size := by
  unfold scatter
  split
  · rfl
  · exact size_writeCells _ _

theorem size_gather (dst src : Column) (offsets : List Nat) :
    (dst.gather src offsets).1.size = dst.size := by
  unfold gather
  split
  · rfl
  · exact size_writeCells _ _

theorem isSome_revise? (c : Column) (n : Nat) (t : ElementType)
    (f : Nat → t.Value → t.Value) :
    (c.revise? n t f).isSome = c.elementType.accepts t := by
  have hr := c.storage.isSome_read? t
  have hw := c.storage.isSome_write? t
  unfold revise? elementType
  cases h : c.storage.read? t <;> cases h' : c.storage.write? t <;> simp_all

theorem storage_of_revise? {c c' : Column} {n : Nat} {t : ElementType}
    {f : Nat → t.Value → t.Value} (h : c.revise? n t f = some c') : c'.storage = c.storage := by
  simp only [revise?, Option.bind_eq_bind, Option.bind_eq_some_iff, Option.pure_def,
    Option.some.injEq] at h
  obtain ⟨_, _, _, _, rfl⟩ := h
  rfl

theorem size_of_revise? {c c' : Column} {n : Nat} {t : ElementType}
    {f : Nat → t.Value → t.Value} (h : c.revise? n t f = some c') : c'.size = c.size := by
  simp only [revise?, Option.bind_eq_bind, Option.bind_eq_some_iff, Option.pure_def,
    Option.some.injEq] at h
  obtain ⟨_, _, _, _, rfl⟩ := h
  exact Array.size_mapIdx

end Column

end Lanewise
