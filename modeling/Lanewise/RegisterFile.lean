import Lanewise.Column
import Lanewise.Kernel

/-!
# Register files

The columns a thread works in, one per register. Constants are laid out over a
whole block once, temporaries start as zeros. The columns of the output and of
the inputs stay empty: their data is handed in with every block.
-/

namespace Lanewise

structure RegisterFile where
  layout : RegisterLayout
  columns : Array Column
  blockSize : Nat

namespace RegisterFile

/-- The column a register starts with. -/
def initialColumn [Allocator] (k : Kernel) (blockSize : Nat) (reg : Nat) (t : ElementType)
    (width : Nat) : Except EvalError Column :=
  match k.layout.role? reg, k.constants[reg - k.layout.firstConstant]? with
  | some .constant, some c => Column.filled c t width blockSize
  | some .temporary, _ => Column.zeros (t.storage width) blockSize
  | _, _ => .ok .empty

/-- Bytes that the table of registers takes for each of them. -/
def slotSize : Nat := 32

/-- Room for a table of so many registers, or the refusal. -/
def reserveTable [Allocator] (registers : Nat) : Except EvalError Unit := do
  unless registers * slotSize ≤ Allocator.limit do
    throw (.allocation (← counted (checkedProduct registers slotSize)))

/-- The registers of a kernel, with the string widths given for them. There is
room for the whole table before the first column is laid out. -/
def ofKernel [Allocator] (k : Kernel) (widths : List Nat) (blockSize : Nat) :
    Except EvalError RegisterFile := do
  reserveTable (← counted k.layout.count?)
  let columns ← k.fullSignature.zipIdx.mapM fun (t, reg) =>
    initialColumn k blockSize reg t (widths.getD reg 0)
  return ⟨k.layout, columns.toArray, blockSize⟩

/-- Number of registers. -/
def size (regs : RegisterFile) : Nat :=
  regs.columns.size

/-- Bytes held by the columns. -/
def footprint (regs : RegisterFile) : Nat :=
  regs.columns.foldl (fun n c => n + c.size * c.storage.cellSize) 0

/-- The same registers in columns of their own, for another thread. -/
def tryClone [Allocator] (regs : RegisterFile) : Except EvalError RegisterFile := do
  reserveTable regs.size
  let columns ← regs.columns.toList.mapM Column.tryClone
  return { regs with columns := columns.toArray }

/-- Replace the column of a register, if there is that register. -/
def set (regs : RegisterFile) (reg : Nat) (c : Column) : RegisterFile :=
  { regs with columns := regs.columns.setIfInBounds reg c }

theorem size_set (regs : RegisterFile) (reg : Nat) (c : Column) :
    (regs.set reg c).size = regs.size := by
  simp [set, size]

end RegisterFile

end Lanewise
