import Lanewise.Block.InPlace

/-!
# One block after the other

A thread has its registers and its shadow for many blocks. Each block brings its own
inputs, output and number of lanes. A block that fails leaves the registers as they
are by then, and the thread may go on to the next one.
-/

namespace Lanewise

/-- A block to run, and how the kernel is made ready for it. -/
structure BlockCall where
  fullBlock : Nat
  boundsCheck : Bool
  inputWidths : List Nat
  mode? : Option Accumulation
  lanes : Nat
  /-- Whether the loops are made for this number of lanes. -/
  isFixed : Bool
  inputs : List Column
  output : Column

/-- How a block ended, and its output by then. -/
structure BlockAnswer where
  result : Except EvalError Unit
  output : Column

/-- What a thread keeps from one block to the next. -/
structure Arena where
  registers : RegisterFile
  /-- As the last instruction that read its own destination left it. -/
  shadow : Column

namespace Arena

/-- The registers of a kernel before the first block. -/
def ofKernel [Allocator] (k : Kernel) (widths : List Nat) (blockSize : Nat) :
    Except EvalError Arena := do
  return ⟨← RegisterFile.ofKernel k widths blockSize, .empty⟩

/-- An arena for another thread, with the same registers. The shadow is not copied. -/
def tryClone [Allocator] (arena : Arena) : Except EvalError Arena := do
  return ⟨← arena.registers.tryClone, .empty⟩

/-- Run a block. -/
def perform (k : Kernel) (arena : Arena) (call : BlockCall) : BlockAnswer × Arena :=
  let p := k.prepare call.fullBlock call.boundsCheck call.inputWidths
  let run := if call.isFixed then p.runBlockFixed else p.runBlock
  let (result, m) :=
    run call.mode? call.lanes ⟨⟨arena.registers, call.inputs, call.output⟩, arena.shadow⟩
  (⟨result, m.frame.output⟩, ⟨m.frame.registers, m.shadow⟩)

/-- Run blocks in order, whether or not those before have failed. -/
def performAll (k : Kernel) (arena : Arena) : List BlockCall → List BlockAnswer × Arena
  | [] => ([], arena)
  | call :: rest =>
    let (answer, arena) := arena.perform k call
    let (answers, arena) := arena.performAll k rest
    (answer :: answers, arena)

end Arena

end Lanewise
