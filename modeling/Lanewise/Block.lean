import Lanewise.Program.Walk
import Lanewise.RegisterFile
import Lanewise.Rule.Columns

/-!
# Running a block

The interpreter runs one instruction after the other, each over all lanes of a
block. An instruction reads its sources before it writes, so a destination may
be a source as well. A fault ends the run and leaves everything as the
instructions before it made it.
-/

namespace Lanewise

/-- A kernel made ready to run. -/
structure Prepared where
  steps : List Step
  layout : RegisterLayout
  /-- Lanes of a full block. -/
  blockSize : Nat
  /-- Check every register of an instruction before anything else about it. -/
  boundsCheck : Bool
  /-- Byte width of each register that holds strings. -/
  stringWidths : List Nat

/-- Make a kernel ready to run on string inputs of the given widths. -/
def Kernel.prepare (k : Kernel) (blockSize : Nat) (boundsCheck : Bool) (inputWidths : List Nat) :
    Prepared :=
  ⟨predecode k.program.code, k.layout, blockSize, boundsCheck, k.stringWidths inputWidths⟩

/-- What the instructions of one block work on. -/
structure Frame where
  registers : RegisterFile
  inputs : List Column
  output : Column

namespace Frame

/-- The column of a register, if there is that register. -/
def register? (frame : Frame) (reg : Nat) : Option Column :=
  match frame.registers.layout.role? reg with
  | none => none
  | some .output => some frame.output
  | some .input => frame.inputs[reg - 1]?
  | some .constant | some .temporary => frame.registers.columns[reg]?

/-- Replace the column of a register that can be written to. -/
def set (frame : Frame) (reg : Nat) (c : Column) : Frame :=
  if reg = 0 then { frame with output := c }
  else { frame with registers := frame.registers.set reg c }

/-- Whether an instruction can write to the register. -/
def isWritable (frame : Frame) (reg : Nat) : Bool :=
  frame.registers.layout.isWritable reg && reg < frame.registers.size

/-- Whether a register that is looked for, one after the other, comes behind the
constants. Nothing is looked for behind one that does not exist. -/
def looksBehind (frame : Frame) (dest : UInt8) : List UInt8 → Bool
  | [] => false
  | reg :: rest =>
    if reg = dest then frame.looksBehind dest rest
    else if frame.registers.layout.firstTemporary ≤ reg.toNat then true
    else (frame.register? reg.toNat).isSome && frame.looksBehind dest rest

/-- Whether an instruction asks for the number of registers, which tells temporaries
from registers that do not exist. The destination comes first: one that is not the
output is a temporary, with which the question is asked, or cannot be written to. -/
def asksCount (frame : Frame) (inst : Instruction) : Bool :=
  inst.operation != .noop &&
    (frame.registers.layout.firstTemporary ≤ inst.dest.toNat ||
      inst.dest == 0 && 0 < frame.registers.size && frame.looksBehind 0 inst.sources)

/-- Whether an instruction asks for a number of registers that does not fit 64
bits. -/
def miscounts (frame : Frame) (inst : Instruction) : Bool :=
  frame.registers.layout.count?.isNone && frame.asksCount inst

/-- One instruction over the first `n` lanes. It is none when a register does not
exist, cannot be written to or does not have a fitting type, and when a call
names no function. -/
def execute? (frame : Frame) (mode : Accumulation) (n : Nat) (inst : Instruction) :
    Option Frame :=
  if inst.operation = .noop then some frame
  else do
    let dest := inst.dest.toNat
    guard (frame.isWritable dest)
    let sources ← inst.sources.mapM fun reg => frame.register? reg.toNat
    let rule ← inst.operation.rule? (inst.immediate?.getD 255)
    let target ← frame.register? dest
    let target ← rule.onColumns? mode n sources target
    return frame.set dest target

end Frame

namespace Prepared

/-- Whether the destination and the sources of an instruction are registers. -/
def inBounds (p : Prepared) (inst : Instruction) : Bool :=
  (inst.dest :: inst.sources).all fun reg => reg.toNat < p.layout.size

/-- One step over the first `n` lanes. A reduction runs as the last step only,
and only where the run accumulates. -/
def step (p : Prepared) (mode? : Option Accumulation) (n : Nat) (isLast : Bool) (frame : Frame) :
    Step → Except EvalError Frame
  | .invalid pc | .truncated pc => .error (.badOpcode pc)
  | .execute inst =>
    if p.boundsCheck && p.layout.count?.isNone then .error (.crash .overflow)
    else if p.boundsCheck && !p.inBounds inst then .error (.badArgument inst.pc)
    else if inst.operation.isReduction && !(isLast && mode?.isSome) then
      .error (.badOpcode inst.pc)
    else if frame.miscounts inst then .error (.crash .overflow)
    else
      match frame.execute? (mode?.getD .lanewise) n inst with
      | some frame => .ok frame
      | none => .error (.badArgument inst.pc)

/-- Steps in order, up to the first fault. -/
def runSteps (p : Prepared) (mode? : Option Accumulation) (n : Nat) :
    List Step → Frame → Except EvalError Unit × Frame
  | [], frame => (.ok (), frame)
  | step :: rest, frame =>
    match p.step mode? n rest.isEmpty frame step with
    | .ok frame => p.runSteps mode? n rest frame
    | .error e => (.error e, frame)

/-- The whole program over the first `n` lanes. -/
def run (p : Prepared) (mode? : Option Accumulation) (n : Nat) (frame : Frame) :
    Except EvalError Unit × Frame :=
  p.runSteps mode? n p.steps frame

end Prepared

end Lanewise
