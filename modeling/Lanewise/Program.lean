import Lanewise.Program.Walk
import Lanewise.ReductionAxis

/-!
# Programs

A program is its bytes. The queries here look at the last slot only: a
reduction is always the final instruction, and its axis is the last byte.
-/

namespace Lanewise

structure Program where
  code : List UInt8
  deriving DecidableEq

namespace Program

/-- Length in bytes. -/
def length (p : Program) : Nat :=
  p.code.length

/-- First byte of every whole slot, in order. -/
def slotHeads : List UInt8 → List UInt8
  | head :: _ :: _ :: _ :: rest => head :: slotHeads rest
  | _ => []

/-- Opcode of the last slot that is not empty. A second slot of a double-width
instruction looks empty, so this finds the first slot of one. -/
def lastOpcode? (p : Program) : Option Opcode :=
  ((slotHeads p.code).reverse.find? (· != Opcode.noop.byte)).bind Opcode.ofByte?

/-- Type of the value the program ends with. -/
def returnType? (p : Program) : Option ElementType :=
  p.lastOpcode?.bind fun op => op.operation.result?

/-- Opcode of the last four bytes. -/
def finalOpcode? (p : Program) : Option Opcode :=
  if p.length < slotWidth then none
  else p.code[p.length - slotWidth]?.bind Opcode.ofByte?

/-- The reduction in the last slot, if there is one. -/
def reduction? (p : Program) : Option Opcode :=
  p.finalOpcode?.filter (·.operation.isReduction)

def isReduction (p : Program) : Bool :=
  p.reduction?.isSome

/-- Axis of the reduction in the last slot. -/
def reductionAxis? (p : Program) : Option ReductionAxis :=
  if p.isReduction then p.code.getLast?.map ReductionAxis.ofByte else none

end Program

end Lanewise
