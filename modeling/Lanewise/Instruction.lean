import Lanewise.Opcode
import Lanewise.KernelError

/-!
# Instructions

An instruction occupies one slot of four bytes, or two when it has a fourth
operand:

    [opcode] [a0] [a1] [a2]        [noop] [a3] [0] [0]

The second slot starts with the `noop` byte, so that a walk that goes slot by
slot never takes it for an instruction.
-/

namespace Lanewise

/-- Bytes of one slot. -/
def slotWidth : Nat := 4

/-- A decoded instruction and the program offset it stands at. -/
structure Instruction where
  /-- Byte offset of the opcode in the program. -/
  pc : Nat
  opcode : Opcode
  /-- Operand bytes in encoding order. Positions past the operand count are
  unused. -/
  operands : Vector UInt8 4
  deriving DecidableEq

namespace Instruction

def operation (inst : Instruction) : Operation :=
  inst.opcode.operation

def mnemonic (inst : Instruction) : String :=
  inst.opcode.mnemonic

/-- Bytes the instruction occupies. -/
def width (inst : Instruction) : Nat :=
  if inst.operation.isDoubleWidth then 2 * slotWidth else slotWidth

/-- The operand bytes the operation uses. -/
def usedOperands (inst : Instruction) : List UInt8 :=
  inst.operands.toList.take inst.operation.operandCount

/-- The used operand bytes with their kinds. -/
def operandsWithKinds (inst : Instruction) : List (OperandKind × UInt8) :=
  inst.operation.operandKinds.zip inst.operands.toList

/-- Destination register. -/
def dest (inst : Instruction) : UInt8 :=
  inst.operands[0]

/-- Source registers. -/
def sources (inst : Instruction) : List UInt8 :=
  (inst.operands.toList.drop 1).take inst.operation.arguments.length

/-- The function index or reduction axis, when the operation has one. -/
def immediate? (inst : Instruction) : Option UInt8 :=
  if inst.operation.hasIndex then inst.usedOperands.getLast? else none

/-- Family and index of the called function, for a call. -/
def function? (inst : Instruction) : Option (FunctionFamily × UInt8) := do
  let family ← inst.operation.family?
  let index ← inst.immediate?
  return (family, index)

/-- The mnemonic and the used operand bytes in decimal. -/
def text (inst : Instruction) : String :=
  match inst.usedOperands with
  | [] => inst.mnemonic
  | operands => inst.mnemonic ++ " " ++ ", ".intercalate (operands.map toString)

end Instruction

/-- Program bytes of an opcode with operands, destination first. Missing
operands are zero, surplus ones are dropped. -/
def encodeSlots (opcode : Opcode) (operands : List UInt8) : List UInt8 :=
  let operand := fun i => operands.getD i 0
  [opcode.byte, operand 0, operand 1, operand 2]
    ++ (if opcode.operation.isDoubleWidth then [Opcode.noop.byte, operand 3, 0, 0] else [])

namespace Instruction

/-- Program bytes of the instruction. -/
def encode (inst : Instruction) : List UInt8 :=
  encodeSlots inst.opcode inst.usedOperands

/-- The instruction that starts `bytes`, which stand at offset `pc`. -/
def decodeHead (pc : Nat) (bytes : List UInt8) : Except KernelError Instruction :=
  match bytes with
  | op :: a :: b :: c :: rest =>
    match Opcode.ofByte? op with
    | none => .error (.unknownOpcode pc op)
    | some opcode =>
      if opcode.operation.isDoubleWidth then
        match rest with
        | _ :: d :: _ :: _ :: _ => .ok ⟨pc, opcode, #v[a, b, c, d]⟩
        | _ => .error (.truncated pc)
      else .ok ⟨pc, opcode, #v[a, b, c, 0]⟩
  | _ => .error (.truncated pc)

/-- The instruction at offset `pc` of a program. -/
def decodeAt (code : List UInt8) (pc : Nat) : Except KernelError Instruction :=
  decodeHead pc (code.drop pc)

theorem width_pos (inst : Instruction) : 0 < inst.width := by
  unfold width slotWidth
  split <;> decide

theorem pc_of_decodeHead {pc : Nat} {bytes : List UInt8} {inst : Instruction}
    (h : decodeHead pc bytes = .ok inst) : inst.pc = pc := by
  unfold decodeHead at h
  repeat' split at h
  all_goals cases h
  all_goals rfl

theorem length_encode (inst : Instruction) : inst.encode.length = inst.width := by
  by_cases h : inst.operation.isDoubleWidth = true
  all_goals
    simp only [operation] at h
    simp [encode, encodeSlots, width, operation, slotWidth, h]

end Instruction

end Lanewise
