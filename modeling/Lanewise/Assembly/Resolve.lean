import Lanewise.Assembly.Statement
import Lanewise.Instruction
import Lanewise.ReductionAxis

/-!
# From lines to instructions

The operands of a line are checked against the operation its mnemonic names:
register positions take registers, a call takes a function name or an index, a
reduction takes an axis or `all`.
-/

namespace Lanewise.Assembly

namespace Operand

/-- The operand as messages show it. -/
def text : Operand → String
  | register reg => s!"r{reg}"
  | integer value => toString value.toInt
  | name text => text

end Operand

/-- The operation a line names. `noop` stands alone on its line. -/
def opcodeOf (inst : InstructionLine) : Except AssemblyError Opcode :=
  match Opcode.ofMnemonic? inst.mnemonic with
  | some opcode =>
    if opcode = Opcode.noop ∧ inst.operands ≠ [] then
      .error (.unknownInstruction inst.line inst.mnemonic)
    else .ok opcode
  | none => .error (.unknownInstruction inst.line inst.mnemonic)

/-- The function index an operand of a call stands for. -/
def functionIndex (inst : InstructionLine) (family : FunctionFamily) :
    Operand → Except AssemblyError UInt8
  | .name name =>
    match family.indexOf? name with
    | some index => .ok index
    | none => .error (.unknownFunction inst.line inst.mnemonic name)
  | .integer v =>
    if 0 ≤ v.toInt ∧ v.toInt < 256 then .ok v.toInt.toNat.toUInt8
    else .error (.invalidImmediate inst.line s!"function index {v.toInt} out of range")
  | .register reg =>
    .error (.invalidImmediate inst.line s!"expected a function name, found r{reg}")

/-- The axis byte an operand of a reduction stands for. The lowest axis is the
last one whose byte differs from that of `all`. -/
def axisByte (inst : InstructionLine) : Operand → Except AssemblyError UInt8
  | .name "all" => .ok ReductionAxis.all.toByte
  | .integer v =>
    if maxDims ≤ v.toInt ∨ v.toInt < maxDims - 254 then
      .error (.invalidImmediate inst.line s!"axis {v.toInt} out of range")
    else .ok (ReductionAxis.axis v.toInt).toByte
  | other =>
    .error (.invalidImmediate inst.line s!"expected an axis or 'all', found {other.text}")

/-- The byte of one operand. -/
def operandByte (inst : InstructionLine) (operation : Operation) :
    OperandKind × Operand → Except AssemblyError UInt8
  | (.register _, .register reg) => .ok reg
  | (.register _, other) => .error (.invalidRegister inst.line other.text)
  | (.index, operand) =>
    match operation.family? with
    | some family => functionIndex inst family operand
    | none => axisByte inst operand

/-- The instruction of a line at program offset `pc`. -/
def resolve (inst : InstructionLine) (pc : Nat) : Except AssemblyError Instruction := do
  let opcode ← opcodeOf inst
  let kinds := opcode.operation.operandKinds
  if kinds.length ≠ inst.operands.length then
    throw (.operandCount inst.line inst.mnemonic kinds.length inst.operands.length)
  let bytes ← (kinds.zip inst.operands).mapM (operandByte inst opcode.operation)
  let byte := fun i => bytes.getD i 0
  return ⟨pc, opcode, #v[byte 0, byte 1, byte 2, byte 3]⟩

end Lanewise.Assembly
