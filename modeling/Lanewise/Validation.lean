import Lanewise.Kernel

/-!
# Validation

Checks a kernel before it is ever run: signatures first, then the program slot
by slot, and the first fault is reported. Within an instruction the order is:
opcode, position of a reduction, completeness, operands from left to right,
destination.
-/

namespace Lanewise

/-- Largest number of registers a kernel may declare. -/
def maxRegisters : Nat := 255

inductive ValidationError where
  | raggedProgram (length : Nat)
  | emptyProgram
  | tooManyRegisters (count : Nat)
  | unknownType (position : Nat) (letter : Char)
  /-- The inputs are not the part of the full signature behind the output. -/
  | signatureMismatch (full inputs : Signature)
  /-- Output, inputs, constants and temporaries do not add up. -/
  | registerCounts (declared counted : Nat)
  /-- Their number does not fit 64 bits. No fault is found then: the check ends
  without an answer. -/
  | uncountable
  | constantType (index : Nat) (expected found : ElementType)
  | unknownOpcode (pc : Nat) (byte : UInt8)
  | misplacedReduction (pc : Nat) (mnemonic : String)
  | truncated (pc : Nat) (mnemonic : String)
  | unknownRegister (pc : Nat) (reg : UInt8) (count : Nat)
  | unknownFunction (pc : Nat) (family : FunctionFamily) (index : UInt8)
  | typeMismatch (pc : Nat) (mnemonic : String) (position : Nat) (expected found : ElementType)
  | readOnlyDestination (pc : Nat) (mnemonic : String) (reg : UInt8)
  deriving DecidableEq

namespace ValidationError

def message : ValidationError → String
  | raggedProgram length => s!"Program length {length} is not a multiple of 4"
  | emptyProgram => "Program has no instructions"
  | tooManyRegisters count =>
    s!"Signature declares {count} registers (maximum {maxRegisters})"
  | unknownType position letter =>
    "Unknown type code " ++ Text.quoteChar letter
      ++ s!" at position {position} of signature"
  | signatureMismatch full inputs =>
    "Input signature " ++ Text.quoteString inputs.text
      ++ " is not a prefix of full signature " ++ Text.quoteString full.text
      ++ " after the output"
  | registerCounts declared counted =>
    s!"Register counts add up to {counted}, full signature has {declared}"
  | uncountable => "Register counts overflow"
  | constantType index expected found =>
    s!"Constant {index} has type '{found.toChar}', its register is '{expected.toChar}'"
  | unknownOpcode pc byte =>
    "Invalid opcode 0x" ++ Text.hex 2 byte.toNat ++ s!" at pc {pc}"
  | misplacedReduction pc mnemonic =>
    s!"Reduction {mnemonic} at pc {pc} is not the final instruction"
  | truncated pc mnemonic =>
    s!"Double-width instruction {mnemonic} at pc {pc} runs past the end of the program"
  | unknownRegister pc reg count =>
    s!"Register {reg} out of range at pc {pc} (register count {count})"
  | unknownFunction pc family index =>
    s!"Function index {index} out of range at pc {pc} "
      ++ s!"({family.text} table has {family.size} entries)"
  | typeMismatch pc mnemonic position expected found =>
    s!"Operand {position} of {mnemonic} at pc {pc} has type '{found.toChar}', "
      ++ s!"expected '{expected.toChar}'"
  | readOnlyDestination pc mnemonic reg =>
    s!"{mnemonic} at pc {pc} writes to read-only register {reg}"

/-- The instruction at fault, when the fault concerns one. -/
def pc? : ValidationError → Option Nat
  | unknownOpcode pc _ | misplacedReduction pc _ | truncated pc _ | unknownRegister pc _ _
  | unknownFunction pc _ _ | typeMismatch pc _ _ _ _ | readOnlyDestination pc _ _ => some pc
  | _ => none

end ValidationError

namespace Validation

/-- The full signature has room for all registers and continues the output with
the inputs. -/
def checkSignatures (full inputs : Signature) : Except ValidationError Unit :=
  if maxRegisters < full.length then .error (.tooManyRegisters full.length)
  else if inputs.length < full.length ∧ (full.drop 1).take inputs.length = inputs then .ok ()
  else .error (.signatureMismatch full inputs)

/-- One operand of an instruction: a register exists and has a fitting type, a
function index lies in its family. Reduction axes depend on the operands of a
run and are not checked here. -/
def checkOperand (full : Signature) (inst : Instruction) (position : Nat) :
    OperandKind × UInt8 → Except ValidationError Unit
  | (.register expected, reg) =>
    match full[reg.toNat]? with
    | none => .error (.unknownRegister inst.pc reg full.length)
    | some found =>
      if found.accepts expected then .ok ()
      else .error (.typeMismatch inst.pc inst.mnemonic position expected found)
  | (.index, index) =>
    match inst.operation.family? with
    | none => .ok ()
    | some family =>
      if index.toNat < family.size then .ok ()
      else .error (.unknownFunction inst.pc family index)

/-- The operands from `position` on. -/
def checkOperands (full : Signature) (inst : Instruction) (position : Nat) :
    List (OperandKind × UInt8) → Except ValidationError Unit
  | [] => .ok ()
  | operand :: rest => do
    checkOperand full inst position operand
    checkOperands full inst (position + 1) rest

/-- The destination may be written to. Without a layout nothing is known about
it. -/
def checkDestination (layout? : Option RegisterLayout) (inst : Instruction) :
    Except ValidationError Unit :=
  match layout? with
  | none => .ok ()
  | some layout =>
    if layout.isWritable inst.dest.toNat then .ok ()
    else .error (.readOnlyDestination inst.pc inst.mnemonic inst.dest)

/-- One instruction of a program of `length` bytes. -/
def checkInstruction (length : Nat) (full : Signature) (layout? : Option RegisterLayout)
    (inst : Instruction) : Except ValidationError Unit := do
  if inst.operation.isReduction ∧ inst.pc + slotWidth ≠ length then
    throw (.misplacedReduction inst.pc inst.mnemonic)
  checkOperands full inst 0 inst.operandsWithKinds
  checkDestination layout? inst

/-- The mnemonic of the opcode byte at an offset, empty where there is none. -/
def mnemonicAt (code : List UInt8) (pc : Nat) : String :=
  ((code[pc]?.bind Opcode.ofByte?).map Opcode.mnemonic).getD ""

/-- One slot of a program of `length` bytes. -/
def checkSlot (code : List UInt8) (length : Nat) (full : Signature)
    (layout? : Option RegisterLayout) : Slot → Except ValidationError Unit
  | .noop _ => .ok ()
  | .instruction inst => checkInstruction length full layout? inst
  | .fault _ (.unknownOpcode pc byte) => .error (.unknownOpcode pc byte)
  | .fault pc _ => .error (.truncated pc (mnemonicAt code pc))

/-- A whole program. -/
def checkProgram (code : List UInt8) (full : Signature) (layout? : Option RegisterLayout) :
    Except ValidationError Unit := do
  let length := code.length
  if length % slotWidth ≠ 0 then
    throw (.raggedProgram length)
  (walk code).forM (checkSlot code length full layout?)
  if (instructions code).1.isEmpty then
    throw .emptyProgram

/-- Constants against their registers, from constant `index` on. -/
def checkConstants (index : Nat) : List Constant → Signature → Except ValidationError Unit
  | c :: constants, expected :: registers =>
    if c.elementType.accepts expected then checkConstants (index + 1) constants registers
    else .error (.constantType index expected c.elementType)
  | _, _ => .ok ()

/-- Read a signature that a front end hands over as letters. -/
def readSignature (text : String) : Except ValidationError Signature :=
  match Signature.ofString text with
  | .ok sig => .ok sig
  | .error (position, letter) => .error (.unknownType position letter)

end Validation

open Validation in
/-- A program against signatures given as letters. Nothing is known about
constants here, so destinations are not checked. -/
def validateProgram (code : List UInt8) (full inputs : String) : Except ValidationError Unit := do
  let full ← readSignature full
  let inputs ← readSignature inputs
  checkSignatures full inputs
  checkProgram code full none

open Validation in
/-- A whole kernel. -/
def Kernel.validate (k : Kernel) : Except ValidationError Unit := do
  checkSignatures k.fullSignature k.inputSignature
  let some count := k.layout.count? | throw .uncountable
  if count ≠ k.registerCount then
    throw (.registerCounts k.registerCount count)
  checkConstants 0 k.constants (k.fullSignature.drop k.layout.firstConstant)
  checkProgram k.program.code k.fullSignature (some k.layout)

end Lanewise
