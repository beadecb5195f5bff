import Lanewise.Kernel

/-!
# Listings

Programs and kernels as assembly text. `listing` annotates every slot with its
offset and bytes; `Kernel.assembly` is source text that assembles again.
-/

namespace Lanewise

/-- Why a listing cannot be made, or what stands in it at a faulty slot. -/
inductive ListingError where
  | raggedProgram (length : Nat)
  | unknownOpcode (pc : Nat) (byte : UInt8)
  | truncated (pc : Nat)
  deriving DecidableEq

namespace ListingError

def message : ListingError → String
  | raggedProgram length => s!"Program length {length} is not a multiple of 4"
  | unknownOpcode pc byte =>
    "Unknown opcode 0x" ++ Text.hexUpper 2 byte.toNat ++ s!" at pc {pc}"
  | truncated pc => s!"Instruction at pc {pc} runs past the end of the program"

/-- A decoding fault as listings word it. -/
def ofKernelError (pc : Nat) : KernelError → ListingError
  | .unknownOpcode pc byte => unknownOpcode pc byte
  | _ => truncated pc

end ListingError

/-! ## Instructions -/

namespace Instruction

/-- The text of one operand byte. A function index outside its family stays a
number, so that the text still assembles. -/
def operandText (operation : Operation) : OperandKind × UInt8 → String
  | (.register _, byte) => s!"r{byte}"
  | (.index, byte) =>
    match operation.family? with
    | some family => (family.name? byte).getD (toString byte)
    | none => (ReductionAxis.ofByte byte).text

/-- The instruction as an assembly line. -/
def assembly (inst : Instruction) : String :=
  match inst.operandsWithKinds with
  | [] => inst.mnemonic
  | operands =>
    inst.mnemonic ++ " " ++ ", ".intercalate (operands.map (operandText inst.operation))

/-- The instruction at an offset, with faults as listings word them. -/
def listAt (code : List UInt8) (pc : Nat) : Except ListingError Instruction :=
  match decodeAt code pc with
  | .ok inst => .ok inst
  | .error cause => .error (ListingError.ofKernelError pc cause)

end Instruction

/-- The slots of a program, which must be a whole number of them. -/
def listSlots (code : List UInt8) : Except ListingError (List Slot) :=
  if code.length % slotWidth ≠ 0 then .error (.raggedProgram code.length) else .ok (walk code)

/-! ## Programs -/

/-- Offset and text of a slot in a listing. -/
def Slot.listed : Slot → Nat × String
  | noop pc => (pc, "noop")
  | instruction inst => (inst.pc, inst.assembly)
  | fault pc cause => (pc, "# ERROR: " ++ (ListingError.ofKernelError pc cause).message)

/-- The line of a slot that starts `bytes`: offset, bytes and text. -/
def listingLine (bytes : List UInt8) (slot : Slot) : String :=
  let (pc, text) := slot.listed
  Text.hex 4 pc ++ ":  "
    ++ " ".intercalate ((bytes.take slotWidth).map fun b => Text.hex 2 b.toNat)
    ++ "  " ++ text ++ "\n"

/-- The lines of the slots that follow one another in `bytes`. -/
def listingLines (bytes : List UInt8) : List Slot → List String
  | [] => []
  | slot :: rest => listingLine bytes slot :: listingLines (bytes.drop slot.width) rest

/-- The annotated listing of a program. -/
def listing (code : List UInt8) : Except ListingError String := do
  let slots ← listSlots code
  return "# FuseVM Disassembly\n"
    ++ s!"# Code size: {code.length} bytes ({code.length / slotWidth} slots)\n\n"
    ++ String.join (listingLines code slots)

/-! ## Kernels -/

/-- A byte inside quotes: printable characters as they are, quote and backslash
behind a backslash, all others by their value. -/
def quoteByte (b : UInt8) : String :=
  if b = '"'.toNat.toUInt8 then "\\\""
  else if b = '\\'.toNat.toUInt8 then "\\\\"
  else if 0x20 ≤ b ∧ b ≤ 0x7e then (Char.ofNat b.toNat).toString
  else "\\x" ++ Text.hex 2 b.toNat

/-- A string literal. -/
def quoteBytes (bytes : List UInt8) : String :=
  "\"" ++ String.join (bytes.map quoteByte) ++ "\""

namespace Constant

/-- The constant as an assembly literal. -/
def literal : Constant → String
  | str bytes => quoteBytes bytes
  | c => c.text

end Constant

/-- The line of a slot in assembly text. -/
def Slot.assembly : Slot → String
  | noop _ => "    noop\n"
  | instruction inst => "    " ++ inst.assembly ++ "\n"
  | fault pc cause =>
    "    # ERROR at " ++ Text.hex 4 pc ++ ": " ++ (ListingError.ofKernelError pc cause).message
      ++ "\n"

namespace Kernel

/-- A directive line with a list of types, nothing for no types. -/
def typesDirective (name : String) (sig : Signature) : String :=
  if sig.isEmpty then "" else "." ++ name ++ " " ++ sig.text ++ "\n"

/-- The directives that declare the registers of the kernel. -/
def directives (k : Kernel) : String :=
  typesDirective "output" k.outputType?.toList
    ++ typesDirective "inputs" k.inputSignature
    ++ String.join ((k.constants.zip (k.fullSignature.drop k.layout.firstConstant)).map
        fun (c, t) => ".const " ++ t.toChar.toString ++ " " ++ c.literal ++ "\n")
    ++ typesDirective "temps" (k.fullSignature.drop k.layout.firstTemporary)

/-- The kernel as source text. -/
def assembly (k : Kernel) : Except ListingError String := do
  let slots ← listSlots k.program.code
  return k.directives ++ "\n" ++ String.join (slots.map Slot.assembly)

end Kernel

end Lanewise
