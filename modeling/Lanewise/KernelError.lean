import Lanewise.Text.Quoted

/-!
# Faults of kernels and containers

Why bytes are no kernel container, a byte sequence no program, or a pair of
signatures no kernel.
-/

namespace Lanewise

/-- Why the body of a container is not the encoding of a kernel. -/
inductive BodyError where
  /-- The bytes end inside a field. -/
  | endOfInput
  /-- A tag that numbers none of the seven element types. -/
  | unknownTag (tag : Nat)
  /-- A bool that is neither 0 nor 1. -/
  | notABool (byte : UInt8)
  deriving DecidableEq

namespace BodyError

def message : BodyError → String
  | endOfInput => "io error: unexpected end of file"
  | unknownTag tag =>
    "invalid value: integer \x60" ++ toString tag
      ++ "\x60, expected variant index 0 <= i < 7"
  | notABool byte =>
    s!"invalid u8 while decoding bool, expected 0 or 1, found {byte}"

end BodyError

/-- A count that a container header states and its body repeats. -/
inductive CountField where
  | registers | inputs | constants | temporaries | codeSize | bodySize
  deriving DecidableEq

namespace CountField

def name : CountField → String
  | registers => "registers"
  | inputs => "n_inputs"
  | constants => "n_constants"
  | temporaries => "n_temps"
  | codeSize => "code_size"
  | bodySize => "body_size"

end CountField

inductive KernelError where
  | badMagic (found : UInt32)
  | badVersion (expected found : UInt32)
  /-- Fewer bytes than a header has. -/
  | shortHeader (expected found : Nat)
  | countMismatch (field : CountField) (declared found : Nat)
  | undecodable (cause : BodyError)
  /-- A count that does not fit the 16 bits the header has for it. -/
  | countOverflow (field : CountField) (count : Nat)
  /-- A program that is no whole number of slots. -/
  | raggedProgram (length : Nat)
  | unknownOpcode (pc : Nat) (byte : UInt8)
  /-- An instruction that the program ends inside of. -/
  | truncated (pc : Nat)
  | unknownType (position : Nat) (letter : Char)
  deriving DecidableEq

namespace KernelError

def message : KernelError → String
  | badMagic found =>
    "Invalid kernel magic: expected 0x4B4D5646, got 0x" ++ Text.hex 8 found.toNat
  | badVersion expected found =>
    "Invalid kernel version: expected 0x" ++ Text.hex 8 expected.toNat
      ++ ", found 0x" ++ Text.hex 8 found.toNat
  | shortHeader expected found =>
    s!"Invalid header size: expected {expected} bytes, found {found} bytes"
  | countMismatch field declared found =>
    s!"Header declares {field.name} = {declared}, body has {found}"
  | undecodable cause => "Kernel body could not be decoded: " ++ cause.message
  | countOverflow field count =>
    s!"Kernel body could not be encoded: {field.name} = {count} overflows u16"
  | raggedProgram length => s!"Program length {length} is not a multiple of 4"
  | unknownOpcode pc byte =>
    "Invalid opcode 0x" ++ Text.hex 2 byte.toNat ++ s!" at pc {pc}"
  | truncated pc =>
    s!"Double-width instruction at pc {pc} runs past the end of the program"
  | unknownType position letter =>
    "Unknown type code " ++ Text.quoteChar letter
      ++ s!" at position {position} of signature"

/-- The instruction at fault, when the fault concerns one. -/
def pc? : KernelError → Option Nat
  | unknownOpcode pc _ | truncated pc => some pc
  | _ => none

end KernelError

end Lanewise
