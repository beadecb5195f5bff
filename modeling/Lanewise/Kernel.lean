import Lanewise.Constant
import Lanewise.Program
import Lanewise.RegisterLayout

/-!
# Kernels

A program with the register types and constants it was compiled against.
-/

namespace Lanewise

structure Kernel where
  program : Program
  /-- One type per register, the output first. -/
  fullSignature : Signature
  /-- Types of the input registers alone. -/
  inputSignature : Signature
  /-- Values of the constant registers, in register order. -/
  constants : List Constant
  /-- Number of temporary registers. -/
  temporaries : Nat
  deriving DecidableEq

namespace Kernel

/-- A kernel over given signatures. What the full signature has left after
output, inputs and constants are temporaries; it must have enough. -/
def ofSignatures (program : Program) (full inputs : Signature) (constants : List Constant) :
    Except KernelError Kernel :=
  let fixed := 1 + inputs.length + constants.length
  if full.length < fixed then .error (.countMismatch .registers full.length fixed)
  else .ok ⟨program, full, inputs, constants, full.length - fixed⟩

/-- Read a signature of a kernel. -/
def readSignature (text : String) : Except KernelError Signature :=
  match Signature.ofString text with
  | .ok sig => .ok sig
  | .error (position, letter) => .error (.unknownType position letter)

/-- A kernel over signatures given as letters. -/
def ofText (program : Program) (full inputs : String) (constants : List Constant) :
    Except KernelError Kernel := do
  ofSignatures program (← readSignature full) (← readSignature inputs) constants

def layout (k : Kernel) : RegisterLayout :=
  ⟨k.inputSignature.length, k.constants.length, k.temporaries⟩

/-- Number of registers the full signature declares. -/
def registerCount (k : Kernel) : Nat :=
  k.fullSignature.length

def isReduction (k : Kernel) : Bool :=
  k.program.isReduction

/-- Type of the output register. -/
def outputType? (k : Kernel) : Option ElementType :=
  k.fullSignature.head?

/-- Width of the widest string among inputs of the given widths and constants. -/
def widestString (k : Kernel) (inputWidths : List Nat) : Nat :=
  (inputWidths ++ k.constants.map Constant.stringWidth).foldl max 0

/-- Byte width of every register. String inputs have the widths passed in,
string constants their own length, and a string output or temporary takes the
widest of all, so that no copy between registers cuts a string short. Other
registers have width 0. -/
def stringWidths (k : Kernel) (inputWidths : List Nat) : List Nat :=
  k.fullSignature.zipIdx.map fun (t, reg) =>
    if t ≠ .str then 0
    else
      match k.layout.role? reg with
      | some .input => inputWidths.getD (reg - 1) 0
      | some .constant =>
        (k.constants[reg - k.layout.firstConstant]?.map Constant.stringWidth).getD 0
      | _ => k.widestString inputWidths

/-- Equality with constants compared as values. -/
def sameValue (a b : Kernel) : Bool :=
  a.program == b.program && a.fullSignature == b.fullSignature
    && a.inputSignature == b.inputSignature && a.temporaries == b.temporaries
    && a.constants.length == b.constants.length
    && (a.constants.zip b.constants).all fun (x, y) => x.sameValue y

end Kernel

end Lanewise
