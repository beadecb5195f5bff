/-!
# Faults of assembly text
-/

namespace Lanewise

inductive AssemblyError where
  /-- Text that cannot be read; the column counts bytes from 1. -/
  | syntaxError (line column : Nat) (detail : String)
  | unknownInstruction (line : Nat) (mnemonic : String)
  | invalidRegister (line : Nat) (register : String)
  | invalidImmediate (line : Nat) (detail : String)
  | unknownFunction (line : Nat) (mnemonic name : String)
  | operandCount (line : Nat) (mnemonic : String) (expected found : Nat)
  | invalidDirective (line : Nat) (detail : String)
  | missingDirective (name : String)
  deriving DecidableEq

namespace AssemblyError

def message : AssemblyError → String
  | syntaxError line column detail =>
    s!"Syntax error at line {line}, column {column}: {detail}"
  | unknownInstruction line mnemonic =>
    s!"Unknown instruction at line {line}: {mnemonic}"
  | invalidRegister line register => s!"Invalid register at line {line}: {register}"
  | invalidImmediate line detail =>
    s!"Invalid immediate value at line {line}: {detail}"
  | unknownFunction line mnemonic name =>
    s!"Unknown function '{name}' for {mnemonic} at line {line}"
  | operandCount line mnemonic expected found =>
    s!"{mnemonic} at line {line} takes {expected} operands, found {found}"
  | invalidDirective line detail => s!"Invalid directive at line {line}: {detail}"
  | missingDirective name => s!"Missing directive: .{name}"

/-- The line at fault, when the fault lies in one. -/
def line? : AssemblyError → Option Nat
  | syntaxError line _ _ | unknownInstruction line _ | invalidRegister line _
  | invalidImmediate line _ | unknownFunction line _ _ | operandCount line _ _ _
  | invalidDirective line _ => some line
  | missingDirective _ => none

end AssemblyError

end Lanewise
