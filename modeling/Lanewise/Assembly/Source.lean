import Lanewise.Assembly.Resolve
import Lanewise.Kernel

/-!
# Assembling

A source text makes a program from its instructions and a kernel from its
directives as well.
-/

namespace Lanewise.Assembly

/-- The program bytes of the instructions among statements, starting at offset
`pc`. -/
def encodeStatements (pc : Nat) : List Statement → Except AssemblyError (List UInt8)
  | [] => .ok []
  | .directive _ _ :: rest => encodeStatements pc rest
  | .instruction line :: rest => do
    let inst ← resolve line pc
    let more ← encodeStatements (pc + inst.width) rest
    return inst.encode ++ more

/-- The program of a source text. Directives are read and have no effect. -/
def assemble (source : String) : Except AssemblyError Program := do
  return ⟨← encodeStatements 0 (← parse source)⟩

/-- The registers that directives declare. -/
structure Declarations where
  output? : Option ElementType
  inputs : Signature
  constants : List Constant
  temporaries : Signature

namespace Declarations

def empty : Declarations := ⟨none, [], [], []⟩

/-- Add one directive. There is one output; the rest accumulates. -/
def add (d : Declarations) (line : Nat) : Directive → Except AssemblyError Declarations
  | .output t =>
    if d.output?.isSome then .error (.invalidDirective line ".output given twice")
    else .ok { d with output? := some t }
  | .inputs sig => .ok { d with inputs := d.inputs ++ sig }
  | .constant value => .ok { d with constants := d.constants ++ [value] }
  | .temporaries sig => .ok { d with temporaries := d.temporaries ++ sig }

/-- The declarations of all statements, added to `d`. -/
def addAll (d : Declarations) : List Statement → Except AssemblyError Declarations
  | [] => .ok d
  | .instruction _ :: rest => d.addAll rest
  | .directive line directive :: rest => do (← d.add line directive).addAll rest

/-- The full signature behind an output: inputs, constants, temporaries. -/
def signature (d : Declarations) (output : ElementType) : Signature :=
  output :: d.inputs ++ d.constants.map Constant.elementType ++ d.temporaries

end Declarations

/-- The kernel of a source text. -/
def assembleKernel (source : String) : Except AssemblyError Kernel := do
  let statements ← parse source
  let d ← Declarations.empty.addAll statements
  match d.output? with
  | none => throw (.missingDirective "output")
  | some output =>
    let code ← encodeStatements 0 statements
    return ⟨⟨code⟩, d.signature output, d.inputs, d.constants, d.temporaries.length⟩

end Lanewise.Assembly
