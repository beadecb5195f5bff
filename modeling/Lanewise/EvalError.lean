import Lanewise.Plan
import Lanewise.Validation

/-!
# Faults of evaluation

Why a kernel could not be evaluated. Each cause is a value of its own; the
wording is in the `message` functions. A run can also break off without an answer:
where a number does not fit 64 bits, or a list is too short.
-/

namespace Lanewise

/-- Combinations that evaluation does not offer. -/
inductive Unsupported where
  /-- The output moves along the axis that a fold runs over. -/
  | movingReductionOutput
  | reductionReadsOutput
  | noIdentity (reducer : Reducer) (t : ElementType)
  | unfitPlan (plan : ExecutionPlan)
  | parallelReduction
  deriving DecidableEq

namespace Unsupported

def message : Unsupported → String
  | movingReductionOutput => "reduction output must have stride 0 along the reduced axis"
  | reductionReadsOutput => "a reduction cannot read its own output"
  | noIdentity reducer t => s!"no {reducer.name} identity for type '{t.toChar}'"
  | unfitPlan plan => s!"plan {plan.text} does not fit this program"
  | parallelReduction => "reductions cannot run in parallel"

end Unsupported

/-- Shapes that do not go together. -/
inductive ShapeError where
  /-- The element count of a shape needs more than 64 bits. -/
  | overflow (shape : List Nat)
  | elementCount (found : Nat) (shape : List Nat)
  /-- The first shape that clashes with those before it. -/
  | notBroadcastable (shape : List Nat)
  | strideCount (found dims : Nat)
  | axisOutOfBounds (axis : Int) (ndim : Nat)
  | outputShape (found expected : List Nat)
  | operandShape (found target : List Nat)
  | constantOutput (found : Nat)
  | outputSize (found expected : Nat)
  deriving DecidableEq

namespace ShapeError

open Text in
def message : ShapeError → String
  | overflow shape => s!"shape {bracketed shape} overflows"
  | elementCount found shape => s!"{found} elements do not fill shape {bracketed shape}"
  | notBroadcastable shape =>
    s!"operands could not be broadcast together: {bracketed shape}"
  | strideCount found dims => s!"operand has {found} strides for {dims} dimensions"
  | axisOutOfBounds axis ndim =>
    s!"reduction axis {axis} out of bounds for {ndim} dimensions"
  | outputShape found expected =>
    s!"output has shape {bracketed found}, expected {bracketed expected}"
  | operandShape found target =>
    s!"operand of shape {bracketed found} does not broadcast to {bracketed target}"
  | constantOutput found =>
    s!"a program without inputs needs a one-element output, got {found}"
  | outputSize found expected =>
    s!"output holds {found} elements for an iteration of {expected}"

end ShapeError

/-- Operands and constants that do not have the type asked for. -/
inductive Mismatch where
  | constantType (c : Constant) (t : ElementType)
  | noOutputRegister
  | operandCount (expected found : Nat)
  /-- There is no column to collect an input in. -/
  | noStaging (operand : Nat)
  | operandType (index : Nat) (found expected : ElementType)
  | outputType (found expected : ElementType)
  deriving DecidableEq

namespace Mismatch

def message : Mismatch → String
  | constantType c t => s!"constant {c.text} cannot fill a register of type '{t.toChar}'"
  | noOutputRegister => "kernel declares no output register"
  | operandCount expected found => s!"kernel takes {expected} inputs, got {found}"
  | noStaging operand => s!"no staging for input {operand}"
  | operandType index found expected =>
    s!"input {index} has type '{found.toChar}', kernel expects '{expected.toChar}'"
  | outputType found expected =>
    s!"output has type '{found.toChar}', kernel produces '{expected.toChar}'"

end Mismatch

/-- Which operands an offset belongs to. -/
inductive OffsetRole where
  | input | output
  deriving DecidableEq

/-- Largest number of worker threads. -/
def maxThreads : Nat := 256

/-- Requests out of range. -/
inductive Misuse where
  | zeroBlock
  | range (start stop size : Nat)
  | baseCount (found operands : Nat)
  /-- An offset lies before the part of the output that a task owns. -/
  | offsetBeforeChunk (offset base : Nat)
  | offsetOutside (role : OffsetRole)
  | configThreads (found : Nat)
  | configBlock
  | configTasks
  | threadCount (found : Nat)
  deriving DecidableEq

namespace Misuse

def message : Misuse → String
  | zeroBlock => "block size must be positive"
  | range start stop size => s!"range [{start}, {stop}) outside iteration size {size}"
  | baseCount found operands => s!"{found} base pointers for {operands} operands"
  | offsetBeforeChunk offset base => s!"offset {offset} precedes output chunk at {base}"
  | offsetOutside .input => "input offsets outside their array"
  | offsetOutside .output => "output offsets outside their array"
  | configThreads found => s!"num_threads must be in 1..={maxThreads}, got {found}"
  | configBlock => "block_size must be positive"
  | configTasks => "tasks_per_thread must be positive"
  | threadCount found => s!"thread count must be between 1 and {maxThreads}, got {found}"

end Misuse

/-- Why a run breaks off. -/
inductive Crash where
  /-- A number that does not fit 64 bits, or one below 0. -/
  | overflow
  /-- An element that a list does not have. -/
  | index
  deriving DecidableEq

def Crash.message : Crash → String
  | overflow => "arithmetic overflow"
  | index => "index out of bounds"

inductive EvalError where
  | invalid (cause : ValidationError)
  /-- An operand of the instruction cannot be used. -/
  | badArgument (pc : Nat)
  /-- The bytes are no instruction, or a reduction where none can run. -/
  | badOpcode (pc : Nat)
  | allocation (bytes : Nat)
  | unsupported (cause : Unsupported)
  | shape (cause : ShapeError)
  | mismatch (cause : Mismatch)
  | misuse (cause : Misuse)
  /-- The run breaks off and gives no answer. -/
  | crash (cause : Crash)
  deriving DecidableEq

/-- What a run reports to its host: an exit code and the instruction at fault,
when the fault concerns one. -/
inductive ExitStatus where
  | success
  | failure
  | badArgument (pc : Nat)
  | badOpcode (pc : Nat)
  deriving DecidableEq

namespace ExitStatus

def code : ExitStatus → Int
  | success => 0
  | failure => -1
  | badArgument _ => -2
  | badOpcode _ => -3

def pc? : ExitStatus → Option Nat
  | badArgument pc | badOpcode pc => some pc
  | success | failure => none

end ExitStatus

namespace EvalError

def message : EvalError → String
  | invalid cause => "Validation failed: " ++ cause.message
  | badArgument pc => s!"Register operand out of bounds at pc {pc}"
  | badOpcode pc => s!"Invalid opcode at pc {pc}"
  | allocation bytes => s!"Allocation of {bytes} bytes failed"
  | unsupported cause => "Unsupported: " ++ cause.message
  | shape cause => "Shape error: " ++ cause.message
  | mismatch cause => "Input mismatch: " ++ cause.message
  | misuse cause => cause.message
  | crash cause => cause.message

def status : EvalError → ExitStatus
  | badArgument pc => .badArgument pc
  | badOpcode pc => .badOpcode pc
  | _ => .failure

end EvalError

/-- The run broke off. -/
def EvalError.IsCrash : EvalError → Prop
  | crash _ => True
  | invalid _ | badArgument _ | badOpcode _ | allocation _ | unsupported _ | shape _ | mismatch _
  | misuse _ => False

/-- A number, where it could be counted in 64 bits. -/
def counted {α : Type} : Option α → Except EvalError α
  | some a => .ok a
  | none => .error (.crash .overflow)

/-- An element that is there. -/
def indexed {α : Type} : Option α → Except EvalError α
  | some a => .ok a
  | none => .error (.crash .index)

@[simp]
theorem counted_some {α : Type} (a : α) : counted (some a) = .ok a := rfl

theorem counted_none {α : Type} : counted (none : Option α) = .error (.crash .overflow) := rfl

theorem counted_eq_ok_iff {α : Type} {x : Option α} {a : α} : counted x = .ok a ↔ x = some a := by
  cases x <;> simp [counted]

theorem counted_eq_error_iff {α : Type} {x : Option α} {e : EvalError} :
    counted x = .error e ↔ x = none ∧ e = .crash .overflow := by
  cases x <;> simp [counted, eq_comm]

@[simp]
theorem indexed_some {α : Type} (a : α) : indexed (some a) = .ok a := rfl

theorem indexed_eq_ok_iff {α : Type} {x : Option α} {a : α} : indexed x = .ok a ↔ x = some a := by
  cases x <;> simp [indexed]

/-- Status of a finished run. -/
def ExitStatus.ofResult {α : Type} : Except EvalError α → ExitStatus
  | .ok _ => .success
  | .error e => e.status

end Lanewise
