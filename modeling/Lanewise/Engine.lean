import Lanewise.Kernel.Digest
import Lanewise.NdArray
import Lanewise.Policy
import Lanewise.Pool

/-!
# Engines

An engine evaluates kernels over arrays. It checks the operands against the
kernel, broadcasts their shapes, has its policy pick a plan and runs it. Kernels
that passed validation once are remembered by their digest.
-/

namespace Lanewise

/-- An input of an evaluation. -/
inductive Operand where
  | array (a : NdArray)
  /-- The output array, as it is before the evaluation. -/
  | output

namespace Operand

/-- The array an operand stands for, given the output. -/
def resolve (out : NdArray) : Operand → NdArray
  | array a => a
  | output => out

def isOutput : Operand → Bool
  | array _ => false
  | output => true

/-- Where traversals read the operand. -/
def source : Operand → Source
  | array a => .array a.data
  | output => .output

end Operand

/-! ## Shapes of an evaluation -/

/-- The shapes that a kernel and its operands give. -/
structure Geometry where
  /-- The common shape of all operands. -/
  shape : Shape
  reduction? : Option ReductionTarget
  outputShape : Shape
  deriving DecidableEq

namespace Geometry

/-- What a reduction axis means for a shape. -/
def target? (shape : Shape) : Option ReductionAxis → Except EvalError (Option ReductionTarget)
  | none => .ok none
  | some .all => .ok (some .all)
  | some (.axis a) =>
    match ReductionAxis.index? (.axis a) shape.length with
    | some i => .ok (some (.axis i))
    | none => .error (.shape (.axisOutOfBounds a shape.length))

/-- Shape of the result. -/
def resultShape (shape : Shape) : Option ReductionTarget → Shape
  | none => shape
  | some .all => []
  | some (.axis i) => shape.eraseIdx i

/-- The shapes of a kernel over operands. -/
def ofShapes (k : Kernel) (shapes : List Shape) : Except EvalError Geometry := do
  let shape ← Shape.broadcast shapes
  let reduction? ← target? shape k.program.reductionAxis?
  return ⟨shape, reduction?, resultShape shape reduction?⟩

/-- Whether a plan can carry out the program. -/
def fits (g : Geometry) (plan : ExecutionPlan) : Bool :=
  match plan, g.reduction? with
  | .constant, _ | .empty, _ => true
  | .serial, none | .parallel _, none => true
  | .reduceFull, some .all => true
  | .reduceFull, some (.axis _) => g.shape.length ≤ 1
  | .reduceInner axis, some (.axis i) | .reduceOuter axis, some (.axis i) => axis == i
  | _, _ => false

theorem reduction?_of_fits_elementwise {g : Geometry}
    (h : g.fits .serial = true ∨ ∃ threads, g.fits (.parallel threads) = true) :
    g.reduction? = none := by
  cases hred : g.reduction? with
  | none => rfl
  | some target => simp [fits, hred] at h

theorem reduction?_of_fits_axis {g : Geometry} {axis : Nat}
    (h : g.fits (.reduceInner axis) = true ∨ g.fits (.reduceOuter axis) = true) :
    g.reduction? = some (.axis axis) := by
  cases hred : g.reduction? with
  | none => simp [fits, hred] at h
  | some target =>
    cases target with
    | all => simp [fits, hred] at h
    | axis i =>
      obtain rfl : axis = i := by simpa [fits, hred] using h
      rfl

end Geometry

/-- Operand strides with the reduced axis taken apart from the dimensions of the
groups. The output comes first. -/
structure AxisSplit where
  groups : Shape
  groupStrides : List (List Nat)
  axisLength : Nat
  axisStrides : List Nat
  deriving DecidableEq

namespace AxisSplit

/-- Take an axis apart. The output does not move along it. -/
def ofAxis (g : Geometry) (axis : Nat) (inputStrides : List (List Nat)) : AxisSplit where
  groups := g.shape.eraseIdx axis
  groupStrides := g.outputShape.contiguousStrides :: inputStrides.map (·.eraseIdx axis)
  axisLength := g.shape.getD axis 0
  axisStrides := 0 :: inputStrides.map (·.getD axis 0)

end AxisSplit

/-! ## Checks -/

/-- One operand has a type that its register takes. -/
def checkOperandTypes (out : NdArray) (index : Nat) :
    List Operand → Signature → Except EvalError Unit
  | operand :: operands, expected :: signature =>
    let found := (operand.resolve out).elementType
    if found.accepts expected then checkOperandTypes out (index + 1) operands signature
    else .error (.mismatch (.operandType index found expected))
  | _, _ => .ok ()

/-- Type of the output register. -/
def outputType (k : Kernel) : Except EvalError ElementType :=
  match k.outputType? with
  | some t => .ok t
  | none => .error (.mismatch .noOutputRegister)

/-- Operands and output go with the registers of the kernel. -/
def checkOperands (k : Kernel) (operands : List Operand) (out : NdArray) :
    Except EvalError Unit := do
  let inputs := k.inputSignature.length
  if operands.length ≠ inputs then
    throw (.mismatch (.operandCount inputs operands.length))
  checkOperandTypes out 0 operands k.inputSignature
  let expected ← outputType k
  unless out.elementType.accepts expected do
    throw (.mismatch (.outputType out.elementType expected))

/-! ## Evaluation of a valid kernel -/

namespace Evaluation

/-- A serial run over an iteration, from its start. -/
def runSerial (body : TraversalM Unit) (workspace : Workspace) (out : Column) (it : Iteration) :
    Except EvalError Unit × Column :=
  match body.run ⟨workspace, ⟨out, 0⟩, it⟩ with
  | .ok _ t => (.ok (), t.sink.data)
  | .error e t => (.error e, t.sink.data)

/-- Carry out a plan on the data of the output. -/
def runPlan [Allocator] [Scheduler] (prepared : Prepared) (sources : List Source)
    (workspace : Workspace) (g : Geometry) (strides : List (List Nat)) (config : EngineConfig)
    (plan : ExecutionPlan) (out : Column) :
    Except EvalError Unit × Column :=
  let ev := fun mode? => (⟨prepared, sources, mode?⟩ : Evaluation)
  let walk := fun shape strides => Iteration.ofStrides shape strides config.blockSize
  let outputStrides := g.shape.contiguousStrides
  match plan with
  | .empty => (.ok (), out)
  | .constant =>
    if out.size ≠ 1 then (.error (.shape (.constantOutput out.size)), out)
    else
      let mode? := g.reduction?.map fun _ => .single
      match walk [] [[]] with
      | .error e => (.error e, out)
      | .ok it => runSerial (ev mode?).runPlain workspace out it
  | .serial =>
    match walk g.shape (outputStrides :: strides) with
    | .error e => (.error e, out)
    | .ok it => runSerial (ev none).runPlain workspace out it
  | .parallel threads =>
    match walk g.shape (outputStrides :: strides) with
    | .error e => (.error e, out)
    | .ok it =>
      let (result, _, out) :=
        (ev none).runParallel config.threads workspace it out threads config.tasksPerThread
      (result, out)
  | .reduceFull =>
    match walk g.shape (List.replicate g.shape.length 0 :: strides) with
    | .error e => (.error e, out)
    | .ok it => runSerial (ev (some .single)).runPlain workspace out it
  | .reduceInner axis =>
    let split := AxisSplit.ofAxis g axis strides
    match walk split.groups split.groupStrides,
      walk [split.axisLength] (split.axisStrides.map ([·])) with
    | .ok outer, .ok inner =>
      runSerial ((ev (some .single)).runReduceInner outer) workspace out inner
    | .error e, _ | _, .error e => (.error e, out)
  | .reduceOuter axis =>
    let split := AxisSplit.ofAxis g axis strides
    match walk split.groups split.groupStrides with
    | .error e => (.error e, out)
    | .ok groups =>
      runSerial ((ev (some .lanewise)).runReduceOuter split.axisLength split.axisStrides)
        workspace out groups

end Evaluation

/-- What the output holds before the first block. A reduction starts from the
identity of its reducer at the type of the output. -/
def accumulator [Allocator] (k : Kernel) (out : Column) : Except EvalError Column :=
  match k.program.reduction?.bind fun op => op.operation.reducer? with
  | none => .ok out
  | some r =>
    match r.identity? out.elementType with
    | none => .error (.unsupported (.noIdentity r out.elementType))
    | some c => Column.filled c out.elementType out.stringWidth out.size

/-- Strides of an operand over the common shape. -/
def operandStrides (shape target : Shape) : Except EvalError (List Nat) :=
  match shape.broadcastStrides? shape.contiguousStrides target with
  | some strides => .ok strides
  | none => .error (.shape (.operandShape shape target))

/-- The plan for operands and output that pass all checks. -/
def planFor (config : EngineConfig) (policy : PlanPolicy) (k : Kernel) (operands : List Operand)
    (out : NdArray) : Except EvalError (Geometry × ExecutionPlan) := do
  checkOperands k operands out
  if operands.any Operand.isOutput ∧ k.isReduction then
    throw (.unsupported .reductionReadsOutput)
  let g ← Geometry.ofShapes k (operands.map fun o => (o.resolve out).shape)
  if g.outputShape ≠ out.shape then
    throw (.shape (.outputShape out.shape g.outputShape))
  let plan ← counted (policy ⟨g.shape, operands.length, g.reduction?⟩ config)
  unless g.fits plan do
    throw (.unsupported (.unfitPlan plan))
  return (g, plan)

/-- Carry out a plan for a valid kernel on the data of the output. -/
def evaluatePlan [Allocator] [Scheduler] (config : EngineConfig) (k : Kernel)
    (operands : List Operand) (out : NdArray) (g : Geometry) (plan : ExecutionPlan) :
    Except EvalError Unit × Column :=
  let arrays := operands.map (Operand.resolve out)
  let prepared := k.prepare config.blockSize config.boundsCheck (arrays.map NdArray.stringWidth)
  let storages := arrays.map fun a => a.data.storage
  match Workspace.ofKernel k prepared storages out.data.storage with
  | .error e => (.error e, out.data)
  | .ok workspace =>
    match arrays.mapM fun a => operandStrides a.shape g.shape with
    | .error e => (.error e, out.data)
    | .ok strides =>
      Evaluation.runPlan prepared (operands.map Operand.source) workspace g strides config plan
        out.data

/-- Evaluate a valid kernel into an array, which keeps what was written to it
before a failure. -/
def evaluateValid [Allocator] [Scheduler] (config : EngineConfig) (policy : PlanPolicy)
    (k : Kernel) (operands : List Operand) (out : NdArray) : Except EvalError Unit × NdArray :=
  match planFor config policy k operands out with
  | .error e => (.error e, out)
  | .ok (g, plan) =>
    match accumulator k out.data with
    | .error e => (.error e, out)
    | .ok data =>
      let (result, data) := evaluatePlan config k operands { out with data } g plan
      (result, { out with data })

/-! ## Engines -/

structure Engine where
  config : EngineConfig
  policy : PlanPolicy
  /-- Digests of the kernels that passed validation. -/
  validated : List (List UInt8)

/-- How an evaluation left the engine and the output. -/
structure Outcome where
  result : Except EvalError Unit
  engine : Engine
  output : NdArray

namespace Engine

/-- An engine that has not seen a kernel yet. -/
def ofConfig (config : EngineConfig) : Except EvalError Engine := do
  config.validate
  return ⟨config, .byThresholds, []⟩

/-- The engine with another policy. -/
def withPolicy (engine : Engine) (policy : PlanPolicy) : Engine :=
  { engine with policy }

/-- Change the number of threads. Returns the number before. -/
def setThreads (engine : Engine) (threads : Nat) : Except EvalError (Nat × Engine) :=
  if threads = 0 ∨ maxThreads < threads then .error (.misuse (.threadCount threads))
  else .ok (engine.config.threads, { engine with config.threads := threads })

/-- Validate a kernel, unless one with the same digest passed before. -/
def validate (engine : Engine) (k : Kernel) : Except EvalError Engine :=
  if engine.validated.contains k.digest then .ok engine
  else
    match k.validate with
    | .error .uncountable => .error (.crash .overflow)
    | .error cause => .error (.invalid cause)
    | .ok _ => .ok { engine with validated := k.digest :: engine.validated }

/-- Evaluate into an array. -/
def evaluateInto [Allocator] [Scheduler] (engine : Engine) (k : Kernel) (operands : List Operand)
    (out : NdArray) : Outcome :=
  match engine.validate k with
  | .error e => ⟨.error e, engine, out⟩
  | .ok engine =>
    let (result, out) := evaluateValid engine.config engine.policy k operands out
    ⟨result, engine, out⟩

/-- An array of zeros for the result of a kernel. String results are as wide as
the output register. -/
def freshOutput [Allocator] (k : Kernel) (inputs : List NdArray) : Except EvalError NdArray := do
  let g ← Geometry.ofShapes k (inputs.map NdArray.shape)
  let t ← outputType k
  let widths := k.stringWidths (inputs.map NdArray.stringWidth)
  NdArray.zeros t (widths.headD 0) g.outputShape

/-- Evaluate into a new array. -/
def evaluate [Allocator] [Scheduler] (engine : Engine) (k : Kernel) (inputs : List NdArray) :
    Except EvalError NdArray × Engine :=
  match freshOutput k inputs with
  | .error e => (.error e, engine)
  | .ok out =>
    let outcome := engine.evaluateInto k (inputs.map .array) out
    (outcome.result.map fun _ => outcome.output, outcome.engine)

end Engine

end Lanewise
