import Lanewise.Block
import Lanewise.Iteration

/-!
# Traversals

Loops that run a prepared kernel block by block over an iteration. The first
operand of the iteration is the output, the others are the inputs.

An input that lies contiguously in a block is read in place, any other is
collected first. The output is worked on in place where it is contiguous and no
input reads it; otherwise the block works on a scratch column, and its elements
are put in place at the end of the block.
-/

namespace Lanewise

/-- Where an input comes from. -/
inductive Source where
  | array (data : Column)
  /-- The output, as it is before the block. -/
  | output

/-- The part of the output that a traversal may write: the elements from `base`
on. -/
structure Sink where
  data : Column
  base : Nat

namespace Sink

/-- Offsets counted from the start of the part. -/
def relative (sink : Sink) (offsets : List Nat) : Except EvalError (List Nat) :=
  offsets.mapM fun offset =>
    if sink.base ≤ offset then .ok (offset - sink.base)
    else .error (.misuse (.offsetBeforeChunk offset sink.base))

end Sink

/-- What all blocks of an evaluation have in common. -/
structure Evaluation where
  prepared : Prepared
  sources : List Source
  /-- How a reduction goes into the output; none for other programs. -/
  mode? : Option Accumulation

/-- The buffers of one thread. -/
structure Workspace where
  registers : RegisterFile
  /-- Where the inputs are collected, one column for each. Every block overwrites
  what it reads of them, so what is left here is not kept. -/
  staging : List Column
  /-- Takes the results of a block that cannot be worked on in place. What a
  block leaves here is there for the next one. -/
  scratch : Column

/-- Buffers for a kernel, with a column to collect each input in. -/
def Workspace.ofKernel [Allocator] (k : Kernel) (p : Prepared) (inputs : List Storage)
    (output : Storage) : Except EvalError Workspace := do
  let registers ← RegisterFile.ofKernel k p.stringWidths p.blockSize
  let staging ← inputs.mapM fun input => Column.zeros input p.blockSize
  return ⟨registers, staging, ← Column.zeros output p.blockSize⟩

/-- Buffers for one more thread: the same registers and fresh columns. -/
def Workspace.fork [Allocator] (w : Workspace) : Except EvalError Workspace := do
  let fresh := fun c : Column => Column.zeros c.storage c.size
  let registers ← w.registers.tryClone
  return ⟨registers, ← w.staging.mapM fresh, ← fresh w.scratch⟩

/-- Where a block works on the output. -/
inductive Placement where
  /-- In place, on `len` elements of the sink from `start` on. -/
  | direct (start len : Nat)
  /-- On the scratch column, for the elements of the sink at the offsets. -/
  | scratch (offsets : List Nat)
  deriving DecidableEq

/-- What a traversal changes as it goes. -/
structure Traversal where
  workspace : Workspace
  sink : Sink
  iteration : Iteration

/-! ## Inputs of a block -/

/-- The elements at offsets of a column, copied into a buffer. -/
def Column.collect (buffer src : Column) (offsets : List Nat) : Except EvalError Column :=
  let (collected, done) := buffer.gather src offsets
  if done then .ok collected
  else .error (src.fault buffer .input (offsets.take buffer.size))

/-- An input made ready for a block. -/
inductive Staged where
  /-- Elements of a host array in place, or collected ones. -/
  | ready (view : Column)
  /-- Elements of the sink, from `start` on. -/
  | sink (start : Nat)

/-- What a block of `n` lanes reads of an input that was made ready. -/
def Staged.view (staged : Staged) (sink : Sink) (n : Nat) : Except EvalError Column :=
  match staged with
  | .ready view => .ok view
  | .sink start => do return sink.data.slice start (← counted (checkedSum start n))

namespace Source

/-- Bring the elements of an input together, in the `i`-th column for that. -/
def collect (source : Source) (t : Traversal) (op : Strided) (block : Block) (i : Nat) :
    Except EvalError Staged := do
  let offsets ← counted (op.offsets? t.iteration.shape block)
  let some buffer := t.workspace.staging[i]? | throw (.mismatch (.noStaging (i + 1)))
  let buffer := buffer.head block.len
  match source with
  | .array data => return .ready (← buffer.collect data offsets)
  | .output => return .ready (← buffer.collect t.sink.data (← t.sink.relative offsets))

/-- Make the `i`-th input ready for a block. -/
def stage (source : Source) (t : Traversal) (block : Block) (i : Nat) :
    Except EvalError Staged := do
  let op ← indexed t.iteration.operands[i + 1]?
  match source, ← counted (op.access? t.iteration.shape block) with
  | .array data, .even start 1 =>
    return .ready (data.slice start (← counted (checkedSum start block.len)))
  | .output, .even start 1 =>
    if t.sink.base ≤ start then return .sink (start - t.sink.base)
    else source.collect t op block i
  | _, _ => source.collect t op block i

end Source

/-! ## Blocks -/

/-- A computation that keeps what it has changed when it fails. -/
abbrev TraversalM := EStateM EvalError Traversal

namespace Evaluation

/-- Whether some input is the output. -/
def readsOutput (ev : Evaluation) : Bool :=
  ev.sources.any fun
    | .output => true
    | .array _ => false

/-- Make all inputs ready for a block. -/
def stageAll (ev : Evaluation) (t : Traversal) (block : Block) : Except EvalError (List Staged) :=
  ev.sources.zipIdx.mapM fun (source, i) => source.stage t block i

/-- Where a block works on the output. A fold into a single element needs an
output that stands still and that no input reads. -/
def place (ev : Evaluation) (sink : Sink) (op : Strided) (shape : Shape) (block : Block) :
    Except EvalError Placement := do
  let direct (start len : Nat) : Except EvalError Placement :=
    if sink.base ≤ start then .ok (.direct (start - sink.base) len)
    else .error (.misuse (.offsetOutside .output))
  match ev.mode?, ← counted (op.access? shape block), ev.readsOutput with
  | some .single, .even start 0, false => direct start 1
  | some .single, _, _ => .error (.unsupported .movingReductionOutput)
  | _, .even start 1, false => direct start block.len
  | _, _, _ => do
    let offsets ← counted (op.offsets? shape block)
    return .scratch (← sink.relative offsets)

/-- Run a block on elements of the sink. -/
def runDirect (ev : Evaluation) (n : Nat) (inputs : List Staged) (start len : Nat) :
    TraversalM Unit := do
  let t ← get
  let views ← liftExcept (inputs.mapM (·.view t.sink n))
  let stop ← liftExcept (counted (checkedSum start len))
  let (result, frame) := ev.prepared.run ev.mode? n
    ⟨t.workspace.registers, views, t.sink.data.slice start stop⟩
  set { t with
    workspace.registers := frame.registers
    sink.data := (t.sink.data.write start frame.output).1 }
  liftExcept result

/-- Bring the elements of the sink that a fold starts from into the scratch
column. -/
def loadScratch (offsets : List Nat) : TraversalM Unit := do
  let t ← get
  let (scratch, done) := t.workspace.scratch.gather t.sink.data offsets
  set { t with workspace.scratch := scratch }
  unless done do throw (t.sink.data.fault scratch .output (offsets.take scratch.size))

/-- Put the results of a block in place. -/
def storeScratch (n : Nat) (offsets : List Nat) : TraversalM Unit := do
  let t ← get
  let results := t.workspace.scratch.head n
  let (data, done) := t.sink.data.scatter results offsets
  set { t with sink.data := data }
  unless done do throw (t.sink.data.fault results .output (offsets.take results.size))

/-- Run a block on what the scratch column holds by now, and put the results in
place. -/
def runLoaded (ev : Evaluation) (n : Nat) (inputs : List Staged) (offsets : List Nat) :
    TraversalM Unit := do
  let t ← get
  let views ← liftExcept (inputs.mapM (·.view t.sink n))
  let (result, frame) := ev.prepared.run ev.mode? n
    ⟨t.workspace.registers, views, t.workspace.scratch.head n⟩
  set { t with
    workspace.registers := frame.registers
    workspace.scratch := (t.workspace.scratch.write 0 frame.output).1 }
  liftExcept result
  storeScratch n offsets

/-- Run a block on the scratch column. -/
def runScratch (ev : Evaluation) (n : Nat) (inputs : List Staged) (offsets : List Nat) :
    TraversalM Unit := do
  if ev.mode?.isSome then loadScratch offsets
  ev.runLoaded n inputs offsets

/-- Run one block. -/
def runBlock (ev : Evaluation) (block : Block) : TraversalM Unit := do
  let t ← get
  let staged ← liftExcept (ev.stageAll t block)
  let output ← liftExcept (indexed t.iteration.operands[0]?)
  match ← liftExcept (ev.place t.sink output t.iteration.shape block) with
  | .direct start len => ev.runDirect block.len staged start len
  | .scratch offsets => ev.runScratch block.len staged offsets

/-- Run the blocks that a walk has left. -/
def runBlocks (ev : Evaluation) (it : Iteration) : TraversalM Unit :=
  match _ : it.next? with
  | none => return
  | some (block, rest) => do
    modify fun t => { t with iteration := rest }
    ev.runBlock block
    runBlocks ev rest
termination_by it.remaining
decreasing_by exact Iteration.remaining_lt_of_next? ‹_›

/-- The blocks are those of the walk, up to the first failure. -/
theorem runBlocks_eq_forM (ev : Evaluation) (it : Iteration) :
    ev.runBlocks it = (it.blocks.forM fun (block, rest) => do
      modify fun t => { t with iteration := rest }
      ev.runBlock block) := by
  fun_induction Iteration.blocks it with
  | case1 it h => unfold runBlocks; split <;> simp_all
  | case2 it block rest h ih => unfold runBlocks; split <;> simp_all

/-- Run the blocks that the iteration has left. -/
def runPlain (ev : Evaluation) : TraversalM Unit := do
  let t ← get
  ev.runBlocks t.iteration

/-- Move the bases of the operands and run all blocks from there. -/
def runFrom (ev : Evaluation) (bases : List Nat) : TraversalM Unit := do
  let t ← get
  let iteration ← liftExcept (t.iteration.setBases bases)
  set { t with iteration }
  ev.runPlain

/-- Do something for the numbers from `start` on, `count` of them. -/
def forEach (body : Nat → TraversalM Unit) (start : Nat) : (count : Nat) → TraversalM Unit
  | 0 => return
  | count + 1 => do
    body start
    forEach body (start + 1) count

/-- Inner accumulation: `outer` goes over the groups, and for each of them the
iteration walks the reduced axis. -/
def runReduceInner (ev : Evaluation) (outer : Iteration) : TraversalM Unit :=
  forEach (fun group => do
    let bases := outer.operands.mapM fun op => op.offset? outer.shape group
    ev.runFrom (← liftExcept (counted bases))) 0 outer.size

/-- Outer accumulation: for each position of the reduced axis the iteration
walks all groups. -/
def runReduceOuter (ev : Evaluation) (axisLength : Nat) (axisStrides : List Nat) :
    TraversalM Unit :=
  forEach (fun j => do
    let bases := axisStrides.mapM fun stride => checkedProduct j stride
    ev.runFrom (← liftExcept (counted bases))) 0 axisLength

end Evaluation

end Lanewise
