import Lanewise.Traversal

/-!
# Worker pools

An element-wise evaluation split among threads. The output is cut into tasks of
whole blocks, dealt out to the threads in turn. A thread works through its tasks
with buffers of its own; each task owns its part of the output. After a failure
threads start no further task.

Tasks do not see each other, so a run is described by a schedule: the order in
which threads take their turns, a task each, and whether a failure elsewhere has
reached them by then. The schedule is up to the machine; all that is known of it is
that no thread is left with tasks to do.
-/

namespace Lanewise

/-- Elements of one task: a whole number of blocks, and few enough tasks that
each thread has about `tasksPerThread`. There is no answer where a product does not
fit 64 bits. -/
def taskSize? (length block threads tasksPerThread : Nat) : Option Nat := do
  let block := max block 1
  let perThread ← checkedProduct (max tasksPerThread 1) block
  let perRound ← checkedProduct perThread (max threads 1)
  checkedProduct (max ((length + perRound - 1) / perRound) 1) block

/-- A thread: its buffers and the numbers of the tasks it has left. -/
structure Worker where
  workspace : Workspace
  pending : List Nat

/-- One entry of a schedule: a thread goes on to its next task. -/
structure Turn where
  thread : Nat
  /-- Whether the thread can tell by now that another one failed. -/
  informed : Bool
  deriving DecidableEq

/-- A parallel evaluation under way. -/
structure PoolRun where
  workers : Array Worker
  /-- The part of the output that each task owns. -/
  parts : Array Column
  /-- How the run fails, if it does. -/
  failure? : Option EvalError

namespace PoolRun

/-- The tasks of a thread: every `threads`-th, from its own number on. -/
def tasksOf (thread threads tasks : Nat) : List Nat :=
  (List.range tasks).filter fun task => task % threads = thread

/-- Deal the parts of an output out to threads, each with its buffers. -/
def start (buffers : List Workspace) (out : Column) (size : Nat) : PoolRun :=
  let parts := (out.chunks size).toArray
  let workers := buffers.toArray.mapIdx fun thread workspace =>
    ⟨workspace, tasksOf thread buffers.length parts.size⟩
  ⟨workers, parts, none⟩

/-- One task: all blocks of its range, on its part of the output. -/
def runTask (ev : Evaluation) (it : Iteration) (start : Nat) (workspace : Workspace)
    (part : Column) : Except EvalError Unit × Workspace × Column :=
  match it.setRange start (start + part.size) with
  | .error e => (.error e, workspace, part)
  | .ok it =>
    match ev.runPlain.run ⟨workspace, ⟨part, start⟩, it⟩ with
    | .ok _ t => (.ok (), t.workspace, t.sink.data)
    | .error e t => (.error e, t.workspace, t.sink.data)

/-- The failure of a run that has one more. The first one counts, but no run ends
with another failure when a thread breaks off. -/
def addFailure (failure? : Option EvalError) (e : EvalError) : Option EvalError :=
  match e with
  | .crash _ => some e
  | _ => failure?.or (some e)

/-- A thread does its next task, or gives up its tasks when it is told of a
failure. -/
def step (ev : Evaluation) (it : Iteration) (size : Nat) (run : PoolRun) (turn : Turn) : PoolRun :=
  let ⟨workers, parts, failure?⟩ := run
  match workers[turn.thread]? with
  | none | some ⟨_, []⟩ => ⟨workers, parts, failure?⟩
  | some ⟨workspace, task :: rest⟩ =>
    if turn.informed && failure?.isSome then
      ⟨workers.setIfInBounds turn.thread ⟨workspace, []⟩, parts, failure?⟩
    else
      match parts[task]? with
      | none => ⟨workers.setIfInBounds turn.thread ⟨workspace, rest⟩, parts, failure?⟩
      | some part =>
        let (result, workspace, part) := runTask ev it (task * size) workspace part
        let parts := parts.setIfInBounds task part
        match result with
        | .ok _ => ⟨workers.setIfInBounds turn.thread ⟨workspace, rest⟩, parts, failure?⟩
        | .error e =>
          ⟨workers.setIfInBounds turn.thread ⟨workspace, []⟩, parts, addFailure failure? e⟩

/-- The turns of a schedule. -/
def follow (ev : Evaluation) (it : Iteration) (size : Nat) (run : PoolRun)
    (schedule : List Turn) : PoolRun :=
  schedule.foldl (step ev it size) run

/-- Whether no thread has anything left to do. -/
def isFinished (run : PoolRun) : Bool :=
  run.workers.all fun worker => worker.pending.isEmpty

/-- The output with all parts put back. -/
def output (run : PoolRun) (out : Column) (size : Nat) : Column :=
  run.parts.toList.zipIdx.foldl (fun out (part, task) => (out.write (task * size) part).1) out

end PoolRun

/-- The schedule in which tasks are done in order and every failure is known at
once. -/
def inTaskOrder (threads tasks : Nat) : List Turn :=
  (List.range tasks).map fun task => ⟨task % threads, true⟩

/-- How a machine has threads take their turns. Each of them gets at least as many
turns as it has tasks. -/
class Scheduler where
  turns : (threads tasks : Nat) → List Turn
  enough (threads tasks thread : Nat) (h : thread < threads) :
    (PoolRun.tasksOf thread threads tasks).length
      ≤ (turns threads tasks).countP fun turn => turn.thread = thread

/-- Tasks are done in order. -/
@[reducible]
def Scheduler.inOrder : Scheduler where
  turns := inTaskOrder
  enough threads tasks thread _ := by
    rw [inTaskOrder, List.countP_map, PoolRun.tasksOf, List.countP_eq_length_filter]
    exact Nat.le_refl _

/-- Buffers for a number of threads. The first one works in those that are given,
the others in copies made beforehand. -/
def Workspace.forThreads [Allocator] (w : Workspace) (threads : Nat) :
    Except EvalError (List Workspace) := do
  return w :: (← (List.replicate (threads - 1) w).mapM Workspace.fork)

namespace Evaluation

/-- Evaluate an element-wise program over the whole of an iteration, on up to
`threads` threads of a pool. The output must be contiguous and as long as the
iteration. Returns the outcome, the buffers of the first thread and the output. -/
def runParallel [Allocator] [Scheduler] (ev : Evaluation) (poolThreads : Nat)
    (workspace : Workspace) (it : Iteration) (out : Column) (threads tasksPerThread : Nat) :
    Except EvalError Unit × Workspace × Column :=
  if ev.mode?.isSome then (.error (.unsupported .parallelReduction), workspace, out)
  else if out.size ≠ it.size then
    (.error (.shape (.outputSize out.size it.size)), workspace, out)
  else
    let threads := min (max threads 1) (max poolThreads 1)
    match counted (taskSize? it.size ev.prepared.blockSize threads tasksPerThread) with
    | .error e => (.error e, workspace, out)
    | .ok size =>
      match workspace.forThreads threads with
      | .error e => (.error e, workspace, out)
      | .ok buffers =>
        let start := PoolRun.start buffers out size
        let run := start.follow ev it size (Scheduler.turns threads start.parts.size)
        let workspace := match run.workers[0]? with
          | none => workspace
          | some first => first.workspace
        let result := match run.failure? with
          | none => .ok ()
          | some e => .error e
        (result, workspace, run.output out size)

end Evaluation

end Lanewise
