import Lanewise.EvalError
import Lanewise.Text.Space

/-!
# Engine configuration

Numbers that decide how an evaluation is carried out and never what it gives.
-/

namespace Lanewise

structure EngineConfig where
  /-- Worker threads. -/
  threads : Nat
  /-- Lanes of a full block. -/
  blockSize : Nat
  /-- Check every register of an instruction before anything else about it. -/
  boundsCheck : Bool
  /-- Axes shorter than this are walked outside, over all groups at a time. -/
  reductionThreshold : Nat
  /-- Fewer elements than this are not worth several threads. -/
  parallelThreshold : Nat
  /-- Tasks to aim for on each thread. -/
  tasksPerThread : Nat
  deriving DecidableEq

namespace EngineConfig

/-- The usual number of lanes of a block. -/
def defaultBlockSize : Nat := 128

/-- Two blocks, as far as that fits 64 bits. -/
def parallelThresholdFor (blockSize : Nat) : Nat :=
  min (2 * blockSize) (UInt64.size - 1)

/-- A single thread and the usual thresholds. -/
def serial : EngineConfig where
  threads := 1
  blockSize := defaultBlockSize
  boundsCheck := true
  reductionThreshold := 64
  parallelThreshold := parallelThresholdFor defaultBlockSize
  tasksPerThread := 16

/-- Change the block size; the parallel threshold follows it. -/
def withBlockSize (config : EngineConfig) (blockSize : Nat) : EngineConfig :=
  { config with blockSize, parallelThreshold := parallelThresholdFor blockSize }

/-- A count in decimal digits, with or without a plus sign. -/
def readCount? (text : List Char) : Option Nat :=
  let digits := match text with
    | '+' :: rest => rest
    | _ => text
  if digits.isEmpty || digits.any (!·.isDigit) then none
  else
    let n := digits.foldl (fun n c => 10 * n + (c.toNat - '0'.toNat)) 0
    if n < UInt64.size then some n else none

/-- The positive count that a setting holds; any other text counts as unset. -/
def readSetting? (setting? : Option String) : Option Nat := do
  let n ← readCount? (Text.trim (← setting?).toList)
  guard (0 < n)
  return n

/-- The usual configuration with the threads asked for by one setting and capped
by another. Unset, there are as many threads as the machine offers. -/
def ofSettings (threads? cap? : Option String) (machineThreads : Nat) : EngineConfig :=
  let cap := min ((readSetting? cap?).getD maxThreads) maxThreads
  { serial with threads := min ((readSetting? threads?).getD (min machineThreads maxThreads)) cap }

/-- Whether an engine can work with the configuration. -/
def validate (config : EngineConfig) : Except EvalError Unit :=
  if config.threads = 0 ∨ maxThreads < config.threads then
    .error (.misuse (.configThreads config.threads))
  else if config.blockSize = 0 then .error (.misuse .configBlock)
  else if config.tasksPerThread = 0 then .error (.misuse .configTasks)
  else .ok ()

end EngineConfig

end Lanewise
