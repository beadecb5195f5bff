import Lanewise.Config
import Lanewise.Shape

/-!
# Plan policies

A policy picks the plan of an evaluation from the shape of its iteration space.
-/

namespace Lanewise

/-- What a reduction folds over, within a given shape. -/
inductive ReductionTarget where
  | all
  | axis (index : Nat)
  deriving DecidableEq

/-- What a policy decides from. -/
structure PlanInput where
  /-- The common shape of all operands. -/
  shape : Shape
  /-- Number of inputs. -/
  inputs : Nat
  reduction? : Option ReductionTarget
  deriving DecidableEq

/-- Number of elements to go over, if it fits 64 bits all the way from left to
right. -/
def PlanInput.size? (input : PlanInput) : Option Nat :=
  input.shape.size?

/-- A policy that finds no plan breaks off. -/
abbrev PlanPolicy := PlanInput → EngineConfig → Option ExecutionPlan

namespace PlanPolicy

/-- Plan of an element-wise program: serial below the threshold and when one
thread could do it in a block, else no more threads than there are blocks. -/
def elementwise (size : Nat) (config : EngineConfig) : ExecutionPlan :=
  if config.threads ≤ 1 ∨ size < config.parallelThreshold then .serial
  else
    let block := max config.blockSize 1
    let threads := min config.threads ((size + block - 1) / block)
    if threads ≤ 1 then .serial else .parallel threads

/-- Plan of a reduction: short axes are walked outside. -/
def reduction (shape : Shape) (config : EngineConfig) : ReductionTarget → ExecutionPlan
  | .all => .reduceFull
  | .axis i =>
    if shape.length ≤ 1 then .reduceFull
    else if shape.getD i 0 < config.reductionThreshold then .reduceOuter i
    else .reduceInner i

/-- The policy of an engine that is given no other. It counts the elements before
it looks at anything else. -/
def byThresholds : PlanPolicy := fun input config => do
  let size ← input.size?
  if input.inputs = 0 then return .constant
  else if size = 0 then return .empty
  else
    match input.reduction? with
    | some target => return reduction input.shape config target
    | none => return elementwise size config

/-- The policy that always gives one plan. -/
def fixed (plan : ExecutionPlan) : PlanPolicy := fun _ _ => some plan

end PlanPolicy

end Lanewise
