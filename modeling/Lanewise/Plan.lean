/-!
# Execution plans

How one evaluation goes over its iteration space.
-/

namespace Lanewise

inductive ExecutionPlan where
  /-- A single block of one element, for programs without inputs. -/
  | constant
  /-- Nothing to do. -/
  | empty
  /-- One pass over the iteration space. -/
  | serial
  /-- Tasks of whole blocks, dealt out to threads. -/
  | parallel (threads : Nat)
  /-- Every element into one output value. -/
  | reduceFull
  /-- One output group after the other, each along the whole axis. -/
  | reduceInner (axis : Nat)
  /-- One position of the axis after the other, each over all groups. -/
  | reduceOuter (axis : Nat)
  deriving DecidableEq

namespace ExecutionPlan

def isReduction : ExecutionPlan → Bool
  | reduceFull | reduceInner _ | reduceOuter _ => true
  | constant | empty | serial | parallel _ => false

def text : ExecutionPlan → String
  | constant => "constant"
  | empty => "empty"
  | serial => "serial"
  | parallel threads => s!"parallel({threads})"
  | reduceFull => "reduce-full"
  | reduceInner axis => s!"reduce-inner(axis {axis})"
  | reduceOuter axis => s!"reduce-outer(axis {axis})"

end ExecutionPlan

end Lanewise
