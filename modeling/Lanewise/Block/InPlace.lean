import Lanewise.Block

/-!
# Running a block in place

How the interpreter goes about a block in memory. The destination of an
instruction is taken out of its place while the instruction runs, and its
elements change one after the other. An instruction that reads its own
destination is given a copy of it, the shadow. A loop over lanes either ends with
the first operand that ends, or runs a number of times that is known beforehand.
-/

namespace Lanewise

/-! ## Loops -/

/-- How long a loop over the lanes of its operands goes on. -/
inductive Loop where
  /-- Until an operand ends. -/
  | counted
  /-- This many times, where no operand has more lanes or fewer. -/
  | fixed (lanes : Nat)
  deriving DecidableEq

namespace Loop

/-- Go on until the array or another operand ends. The body makes nothing of a lane
that some operand does not have. -/
def untilEnd {α : Type} (body : Nat → α → Option α) (out : Array α) (i : Nat) : Array α :=
  if h : i < out.size then
    match body i out[i] with
    | some value => untilEnd body (out.set i value) (i + 1)
    | none => out
  else out
termination_by out.size - i

/-- Go on for a number of lanes. -/
def times {α : Type} (body : Nat → α → Option α) (out : Array α) : (lanes : Nat) → Array α
  | 0 => out
  | lanes + 1 =>
    let out := times body out lanes
    match out[lanes]?.bind (body lanes) with
    | some value => out.setIfInBounds lanes value
    | none => out

/-- Change the elements of an array. `hasLanes` tells whether the other operands have
a number of lanes. -/
def run {α : Type} (loop : Loop) (hasLanes : Nat → Bool) (body : Nat → α → Option α)
    (out : Array α) : Array α :=
  match loop with
  | counted => untilEnd body out 0
  | fixed lanes =>
    if lanes ≠ 0 ∧ out.size = lanes ∧ hasLanes lanes then times body out lanes
    else untilEnd body out 0

end Loop

/-- Strings, and functions that are called by name, come with loops of their own. -/
def Operation.loop (op : Operation) (loop : Loop) : Loop :=
  match op with
  | .copy .str | .compare _ .str | .call _ => .counted
  | _ => loop

/-! ## Operands -/

namespace Column

/-- The elements as values of a type, if the column can be read so. -/
def fetch? (c : Column) (t : ElementType) : Option (Array t.Value) :=
  (c.storage.read? t).map fun read => c.cells.map read

/-- Let a computation change the elements as values of a type, if the column can be
read so. All of them are written back. -/
def store? (c : Column) (t : ElementType) (compute : Array t.Value → Array t.Value) :
    Option Column := do
  let read ← c.storage.read? t
  let write ← c.storage.write? t
  return ⟨c.storage, (compute (c.cells.map read)).map write⟩

end Column

/-- The values of one source for each type of a list. -/
inductive Operands : List ElementType → Type where
  | nil : Operands []
  | cons {t : ElementType} {ts : List ElementType} :
    Array t.Value → Operands ts → Operands (t :: ts)

namespace Operands

/-- The values of columns, if there is one column for each type and each can be read
so. -/
def fetch? : (ts : List ElementType) → List Column → Option (Operands ts)
  | [], [] => some .nil
  | t :: ts, c :: cs => do
    let first ← c.fetch? t
    let rest ← fetch? ts cs
    return .cons first rest
  | _, _ => none

/-- The values of one lane, if no operand ends before it. -/
def lane? : {ts : List ElementType} → Operands ts → Nat → Option (Values ts)
  | _, nil, _ => some .nil
  | _, cons first rest, i => do return .cons (← first[i]?) (← rest.lane? i)

/-- Whether every operand has this many lanes. -/
def hasLanes : {ts : List ElementType} → Operands ts → Nat → Bool
  | _, nil, _ => true
  | _, cons first rest, lanes => first.size == lanes && rest.hasLanes lanes

end Operands

/-- The lanes of a destination after a rule, given the same lanes of the sources. -/
def Rule.inPlace? (rule : Rule) (loop : Loop) (mode : Accumulation) (sources : List Column)
    (target : Column) : Option Column :=
  match rule with
  | .map arguments result f => do
    let operands ← Operands.fetch? arguments sources
    target.store? result (loop.run operands.hasLanes fun i _ => (operands.lane? i).map f)
  | .fold t combine =>
    match sources with
    | [source] => do
      let values ← source.fetch? t
      match mode with
      | .single => target.store? t fun out => out.modify 0 (values.foldl combine)
      | .lanewise =>
        target.store? t
          (loop.run (fun lanes => values.size == lanes) fun i old => values[i]?.map (combine old))
    | _ => none

/-! ## Memory -/

/-- What a run works on. -/
structure Memory where
  frame : Frame
  /-- The copy of a destination that its own instruction reads. -/
  shadow : Column

namespace Memory

/-- What an instruction with a given destination reads of a register. -/
def source? (m : Memory) (dest n reg : Nat) : Option Column :=
  if reg = dest then some (m.shadow.head n) else (m.frame.register? reg).map fun c => c.head n

/-- The memory with the destination of an instruction out of its place. Where the
instruction reads it, the shadow has its lanes. -/
def takeOut (m : Memory) (n : Nat) (inst : Instruction) (target : Column) : Memory where
  frame := m.frame.set inst.dest.toNat .empty
  shadow := if inst.dest ∈ inst.sources then target.head n else m.shadow

/-- Let a computation change `n` lanes of the destination, given those of the sources.
Tells whether it could. -/
def apply (m : Memory) (n : Nat) (inst : Instruction)
    (compute : List Column → Column → Option Column) : Bool × Memory :=
  let dest := inst.dest.toNat
  match if m.frame.isWritable dest then m.frame.register? dest else none with
  | none => (false, m)
  | some target =>
    let away := m.takeOut n inst target
    match inst.sources.mapM (fun reg => away.source? dest n reg.toNat) >>=
        (compute · (target.head n)) with
    | some lanes => (true, { away with frame := away.frame.set dest (target.copyFrom lanes).1 })
    | none => (false, { away with frame := away.frame.set dest target })

/-- One instruction over `n` lanes. Tells whether it could be executed. -/
def execute (m : Memory) (loop : Loop) (mode : Accumulation) (n : Nat) (inst : Instruction) :
    Bool × Memory :=
  if inst.operation = .noop then (true, m)
  else
    m.apply n inst fun sources target => do
      let rule ← inst.operation.rule? (inst.immediate?.getD 255)
      rule.inPlace? (inst.operation.loop loop) mode sources target

end Memory

namespace Prepared

/-- One step over `n` lanes. -/
def stepInPlace (p : Prepared) (loop : Loop) (mode? : Option Accumulation) (n : Nat)
    (isLast : Bool) (m : Memory) : Step → Except EvalError Unit × Memory
  | .invalid pc | .truncated pc => (.error (.badOpcode pc), m)
  | .execute inst =>
    if p.boundsCheck && p.layout.count?.isNone then (.error (.crash .overflow), m)
    else if p.boundsCheck && !p.inBounds inst then (.error (.badArgument inst.pc), m)
    else if inst.operation.isReduction && !(isLast && mode?.isSome) then
      (.error (.badOpcode inst.pc), m)
    else if m.frame.miscounts inst then (.error (.crash .overflow), m)
    else
      let (done, m) := m.execute loop (mode?.getD .lanewise) n inst
      (if done then .ok () else .error (.badArgument inst.pc), m)

/-- Steps in order, up to the first fault. -/
def runStepsInPlace (p : Prepared) (loop : Loop) (mode? : Option Accumulation) (n : Nat) :
    List Step → Memory → Except EvalError Unit × Memory
  | [], m => (.ok (), m)
  | step :: rest, m =>
    match p.stepInPlace loop mode? n rest.isEmpty m step with
    | (.ok (), m) => p.runStepsInPlace loop mode? n rest m
    | (.error e, m) => (.error e, m)

/-- The whole program over a block of `n` lanes. -/
def runBlock (p : Prepared) (mode? : Option Accumulation) (n : Nat) (m : Memory) :
    Except EvalError Unit × Memory :=
  p.runStepsInPlace .counted mode? n p.steps m

/-- The whole program over a block whose number of lanes the loops are made for. -/
def runBlockFixed (p : Prepared) (mode? : Option Accumulation) (lanes : Nat) (m : Memory) :
    Except EvalError Unit × Memory :=
  p.runStepsInPlace (.fixed lanes) mode? lanes p.steps m

end Prepared

end Lanewise
