import Lanewise.Shape

/-!
# Iterations

A walk over a shape in row-major order, one block of positions at a time. Each
operand has a base and one stride per dimension, which place its elements. For
a block, `access?` tells whether an operand moves in even steps; where it does
not, `odometer?` lists the offsets one by one. Offsets are numbers of 64 bits, and
there is no answer where one on the way does not fit.
-/

namespace Lanewise

/-- A run of consecutive positions. -/
structure Block where
  start : Nat
  len : Nat
  deriving DecidableEq

/-- Where the elements of an operand lie. -/
structure Strided where
  base : Nat
  /-- One stride per dimension. -/
  strides : List Nat
  deriving DecidableEq

/-- How the elements of an operand lie within one block. -/
inductive Access where
  /-- Element `k` at `start + k * step`. -/
  | even (start step : Nat)
  | uneven
  deriving DecidableEq

namespace Strided

/-- Extents and strides, the innermost dimension first. -/
def dims (op : Strided) (shape : Shape) : List (Nat × Nat) :=
  (shape.zip op.strides).reverse

/-- The one step the operand moves by over the whole shape: 0 when it stands
still, 1 when it is contiguous. Dimensions of a single position do not matter. -/
def flatStep? (op : Strided) (shape : Shape) : Option Nat :=
  let moving := (shape.zip (op.strides.zip shape.contiguousStrides)).filter fun (d, _) => 1 < d
  if moving.all fun (_, stride, _) => stride == 0 then some 0
  else if moving.all fun (_, stride, contiguous) => stride == contiguous then some 1
  else none

/-- Move an offset by the displacement of a position, one dimension after the
other. -/
def displace? : (dims : List (Nat × Nat)) → (position offset : Nat) → Option Nat
  | [], _, offset => some offset
  | (extent, stride) :: rest, position, offset =>
    if extent = 0 then some offset
    else do
      let part ← checkedProduct (position % extent) stride
      displace? rest (position / extent) (← checkedSum offset part)

/-- Offset of the element at a position, where it can be counted. -/
def offset? (op : Strided) (shape : Shape) (position : Nat) : Option Nat :=
  match op.flatStep? shape with
  | some step => do checkedSum op.base (← checkedProduct position step)
  | none => displace? (op.dims shape) position op.base

/-- How the elements lie within a block. Where there is no step for the whole
shape, a block within one innermost row still has one. -/
def access? (op : Strided) (shape : Shape) (block : Block) : Option Access :=
  match op.flatStep? shape with
  | some step => do
    return .even (← checkedSum op.base (← checkedProduct block.start step)) step
  | none =>
    match shape.getLast?, op.strides.getLast? with
    | some inner, some step =>
      if 0 < inner then do
        let stop ← checkedSum (block.start % inner) block.len
        if stop ≤ inner then return .even (← op.offset? shape block.start) step
        else return .uneven
      else some .uneven
    | _, _ => some .uneven

/-- The indices of a position, the innermost first, beside extent and stride. -/
def indices : (dims : List (Nat × Nat)) → (position : Nat) → List (Nat × Nat × Nat)
  | [], _ => []
  | (extent, stride) :: rest, position =>
    (extent, stride, position % max extent 1) :: indices rest (position / max extent 1)

/-- Move on by one position: the innermost index goes up, and one that reaches
its extent goes back to 0 and carries. The offset follows: the stride is added
before it is known whether the index goes back. -/
def advance? : List (Nat × Nat × Nat) → (offset : Nat) → Option (List (Nat × Nat × Nat) × Nat)
  | [], offset => some ([], offset)
  | (extent, stride, index) :: rest, offset => do
    let raised ← checkedSum offset stride
    if index + 1 < extent then return ((extent, stride, index + 1) :: rest, raised)
    else
      let back ← checkedProduct (index + 1) stride
      let (rest, offset) ← advance? rest (← checkedDifference raised back)
      return ((extent, stride, 0) :: rest, offset)

/-- The offsets met in `len` positions. The indices do not move on behind the last
one. -/
def odometer? (wheels : List (Nat × Nat × Nat)) (offset : Nat) : (len : Nat) → Option (List Nat)
  | 0 => some []
  | 1 => some [offset]
  | len + 2 => do
    let (next, following) ← advance? wheels offset
    return offset :: (← odometer? next following (len + 1))

/-- The offsets of a block, one by one. -/
def walkOffsets? (op : Strided) (shape : Shape) (block : Block) : Option (List Nat) :=
  if block.len = 0 then some []
  else do
    odometer? (indices (op.dims shape) block.start) (← op.offset? shape block.start) block.len

/-- The offsets of a block, found in the quickest way. -/
def offsets? (op : Strided) (shape : Shape) (block : Block) : Option (List Nat) := do
  match ← op.access? shape block with
  | .even start step =>
    (List.range block.len).mapM fun k => do checkedSum start (← checkedProduct k step)
  | .uneven => op.walkOffsets? shape block

end Strided

/-- A walk over the positions of a shape from `start` up to `stop`, which has
come to `position`. -/
structure Iteration where
  shape : Shape
  operands : List Strided
  blockSize : Nat
  blockSize_pos : 0 < blockSize
  size_le : shape.size ≤ Shape.maxSize
  start : Nat
  stop : Nat
  position : Nat

namespace Iteration

/-- A walk over a whole shape for operands with the given strides. -/
def ofStrides (shape : Shape) (strides : List (List Nat)) (blockSize : Nat) :
    Except EvalError Iteration :=
  if hpos : 0 < blockSize then
    match hsize : shape.checkedSize with
    | .error e => .error e
    | .ok size => do
      for s in strides do
        if s.length ≠ shape.length then
          throw (.shape (.strideCount s.length shape.length))
      return ⟨shape, strides.map (⟨0, ·⟩), blockSize, hpos, (Shape.of_checkedSize hsize).2, 0,
        size, 0⟩
  else .error (.misuse .zeroBlock)

/-- Number of positions of the shape. -/
def size (it : Iteration) : Nat :=
  it.shape.size

/-- Positions left. -/
def remaining (it : Iteration) : Nat :=
  it.stop - it.position

/-- Go back to the start. -/
def reset (it : Iteration) : Iteration :=
  { it with position := it.start }

/-- Walk over the positions from `start` up to `stop` only. -/
def setRange (it : Iteration) (start stop : Nat) : Except EvalError Iteration :=
  if start ≤ stop ∧ stop ≤ it.size then .ok { it with start, stop, position := start }
  else .error (.misuse (.range start stop it.size))

/-- Move the base of every operand and go back to the start. -/
def setBases (it : Iteration) (bases : List Nat) : Except EvalError Iteration :=
  if bases.length = it.operands.length then
    .ok { it with
      operands := it.operands.zipWith (fun op base => { op with base }) bases
      position := it.start }
  else .error (.misuse (.baseCount bases.length it.operands.length))

/-- The next block, and the walk behind it. -/
def next? (it : Iteration) : Option (Block × Iteration) :=
  if it.position < it.stop then
    let len := min it.blockSize (it.stop - it.position)
    some (⟨it.position, len⟩, { it with position := it.position + len })
  else none

theorem remaining_lt_of_next? {it it' : Iteration} {block : Block}
    (h : it.next? = some (block, it')) : it'.remaining < it.remaining := by
  have := it.blockSize_pos
  unfold next? at h
  split at h
  · cases h
    simp only [remaining]
    omega
  · cases h

/-- The blocks that are left, each with the walk behind it. -/
def blocks (it : Iteration) : List (Block × Iteration) :=
  match _ : it.next? with
  | none => []
  | some (block, rest) => (block, rest) :: rest.blocks
termination_by it.remaining
decreasing_by exact remaining_lt_of_next? ‹_›

end Iteration

end Lanewise
