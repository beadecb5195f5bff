import Lanewise.Engine
import Lanewise.Proofs.Reach
import Lanewise.Proofs.Traversal

/-!
# Operands that pass the checks

What the checks before an evaluation say about operands and output
(`Accepted`), and what follows from them: every operand can be read over the
common shape (`exists_strides`), and buffers can be laid out where there is room
(`exists_workspace`).
-/

namespace Lanewise

open Shape (size maxSize)

deriving instance DecidableEq for NdArray

/-- An array as it is constructed: it has the elements of its shape, and they can
be counted in 64 bits. -/
def NdArray.WellFormed (a : NdArray) : Prop :=
  a.shape.checkedSize = .ok a.data.size

instance (a : NdArray) : Decidable a.WellFormed :=
  inferInstanceAs (Decidable (_ = _))

theorem NdArray.WellFormed.size_eq {a : NdArray} (h : a.WellFormed) :
    a.data.size = Shape.size a.shape ∧ Shape.size a.shape ≤ maxSize :=
  Shape.of_checkedSize h

/-- Errors that stand for a refusal of a request: the evaluation did not start. -/
def EvalError.IsRefusal : EvalError → Prop
  | .invalid _ | .mismatch _ | .shape _ | .unsupported _ => True
  | .badArgument _ | .badOpcode _ | .allocation _ | .misuse _ | .crash _ => False

/-! ## Types -/

/-- The operands have types that the inputs of the kernel take. -/
def TypesAgree (k : Kernel) (operands : List Operand) (out : NdArray) : Prop :=
  List.Forall₂ (fun o t => (o.resolve out).elementType.accepts t = true) operands k.inputSignature

theorem of_checkOperandTypes {out : NdArray} {index : Nat} {operands : List Operand}
    {sig : Signature} (h : checkOperandTypes out index operands sig = .ok ())
    (hlen : operands.length = sig.length) :
    List.Forall₂ (fun o t => (o.resolve out).elementType.accepts t = true) operands sig := by
  induction operands generalizing index sig with
  | nil =>
    obtain rfl := List.length_eq_zero_iff.1 hlen.symm
    exact .nil
  | cons o operands ih =>
    cases sig with
    | nil => cases hlen
    | cons t sig =>
      simp only [checkOperandTypes] at h
      split at h
      · next haccepts => exact .cons haccepts (ih h (Nat.succ.inj hlen))
      · cases h

theorem of_checkOperands {k : Kernel} {operands : List Operand} {out : NdArray}
    (h : checkOperands k operands out = .ok ()) :
    TypesAgree k operands out ∧
      ∃ t, k.outputType? = some t ∧ out.elementType.accepts t = true := by
  unfold checkOperands at h
  by_cases hcount : operands.length ≠ k.inputSignature.length
  · rw [if_pos hcount] at h
    cases h
  rw [if_neg hcount] at h
  obtain ⟨_, htypes, h⟩ := bind_eq_ok_iff.1 h
  obtain ⟨expected, houtput, h⟩ := bind_eq_ok_iff.1 h
  refine ⟨of_checkOperandTypes htypes (Decidable.not_not.1 hcount), expected, ?_, ?_⟩
  · unfold outputType at houtput
    split at houtput
    · next t ht =>
      cases houtput
      exact ht
    · cases houtput
  · by_contra haccepts
    simp [haccepts, throw, throwThe, MonadExceptOf.throw] at h

/-! ## All checks -/

/-- Operands and output that go with a kernel, and the shapes they give. -/
structure Accepted (k : Kernel) (operands : List Operand) (out : NdArray) (g : Geometry) :
    Prop where
  checked : checkOperands k operands out = .ok ()
  reading : ¬ (operands.any Operand.isOutput = true ∧ k.isReduction = true)
  shapes : Geometry.ofShapes k (operands.map fun o => (o.resolve out).shape) = .ok g
  outputShape : g.outputShape = out.shape

instance (k : Kernel) (operands : List Operand) (out : NdArray) (g : Geometry) :
    Decidable (Accepted k operands out g) :=
  decidable_of_iff (checkOperands k operands out = .ok () ∧
      ¬ (operands.any Operand.isOutput = true ∧ k.isReduction = true) ∧
      Geometry.ofShapes k (operands.map fun o => (o.resolve out).shape) = .ok g ∧
      g.outputShape = out.shape)
    ⟨fun ⟨hchecked, hreading, hshapes, houtput⟩ => ⟨hchecked, hreading, hshapes, houtput⟩,
      fun h => ⟨h.checked, h.reading, h.shapes, h.outputShape⟩⟩

theorem planFor_eq_ok_iff {config : EngineConfig} {policy : PlanPolicy} {k : Kernel}
    {operands : List Operand} {out : NdArray} {g : Geometry} {plan : ExecutionPlan} :
    planFor config policy k operands out = .ok (g, plan) ↔
      Accepted k operands out g ∧ g.fits plan = true ∧
        policy ⟨g.shape, operands.length, g.reduction?⟩ config = some plan := by
  unfold planFor
  constructor
  · intro h
    obtain ⟨_, hoperands, h⟩ := bind_eq_ok_iff.1 h
    by_cases hreads : operands.any Operand.isOutput = true ∧ k.isReduction = true
    · rw [if_pos hreads] at h
      cases h
    rw [if_neg hreads] at h
    obtain ⟨g', hshapes, h⟩ := bind_eq_ok_iff.1 h
    by_cases houtput : g'.outputShape ≠ out.shape
    · rw [if_pos houtput] at h
      cases h
    rw [if_neg houtput] at h
    obtain ⟨plan', hplan, h⟩ := bind_eq_ok_iff.1 h
    by_cases hfits : g'.fits plan' = true
    · simp only [hfits] at h
      cases h
      exact ⟨⟨hoperands, hreads, hshapes, Decidable.not_not.1 houtput⟩, hfits,
        counted_eq_ok_iff.1 hplan⟩
    · simp [hfits] at h
      cases h
  · rintro ⟨⟨hoperands, hreads, hshapes, houtput⟩, hfits, hplan⟩
    simp only [hoperands, hshapes, bind, Except.bind, if_neg hreads, houtput, hplan, counted_some,
      hfits, ne_eq, not_true_eq_false, if_false, if_true]
    rfl

/-- The checks of `planFor` before it asks the policy. -/
def geometryFor (k : Kernel) (operands : List Operand) (out : NdArray) :
    Except EvalError Geometry := do
  checkOperands k operands out
  if operands.any Operand.isOutput ∧ k.isReduction then
    throw (.unsupported .reductionReadsOutput)
  let g ← Geometry.ofShapes k (operands.map fun o => (o.resolve out).shape)
  if g.outputShape ≠ out.shape then
    throw (.shape (.outputShape out.shape g.outputShape))
  return g

theorem planFor_eq_geometryFor (config : EngineConfig) (policy : PlanPolicy) (k : Kernel)
    (operands : List Operand) (out : NdArray) :
    planFor config policy k operands out = (do
      let g ← geometryFor k operands out
      let plan ← counted (policy ⟨g.shape, operands.length, g.reduction?⟩ config)
      unless g.fits plan do
        throw (.unsupported (.unfitPlan plan))
      return (g, plan)) := by
  unfold planFor geometryFor
  cases hchecked : checkOperands k operands out with
  | error e => rfl
  | ok _ =>
    by_cases hreads : operands.any Operand.isOutput = true ∧ k.isReduction = true
    · simp only [hreads]
      rfl
    · simp only [if_neg hreads]
      cases hshapes : Geometry.ofShapes k (operands.map fun o => (o.resolve out).shape) with
      | error e => rfl
      | ok g =>
        by_cases houtput : g.outputShape ≠ out.shape
        · simp only [bind, Except.bind, pure, Except.pure, if_pos houtput]
          rfl
        · simp only [bind, Except.bind, pure, Except.pure, if_neg houtput]

/-- A policy whose plan always fits makes the checks visible. -/
theorem geometryFor_eq_ok_iff {k : Kernel} {operands : List Operand} {out : NdArray}
    {g : Geometry} : geometryFor k operands out = .ok g ↔ Accepted k operands out g := by
  have hplan : planFor .serial (.fixed .empty) k operands out
      = (geometryFor k operands out >>= fun g => .ok (g, .empty)) :=
    planFor_eq_geometryFor .serial (.fixed .empty) k operands out
  have haccepted : planFor .serial (.fixed .empty) k operands out = .ok (g, .empty) ↔
      Accepted k operands out g := by
    rw [planFor_eq_ok_iff]
    exact and_iff_left ⟨rfl, rfl⟩
  rw [← haccepted, hplan]
  cases geometryFor k operands out with
  | error e => simp [bind, Except.bind]
  | ok g' => simp [bind, Except.bind]

/-! ## Refusals -/

theorem isRefusal_of_checkOperandTypes {out : NdArray} {index : Nat} {operands : List Operand}
    {sig : Signature} {e : EvalError} (h : checkOperandTypes out index operands sig = .error e) :
    e.IsRefusal := by
  induction operands generalizing index sig with
  | nil => cases h
  | cons o operands ih =>
    cases sig with
    | nil => cases h
    | cons t sig =>
      simp only [checkOperandTypes] at h
      split at h
      · exact ih h
      · cases h
        trivial

theorem isRefusal_of_checkOperands {k : Kernel} {operands : List Operand} {out : NdArray}
    {e : EvalError} (h : checkOperands k operands out = .error e) : e.IsRefusal := by
  unfold checkOperands at h
  by_cases hcount : operands.length ≠ k.inputSignature.length
  · rw [if_pos hcount] at h
    cases h
    trivial
  rw [if_neg hcount] at h
  rcases bind_eq_error_iff.1 h with htypes | ⟨_, -, h⟩
  · exact isRefusal_of_checkOperandTypes htypes
  rcases bind_eq_error_iff.1 h with houtput | ⟨expected, -, h⟩
  · unfold outputType at houtput
    split at houtput <;> cases houtput
    trivial
  · by_cases haccepts : out.elementType.accepts expected = true
    · simp [haccepts, pure, Except.pure] at h
    · simp only [haccepts] at h
      cases h
      trivial

theorem isRefusal_of_broadcast {shapes : List Shape} {e : EvalError}
    (h : Shape.broadcast shapes = .error e) : e.IsRefusal := by
  unfold Shape.broadcast at h
  generalize ([] : Shape) = out at h
  induction shapes generalizing out with
  | nil => cases h
  | cons shape shapes ih =>
    rw [List.foldlM_cons] at h
    rcases bind_eq_error_iff.1 h with hjoin | ⟨next, -, hrest⟩
    · split at hjoin <;> cases hjoin
      trivial
    · exact ih next hrest

theorem isRefusal_of_ofShapes {k : Kernel} {shapes : List Shape} {e : EvalError}
    (h : Geometry.ofShapes k shapes = .error e) : e.IsRefusal := by
  unfold Geometry.ofShapes at h
  rcases bind_eq_error_iff.1 h with hshape | ⟨shape, -, h⟩
  · exact isRefusal_of_broadcast hshape
  rcases bind_eq_error_iff.1 h with htarget | ⟨_, -, h⟩
  · unfold Geometry.target? at htarget
    split at htarget
    · cases htarget
    · cases htarget
    · split at htarget <;> cases htarget
      trivial
  · cases h

/-- A request that does not pass is refused, or its policy has no plan for it. -/
theorem isRefusal_of_planFor {config : EngineConfig} {policy : PlanPolicy} {k : Kernel}
    {operands : List Operand} {out : NdArray} {e : EvalError}
    (h : planFor config policy k operands out = .error e) :
    e.IsRefusal ∨ (e = .crash .overflow ∧ ∃ g, Accepted k operands out g ∧
      policy ⟨g.shape, operands.length, g.reduction?⟩ config = none) := by
  unfold planFor at h
  rcases bind_eq_error_iff.1 h with hoperands | ⟨_, hoperands, h⟩
  · exact .inl (isRefusal_of_checkOperands hoperands)
  by_cases hreads : operands.any Operand.isOutput = true ∧ k.isReduction = true
  · rw [if_pos hreads] at h
    cases h
    exact .inl trivial
  rw [if_neg hreads] at h
  rcases bind_eq_error_iff.1 h with hshapes | ⟨g, hshapes, h⟩
  · exact .inl (isRefusal_of_ofShapes hshapes)
  by_cases houtput : g.outputShape ≠ out.shape
  · rw [if_pos houtput] at h
    cases h
    exact .inl trivial
  rw [if_neg houtput] at h
  rcases bind_eq_error_iff.1 h with hplan | ⟨plan, -, h⟩
  · obtain ⟨hnone, rfl⟩ := counted_eq_error_iff.1 hplan
    exact .inr ⟨rfl, g, ⟨hoperands, hreads, hshapes, Decidable.not_not.1 houtput⟩, hnone⟩
  by_cases hfits : g.fits plan = true
  · simp only [hfits] at h
    cases h
  · simp only [hfits] at h
    cases h
    exact .inl trivial

/-! ## Operands over the common shape -/

/-- Strides that read an operand over a shape. -/
structure Operand.ReadBy (o : Operand) (out : NdArray) (shape : Shape) (strides : List Nat) :
    Prop where
  found : (o.resolve out).shape.broadcastStrides? (o.resolve out).shape.contiguousStrides shape
    = some strides
  fits : Shape.Fits (o.resolve out).shape shape
  length : strides.length = shape.length
  dot : ∀ is : List Nat, is.length = shape.length → Shape.dot is strides = Shape.dot
    (Shape.clamp (o.resolve out).shape (is.drop (shape.length - (o.resolve out).shape.length)))
    (o.resolve out).shape.contiguousStrides

/-- The shapes that an accepted request works over. -/
theorem Accepted.geometry {k : Kernel} {operands : List Operand} {out : NdArray} {g : Geometry}
    (h : Accepted k operands out g) :
    Shape.broadcast (operands.map fun o => (o.resolve out).shape) = .ok g.shape ∧
      Geometry.target? g.shape k.program.reductionAxis? = .ok g.reduction? ∧
      out.shape = Geometry.resultShape g.shape g.reduction? := by
  have hshapes := h.shapes
  rw [← h.outputShape]
  unfold Geometry.ofShapes at hshapes
  obtain ⟨shape, hshape, hrest⟩ := bind_eq_ok_iff.1 hshapes
  obtain ⟨target?, htarget, heq⟩ := bind_eq_ok_iff.1 hrest
  cases heq
  exact ⟨hshape, htarget, rfl⟩

theorem Accepted.exists_strides {k : Kernel} {operands : List Operand} {out : NdArray}
    {g : Geometry} (h : Accepted k operands out g) :
    ∃ strides, (operands.map (Operand.resolve out)).mapM
        (fun a => operandStrides a.shape g.shape) = .ok strides ∧
      List.Forall₂ (fun o s => o.ReadBy out g.shape s) operands strides := by
  obtain ⟨hbroadcast, -, -⟩ := h.geometry
  have hstrides : ∀ a ∈ operands.map (Operand.resolve out), ∃ s,
      operandStrides a.shape g.shape = .ok s ∧
      a.shape.broadcastStrides? a.shape.contiguousStrides g.shape = some s ∧
      Shape.Fits a.shape g.shape ∧ s.length = g.shape.length ∧
      ∀ is : List Nat, is.length = g.shape.length →
        Shape.dot is s = Shape.dot (Shape.clamp a.shape (is.drop (g.shape.length - a.shape.length)))
          a.shape.contiguousStrides := by
    intro a ha
    obtain ⟨o, ho, rfl⟩ := List.mem_map.1 ha
    have hfits := Shape.fits_of_broadcast hbroadcast
      (List.mem_map_of_mem (f := fun o : Operand => (o.resolve out).shape) ho)
    obtain ⟨s, hs, hdot⟩ := Shape.exists_broadcastStrides? hfits
      (o.resolve out).shape.length_contiguousStrides
    exact ⟨s, by rw [operandStrides, hs], hs, hfits, Shape.length_broadcastStrides? hs, hdot⟩
  obtain ⟨strides, hmap, hspec⟩ := exists_mapM_eq_ok _ hstrides
  refine ⟨strides, hmap, ?_⟩
  rw [List.forall₂_map_left_iff] at hspec
  exact hspec.imp fun o s ⟨hfound, hfits, hlen, hdot⟩ => ⟨hfound, hfits, hlen, hdot⟩

/-- The element that an operand has for a position of the common shape. -/
def Operand.position (o : Operand) (out : NdArray) (shape : Shape) (p : Nat) : Nat :=
  Shape.broadcastPosition (o.resolve out).shape shape p

section Position

variable {o : Operand} {out : NdArray} {shape : Shape} {strides : List Nat}

/-- Strides lead to the element that stands for some indices. -/
theorem Operand.ReadBy.dot_eq (h : o.ReadBy out shape strides) (ha : (o.resolve out).WellFormed)
    {is : List Nat} (his : Shape.InBounds is shape) :
    Shape.dot is strides = o.position out shape (shape.position is) ∧
      Shape.dot is strides < (o.resolve out).data.size := by
  obtain ⟨hsize, hmax⟩ := ha.size_eq
  have hpos : size shape ≠ 0 := by
    have := Shape.position_lt his
    omega
  have hpos' := Shape.size_ne_zero_of_fits h.fits hpos
  have heq : Shape.dot is strides = (o.resolve out).shape.position (Shape.clamp
      (o.resolve out).shape (is.drop (shape.length - (o.resolve out).shape.length))) := by
    rw [h.dot is his.length_eq, Shape.dot_contiguousStrides hpos' hmax]
  refine ⟨?_, ?_⟩
  · rw [heq, position, Shape.broadcastPosition, Shape.index_position his]
  · rw [heq, hsize]
    exact Shape.position_lt (Shape.inBounds_clamp_drop h.fits his)

/-- Strides lead nowhere beyond the occupied shape, even where a dimension is empty. -/
theorem Operand.ReadBy.dot_lt (h : o.ReadBy out shape strides) {is : List Nat}
    (his : Shape.InBounds is shape.occupied) :
    Shape.dot is strides < size shape.occupied := by
  have hlen : is.length = shape.length := by
    rw [his.length_eq, Shape.occupied, List.length_map]
  obtain ⟨lead, aligned, hshape, haligned⟩ := h.fits
  have hmissing : shape.length - (o.resolve out).shape.length = lead.length := by
    rw [hshape, List.length_append, haligned.length_eq, Nat.add_sub_cancel]
  have hrest : Shape.InBounds (is.drop lead.length) (Shape.occupied aligned) := by
    have hdrop := List.forall₂_drop lead.length his
    rwa [hshape, Shape.occupied, List.map_append, List.drop_left' (List.length_map _)] at hdrop
  rw [h.dot is hlen, hmissing]
  exact Nat.lt_of_lt_of_le
    (Shape.dot_contiguousStrides_lt (Shape.inBounds_clamp_occupied haligned hrest))
    (Shape.size_occupied_le h.fits)

theorem Operand.ReadBy.offset_eq (h : o.ReadBy out shape strides)
    (ha : (o.resolve out).WellFormed) (hmax : size shape ≤ maxSize) {p : Nat}
    (hp : p < size shape) :
    Strided.offset ⟨0, strides⟩ shape p = o.position out shape p ∧
      o.position out shape p < (o.resolve out).data.size := by
  obtain ⟨hdot, hlt⟩ := h.dot_eq ha (Shape.inBounds_index hp)
  rw [Shape.position_index hp] at hdot
  rw [Strided.offset_eq_dot h.length hmax hp, Nat.zero_add, ← hdot]
  exact ⟨rfl, hlt⟩

/-- The odometer over an operand adds up to no more than the number of its elements. -/
theorem Operand.ReadBy.counts (h : o.ReadBy out shape strides) (ha : (o.resolve out).WellFormed)
    (hmax : size shape ≤ maxSize) {block : Block} (hblock : 0 < block.len)
    (hstop : block.start + block.len ≤ size shape) :
    Strided.Counts ⟨0, strides⟩ shape block := by
  obtain ⟨hsize, hmax'⟩ := ha.size_eq
  have hpos : size shape ≠ 0 := by omega
  obtain ⟨hdense, hspan⟩ :=
    Shape.dense_broadcastStrides? h.found (Shape.size_ne_zero_of_fits h.fits hpos) hmax'
  refine Strided.counts h.length hmax hblock hstop (fun k hk => ?_) fun _ k _ n hn => ?_
  · obtain ⟨heq, hlt⟩ := h.offset_eq ha hmax (p := block.start + k) (by omega)
    omega
  · have hraised := hdense.raised_le (Strided.dims_ne_zero ⟨0, strides⟩ hpos) n hn
    rw [Strided.span_reverse] at hraised
    rw [Nat.zero_add, Shape.lt_uint64_iff]
    omega

end Position

/-! ## Room -/

/-- The buffers of an evaluation before its first block. -/
structure Workspace.Initial (k : Kernel) (p : Prepared) (inputs : List Storage) (out : Storage)
    (w : Workspace) : Prop where
  registers : w.registers.Initial k p.stringWidths p.blockSize
  staging : w.staging = inputs.map fun input => .fresh input p.blockSize
  scratch : w.scratch = .fresh out p.blockSize

theorem Workspace.Initial.usable {k : Kernel} {p : Prepared} {inputs : List Storage}
    {out : Storage} {w : Workspace} (h : w.Initial k p inputs out) :
    w.Usable k p.blockSize w out := by
  refine ⟨.refl _ _, List.forall₂_same.2 fun c _ => .refl c, ?_, ?_⟩
  · rw [h.scratch]
    rfl
  · exact Nat.le_of_eq (by rw [h.scratch, Column.size_fresh])

section Room

variable [Allocator]

/-- There is room for everything that an evaluation lays out, beside arrays that are in
memory. -/
structure HasRoom (config : EngineConfig) (k : Kernel) (operands : List Operand) (out : NdArray) :
    Prop where
  table : k.layout.size * RegisterFile.slotSize ≤ Allocator.limit
  registers : ∀ reg s, RegisterFile.storage? k
    (k.stringWidths (operands.map fun o => (o.resolve out).stringWidth)) reg = some s →
      config.blockSize * s.cellSize ≤ Allocator.limit
  inputs : ∀ o ∈ operands,
    config.blockSize * (o.resolve out).data.storage.cellSize ≤ Allocator.limit
  output : config.blockSize * out.data.storage.cellSize ≤ Allocator.limit
  /-- The start of a reduction is laid out as an output of its own. -/
  accumulator : k.isReduction = true →
    out.data.size * out.data.storage.cellSize ≤ Allocator.limit
  /-- Arrays are in memory. -/
  memory : ∀ a ∈ out :: operands.map (Operand.resolve out), a.data.size < memorySize

theorem hasRoom_iff {config : EngineConfig} {k : Kernel} {operands : List Operand}
    {out : NdArray} : HasRoom config k operands out ↔
      k.layout.size * RegisterFile.slotSize ≤ Allocator.limit ∧
      (∀ reg < k.fullSignature.length, ∀ s ∈ RegisterFile.storage? k
        (k.stringWidths (operands.map fun o => (o.resolve out).stringWidth)) reg,
        config.blockSize * s.cellSize ≤ Allocator.limit) ∧
      (∀ o ∈ operands,
        config.blockSize * (o.resolve out).data.storage.cellSize ≤ Allocator.limit) ∧
      config.blockSize * out.data.storage.cellSize ≤ Allocator.limit ∧
      (k.isReduction = true →
        out.data.size * out.data.storage.cellSize ≤ Allocator.limit) ∧
      ∀ a ∈ out :: operands.map (Operand.resolve out), a.data.size < memorySize := by
  constructor
  · intro h
    exact ⟨h.table, fun reg _ s hs => h.registers reg s hs, h.inputs, h.output, h.accumulator,
      h.memory⟩
  · rintro ⟨htable, hregisters, hinputs, houtput, haccumulator, hmemory⟩
    exact ⟨htable, fun reg s hs => hregisters reg (RegisterFile.lt_of_storage? hs) s hs, hinputs,
      houtput, haccumulator, hmemory⟩

instance (config : EngineConfig) (k : Kernel) (operands : List Operand) (out : NdArray) :
    Decidable (HasRoom config k operands out) :=
  decidable_of_iff _ hasRoom_iff.symm

/-- Buffers that were laid out are those before the first block. -/
theorem Workspace.initial_of_ofKernel {k : Kernel} {p : Prepared} {inputs : List Storage}
    {out : Storage} {w : Workspace} (h : Workspace.ofKernel k p inputs out = .ok w) :
    w.Initial k p inputs out := by
  obtain ⟨regs, hregs, h⟩ := bind_eq_ok_iff.1 h
  obtain ⟨staging, hstaging, h⟩ := bind_eq_ok_iff.1 h
  obtain ⟨scratch, hscratch, heq⟩ := bind_eq_ok_iff.1 h
  cases heq
  refine ⟨RegisterFile.initial_of_ofKernel hregs, ?_, Column.eq_fresh_of_zeros hscratch⟩
  have hcolumns : List.Forall₂ (· = ·) (inputs.map fun input => .fresh input p.blockSize) staging :=
    List.forall₂_map_left_iff.2 ((mapM_eq_ok_iff.1 hstaging).imp fun _ _ hzeros =>
      (Column.eq_fresh_of_zeros hzeros).symm)
  rw [List.forall₂_eq_eq_eq] at hcolumns
  exact hcolumns.symm

/-- Buffers that were laid out can be laid out again, where there is room for the table of
registers. -/
theorem Workspace.fork_eq {k : Kernel} {p : Prepared} {inputs : List Storage} {out : Storage}
    {w : Workspace} (h : Workspace.ofKernel k p inputs out = .ok w) :
    w.fork = RegisterFile.reserveTable w.registers.size >>= fun _ => .ok w := by
  obtain ⟨regs, hregs, h⟩ := bind_eq_ok_iff.1 h
  obtain ⟨staging, hstaging, h⟩ := bind_eq_ok_iff.1 h
  obtain ⟨scratch, hscratch, heq⟩ := bind_eq_ok_iff.1 h
  cases heq
  have hagain : ∀ {s : Storage} {n : Nat} {c : Column}, Column.zeros s n = .ok c →
      Column.zeros c.storage c.size = .ok c := fun hc => by
    obtain rfl := Column.eq_fresh_of_zeros hc
    rwa [Column.storage_fresh, Column.size_fresh]
  have hcolumns : staging.mapM (fun c => Column.zeros c.storage c.size) = .ok staging := by
    rw [mapM_eq_ok_iff, List.forall₂_same]
    intro c hc
    obtain ⟨_, -, hzeros⟩ := exists_of_mem_of_forall₂ (mapM_eq_ok_iff.1 hstaging) hc
    exact hagain hzeros
  simp only [fork, RegisterFile.tryClone_of_ofKernel hregs, hcolumns, hagain hscratch]
  cases RegisterFile.reserveTable regs.size <;> rfl

theorem Workspace.fork_of_ofKernel {k : Kernel} (hk : k.Valid) {p : Prepared}
    {inputs : List Storage} {out : Storage} {w : Workspace}
    (h : Workspace.ofKernel k p inputs out = .ok w) : w.fork = .ok w := by
  rw [fork_eq h]
  obtain ⟨regs, hregs, h⟩ := bind_eq_ok_iff.1 h
  obtain ⟨_, -, h⟩ := bind_eq_ok_iff.1 h
  obtain ⟨_, -, heq⟩ := bind_eq_ok_iff.1 h
  cases heq
  rw [RegisterFile.reserveTable_of_ofKernel hk hregs]
  rfl

theorem exists_workspace {k : Kernel} (hk : k.Valid) {p : Prepared} (inputs : List Storage)
    {out : Storage} (htable : k.layout.size * RegisterFile.slotSize ≤ Allocator.limit)
    (hregisters : ∀ reg s, RegisterFile.storage? k p.stringWidths reg = some s →
      p.blockSize * s.cellSize ≤ Allocator.limit)
    (hinputs : ∀ s ∈ inputs, p.blockSize * s.cellSize ≤ Allocator.limit)
    (hout : p.blockSize * out.cellSize ≤ Allocator.limit) :
    ∃ w, Workspace.ofKernel k p inputs out = .ok w ∧ w.Initial k p inputs out := by
  obtain ⟨regs, hregs, -⟩ := RegisterFile.exists_initial hk htable hregisters
  have hstaging : inputs.mapM (fun input => Column.zeros input p.blockSize)
      = .ok (inputs.map fun input => .fresh input p.blockSize) := by
    rw [mapM_eq_ok_iff, List.forall₂_map_right_iff, List.forall₂_same]
    exact fun s hs => Column.zeros_eq_ok (hinputs s hs)
  have hw : Workspace.ofKernel k p inputs out = .ok ⟨regs, _, .fresh out p.blockSize⟩ :=
    bind_eq_ok_iff.2 ⟨regs, hregs, bind_eq_ok_iff.2 ⟨_, hstaging,
      bind_eq_ok_iff.2 ⟨_, Column.zeros_eq_ok hout, rfl⟩⟩⟩
  exact ⟨_, hw, Workspace.initial_of_ofKernel hw⟩

end Room

/-! ## Computations that do not break off -/

/-- Whatever a computation ends with, it does not break off. -/
def Answers {α : Type} (x : Except EvalError α) : Prop :=
  ∀ e, x = .error e → ¬ e.IsCrash

namespace Answers

variable {α β : Type} {x : Except EvalError α}

theorem ok (a : α) : Answers (.ok a) :=
  nofun

theorem error {e : EvalError} (h : ¬ e.IsCrash) : Answers (.error e : Except EvalError α) := by
  intro _ he
  cases he
  exact h

theorem bind {f : α → Except EvalError β} (hx : Answers x)
    (hf : ∀ a, x = .ok a → Answers (f a)) : Answers (x >>= f) := by
  intro e he
  rcases bind_eq_error_iff.1 he with he | ⟨a, ha, he⟩
  · exact hx e he
  · exact hf a ha e he

theorem mapM {f : α → Except EvalError β} {as : List α} (h : ∀ a ∈ as, Answers (f a)) :
    Answers (as.mapM f) := by
  induction as with
  | nil => exact .ok []
  | cons a as ih =>
    rw [List.mapM_cons]
    refine (h a (.head _)).bind fun b _ => ?_
    exact (ih fun a ha => h a (.tail _ ha)).bind fun bs _ => .ok _

section Room

variable [Allocator]

theorem reserve (s : Storage) (len : Nat) : Answers (Column.reserve s len) := by
  unfold Column.reserve
  dsimp only
  split
  · exact .ok ()
  · exact .error id

theorem zeros (s : Storage) (len : Nat) : Answers (Column.zeros s len) :=
  (reserve s len).bind fun _ _ => .ok _

theorem filled (c : Constant) (t : ElementType) (width len : Nat) :
    Answers (Column.filled c t width len) := by
  unfold Column.filled
  dsimp only
  split
  · exact (reserve _ _).bind fun _ _ => .ok _
  · exact .error id

theorem initialColumn (k : Kernel) (blockSize reg : Nat) (t : ElementType) (width : Nat) :
    Answers (RegisterFile.initialColumn k blockSize reg t width) := by
  unfold RegisterFile.initialColumn
  split
  · exact filled _ _ _ _
  · exact zeros _ _
  · exact .ok _

/-- The table of registers of a valid kernel takes a number of bytes that can be counted. -/
theorem registers {k : Kernel} (hk : k.Valid) (widths : List Nat) (blockSize : Nat) :
    Answers (RegisterFile.ofKernel k widths blockSize) := by
  unfold RegisterFile.ofKernel
  rw [hk.count?, counted_some]
  have hbytes : k.layout.size * RegisterFile.slotSize < UInt64.size := by
    have hmax := hk.registers
    rw [← hk.layout] at hmax
    exact Nat.lt_of_le_of_lt (Nat.mul_le_mul_right _ hmax) (by decide)
  have htable : Answers (RegisterFile.reserveTable k.layout.size) := by
    unfold RegisterFile.reserveTable
    rw [checkedProduct_eq_some hbytes, counted_some]
    split
    · exact .ok ()
    · exact .error id
  refine (ok _).bind fun count hcount => ?_
  cases hcount
  refine htable.bind fun _ _ => (mapM fun x _ => initialColumn k blockSize x.2 x.1 _).bind
    fun _ _ => .ok _

theorem workspace {k : Kernel} (hk : k.Valid) (p : Prepared) (inputs : List Storage)
    (out : Storage) : Answers (Workspace.ofKernel k p inputs out) :=
  (registers hk _ _).bind fun _ _ => (mapM fun s _ => zeros s _).bind fun _ _ =>
    (zeros out _).bind fun _ _ => .ok _

theorem accumulator (k : Kernel) (out : Column) : Answers (Lanewise.accumulator k out) := by
  unfold Lanewise.accumulator
  split
  · exact .ok out
  · split
    · exact .error id
    · exact filled _ _ _ _

end Room

theorem operandStrides (shape target : Shape) : Answers (Lanewise.operandStrides shape target) := by
  unfold Lanewise.operandStrides
  split
  · exact .ok _
  · exact .error id

theorem ofStrides (shape : Shape) (strides : List (List Nat)) (blockSize : Nat) :
    Answers (Iteration.ofStrides shape strides blockSize) := by
  unfold Iteration.ofStrides
  split
  · split
    · next e he =>
      unfold Shape.checkedSize at he
      split at he
      · cases he
      · cases he
        exact .error id
    · refine Answers.bind ?_ fun _ _ => .ok _
      clear * -
      induction strides with
      | nil => exact .ok _
      | cons s strides ih =>
        rw [List.forIn_cons]
        split
        · exact .error id
        · exact ih
  · exact .error id

end Answers

end Lanewise
