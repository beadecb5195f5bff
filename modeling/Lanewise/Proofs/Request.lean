import Lanewise.Proofs.Checks
import Lanewise.Proofs.Pool
import Lanewise.Proofs.Pointwise

/-!
# Requests under way

An evaluation of a valid kernel whose operands passed the checks has strides for
its operands and buffers laid out (`Request`). All that the plans ask for follows
from this: the kernel is served (`Request.serves`), and walks stay within the
arrays. There is such a request wherever there is room (`exists_request`).
-/

namespace Lanewise

open Shape (size maxSize)

/-- A kernel made ready to run on operands. -/
def Kernel.preparedFor (k : Kernel) (config : EngineConfig) (operands : List Operand)
    (out : NdArray) : Prepared :=
  k.prepare config.blockSize config.boundsCheck (operands.map fun o => (o.resolve out).stringWidth)

theorem Kernel.prepare_resolve (k : Kernel) (config : EngineConfig) (operands : List Operand)
    (out : NdArray) : k.prepare config.blockSize config.boundsCheck
      ((operands.map (Operand.resolve out)).map NdArray.stringWidth)
        = k.preparedFor config operands out := by
  rw [List.map_map]
  rfl

/-- The elements that operands have for a position of the common shape. -/
def operandLanes (operands : List Operand) (out : NdArray) (shape : Shape) (p : Nat) : List Lane :=
  operands.map fun o => (o.resolve out).data.lane (o.position out shape p)

/-- What the machine of one lane ends with for a position, given what the output
and temporaries hold before the first instruction. -/
def Kernel.lastLane? (k : Kernel) (operands : List Operand) (out : NdArray) (shape : Shape)
    (output : Lane) (temporary : Nat → Storage → Lane) (p : Nat) : Option Lane :=
  ((k.lanesFrom (k.stringWidths (operands.map fun o => (o.resolve out).stringWidth))
    (operandLanes operands out shape p) output temporary).run? k.instructions).bind (· 0)

/-- The storages of operands. -/
def operandStorages (operands : List Operand) (out : NdArray) : List Storage :=
  operands.map fun o => (o.resolve out).data.storage

theorem map_storage_resolve (operands : List Operand) (out : NdArray) :
    (operands.map (Operand.resolve out)).map (fun a => a.data.storage)
      = operandStorages operands out :=
  List.map_map

/-- The evaluation that a request starts. -/
def evaluationOf (config : EngineConfig) (k : Kernel) (operands : List Operand) (out : NdArray)
    (mode? : Option Accumulation) : Evaluation :=
  ⟨k.preparedFor config operands out, operands.map Operand.source, mode?⟩

/-- Whether a program reads the output is told by its operands. -/
theorem readsOutput_evaluationOf (config : EngineConfig) (k : Kernel) (operands : List Operand)
    (out : NdArray) (mode? : Option Accumulation) :
    (evaluationOf config k operands out mode?).readsOutput = operands.any Operand.isOutput := by
  simp only [evaluationOf, Evaluation.readsOutput, List.any_map]
  congr 1
  funext o
  cases o <;> rfl

section Buffers

variable [Allocator]

/-- A request that passed the checks, with its strides and its buffers. -/
structure Request (config : EngineConfig) (k : Kernel) (operands : List Operand) (out : NdArray)
    (g : Geometry) (strides : List (List Nat)) (w : Workspace) : Prop where
  valid : k.Valid
  accepted : Accepted k operands out g
  blockSize : 0 < config.blockSize
  output : out.WellFormed
  arrays : ∀ o ∈ operands, (o.resolve out).WellFormed
  countable : size g.shape ≤ maxSize
  readBy : List.Forall₂ (fun o s => o.ReadBy out g.shape s) operands strides
  buffers : Workspace.ofKernel k (k.preparedFor config operands out)
    (operandStorages operands out) out.data.storage = .ok w

/-- A request can be made wherever there is room for its buffers. -/
theorem exists_request {config : EngineConfig} {k : Kernel} {operands : List Operand}
    {out : NdArray} {g : Geometry} (hk : k.Valid) (haccepted : Accepted k operands out g)
    (hblock : 0 < config.blockSize) (hout : out.WellFormed)
    (harrays : ∀ o ∈ operands, (o.resolve out).WellFormed) (hcount : size g.shape ≤ maxSize)
    (hroom : HasRoom config k operands out) :
    ∃ strides w, Request config k operands out g strides w ∧
      ∀ [Scheduler] plan, evaluatePlan config k operands out g plan =
        Evaluation.runPlan (k.preparedFor config operands out) (operands.map Operand.source) w g
          strides config plan out.data := by
  obtain ⟨strides, hstrides, hreadBy⟩ := haccepted.exists_strides
  obtain ⟨w, hw, -⟩ := exists_workspace hk (p := k.preparedFor config operands out)
    (operandStorages operands out) hroom.table hroom.registers
    (fun s hs => by
      obtain ⟨o, ho, rfl⟩ := List.mem_map.1 hs
      exact hroom.inputs o ho) hroom.output
  refine ⟨strides, w, ⟨hk, haccepted, hblock, hout, harrays, hcount, hreadBy, hw⟩, fun plan => ?_⟩
  simp only [evaluatePlan, k.prepare_resolve, map_storage_resolve, hw, hstrides]

namespace Request

variable {config : EngineConfig} {k : Kernel} {operands : List Operand} {out : NdArray}
  {g : Geometry} {strides : List (List Nat)} {w : Workspace} {mode? : Option Accumulation}

/-- The request that an accepted call makes, where its buffers were laid out. -/
theorem of_ofKernel (hk : k.Valid) (haccepted : Accepted k operands out g)
    (hblock : 0 < config.blockSize) (hout : out.WellFormed)
    (harrays : ∀ o ∈ operands, (o.resolve out).WellFormed) (hcount : size g.shape ≤ maxSize)
    (hstrides : (operands.map (Operand.resolve out)).mapM
      (fun a => operandStrides a.shape g.shape) = .ok strides)
    (hw : Workspace.ofKernel k (k.preparedFor config operands out)
      (operandStorages operands out) out.data.storage = .ok w) :
    Request config k operands out g strides w := by
  obtain ⟨strides', hmap, hread⟩ := haccepted.exists_strides
  obtain rfl : strides' = strides := Except.ok.inj (hmap.symm.trans hstrides)
  exact ⟨hk, haccepted, hblock, hout, harrays, hcount, hread, hw⟩

theorem initial (h : Request config k operands out g strides w) :
    w.Initial k (k.preparedFor config operands out) (operandStorages operands out)
      out.data.storage :=
  Workspace.initial_of_ofKernel h.buffers

/-- There are buffers for any number of threads. -/
theorem exists_forThreads (h : Request config k operands out g strides w) (threads : Nat) :
    ∃ buffers, w.forThreads threads = .ok buffers :=
  Workspace.exists_forThreads (Workspace.fork_of_ofKernel h.valid h.buffers) threads

/-- A column of the block size is there for each operand. -/
theorem collectsIn (h : Request config k operands out g strides w) (mode? : Option Accumulation) :
    (evaluationOf config k operands out mode?).CollectsIn out.data.storage config.blockSize
      w.staging := by
  rw [h.initial.staging, operandStorages]
  simp only [Evaluation.CollectsIn, evaluationOf, List.map_map, List.forall₂_map_left_iff,
    List.forall₂_map_right_iff, List.forall₂_same]
  intro o _
  refine ⟨?_, Nat.le_of_eq (Column.size_fresh _ _).symm⟩
  cases o <;> rfl

theorem serves (h : Request config k operands out g strides w) (mode? : Option Accumulation)
    (hmode : k.program.isReduction = true → mode?.isSome) :
    (evaluationOf config k operands out mode?).Serves k w out.data.storage := by
  obtain ⟨htypes, t, ht, haccepts⟩ := of_checkOperands h.accepted.checked
  refine ⟨h.valid, rfl, rfl, hmode, ?_, fun t' ht' => ?_, h.initial.registers, h.collectsIn mode?⟩
  · simp only [evaluationOf, List.forall₂_map_left_iff]
    refine htypes.imp fun o t haccepts => ?_
    cases o <;> exact haccepts
  · have heq : k.outputType? = some t' := by
      rw [Kernel.outputType?, List.head?_eq_getElem?, ht']
    obtain rfl : t = t' := Option.some.inj (ht.symm.trans heq)
    exact haccepts

/-- The buffers of a request are fit for its first block. -/
theorem usable (h : Request config k operands out g strides w) :
    w.Usable k config.blockSize w out.data.storage :=
  h.initial.usable

/-- So are those of any thread. -/
theorem usable_forThreads (h : Request config k operands out g strides w) {threads : Nat}
    {buffers : List Workspace} (hbuffers : w.forThreads threads = .ok buffers)
    (hthreads : 0 < threads) :
    buffers.length = threads ∧ ∀ b ∈ buffers, b.Usable k config.blockSize w out.data.storage := by
  obtain ⟨hlength, -, heach⟩ := Workspace.of_forThreads hbuffers hthreads
  refine ⟨hlength, fun b hb => ?_⟩
  have hfork := Workspace.fork_of_ofKernel h.valid h.buffers
  obtain rfl : b = w := (heach b hb).elim id fun hb => Except.ok.inj (hb.symm.trans hfork)
  exact h.usable

theorem length_strides (h : Request config k operands out g strides w) {s : List Nat}
    (hs : s ∈ strides) : s.length = g.shape.length := by
  obtain ⟨_, -, hread⟩ := exists_of_mem_of_forall₂ h.readBy hs
  exact hread.length

/-- Without operands the common shape has no dimensions. -/
theorem of_no_operands (h : Request config k [] out g strides w) :
    strides = [] ∧ g.shape = [] := by
  obtain ⟨hbroadcast, -, -⟩ := h.accepted.geometry
  exact ⟨List.forall₂_nil_left_iff.1 h.readBy, (Except.ok.inj hbroadcast).symm⟩

/-- Which operand an input of a walk comes from. -/
theorem exists_operand (h : Request config k operands out g strides w) {f : List Nat → Strided}
    {x : Strided × Source} (hx : x ∈ (strides.map f).zip (operands.map Operand.source)) :
    ∃ o s, o ∈ operands ∧ o.ReadBy out g.shape s ∧ x = (f s, o.source) := by
  obtain ⟨i, hi, rfl⟩ := List.mem_iff_getElem.1 hx
  have hlen := h.readBy.length_eq
  simp only [List.length_zip, List.length_map] at hi
  have hread := (List.forall₂_iff_get.1 h.readBy).2 i (by omega) (by omega)
  refine ⟨operands[i], strides[i], List.getElem_mem _, hread, ?_⟩
  rw [List.getElem_zip, List.getElem_map, List.getElem_map]

/-- Blocks of the inputs can be worked on where those of every operand can. -/
theorem counts_inputs (h : Request config k operands out g strides w) {f : List Nat → Strided}
    {shape : Shape} {block : Block}
    (hcounts : ∀ o s, o ∈ operands → o.ReadBy out g.shape s → (f s).Counts shape block) :
    ∀ op ∈ strides.map f, op.Counts shape block := by
  intro op hop
  obtain ⟨s, hs, rfl⟩ := List.mem_map.1 hop
  obtain ⟨o, ho, hread⟩ := exists_of_mem_of_forall₂ h.readBy hs
  exact hcounts o s ho hread

/-- The elements that a walk reads for a position, given that every operand is
read where it has the element for position `p` of the common shape. -/
theorem inputLanes_eq (h : Request config k operands out g strides w) {f : List Nat → Strided}
    {shape : Shape} {sink : Sink} {q p : Nat}
    (hlane : ∀ o s, o ∈ operands → o.ReadBy out g.shape s →
      o.source.lane sink (f s) shape q = (o.resolve out).data.lane (o.position out g.shape p)) :
    (evaluationOf config k operands out mode?).inputLanes (strides.map f) shape sink q
      = operandLanes operands out g.shape p := by
  have hread := h.readBy
  clear h
  unfold Evaluation.inputLanes operandLanes
  simp only [evaluationOf]
  generalize operands = os at hread hlane ⊢
  induction hread with
  | nil => rfl
  | @cons o s os ss ho _ ih =>
    simp only [List.map_cons, List.zip_cons_cons, List.cons.injEq]
    exact ⟨hlane o s (.head _) ho, ih fun o s ho hs => hlane o s (.tail _ ho) hs⟩

/-- Operands have elements of the types of their registers, and so has the
output. -/
theorem typed (h : Request config k operands out g strides w) {p : Nat} (hp : p < size g.shape) :
    List.Forall₂ (fun l t => l.storage.elementType.accepts t = true)
        (operandLanes operands out g.shape p) k.inputSignature ∧
      (∀ l ∈ operandLanes operands out g.shape p, l.cell?.isSome) ∧
      ∀ t, k.fullSignature[0]? = some t → out.data.storage.elementType.accepts t = true := by
  obtain ⟨htypes, t, ht, haccepts⟩ := of_checkOperands h.accepted.checked
  refine ⟨by rwa [operandLanes, List.forall₂_map_left_iff], fun l hl => ?_, fun t' ht' => ?_⟩
  · obtain ⟨o, ho, rfl⟩ := List.mem_map.1 hl
    obtain ⟨s, -, hs⟩ := exists_of_mem_of_forall₂ h.readBy.flip ho
    exact Column.isSome_lane (hs.offset_eq (h.arrays o ho) h.countable hp).2
  · rw [Kernel.outputType?, List.head?_eq_getElem?, ht'] at ht
    cases ht
    exact haccepts

theorem inputCount (h : Request config k operands out g strides w) {f : List Nat → Strided} :
    (strides.map f).length = (evaluationOf config k operands out mode?).sources.length := by
  simp only [evaluationOf, List.length_map, h.readBy.length_eq]

/-- A walk over a shape of as many elements as can be counted. -/
theorem exists_iteration (h : Request config k operands out g strides w) {shape : Shape}
    (all : List (List Nat)) (hpos : size shape ≠ 0) (hfits : size shape ≤ maxSize)
    (hlen : ∀ s ∈ all, s.length = shape.length) :
    ∃ it, Iteration.ofStrides shape all config.blockSize = .ok it ∧
      it.Covers shape all config.blockSize ∧ it.operands = all.map (⟨0, ·⟩) ∧ it.position = 0 := by
  have hloop : ∀ rest : Except EvalError Iteration, (forIn all PUnit.unit fun s _ => do
      if s.length ≠ shape.length then
        throw (EvalError.shape (.strideCount s.length shape.length))
      pure (ForInStep.yield PUnit.unit)) >>= (fun _ => rest) = rest := by
    intro rest
    induction all with
    | nil => rfl
    | cons s all ih =>
      rw [List.forIn_cons, if_neg (by simp [hlen s (.head _)])]
      exact ih fun s hs => hlen s (.tail _ hs)
  refine ⟨⟨shape, all.map (⟨0, ·⟩), config.blockSize, h.blockSize, hfits, 0, size shape, 0⟩, ?_,
    ⟨rfl, ?_, Nat.le_refl _, rfl, rfl⟩, rfl, rfl⟩
  rotate_left
  · rw [List.map_map]
    exact List.map_id _
  unfold Iteration.ofStrides
  rw [dif_pos h.blockSize]
  have hsize := Shape.checkedSize_eq_ok hpos hfits
  split
  · next e herror => cases herror.symm.trans hsize
  · next n hn =>
    cases hn.symm.trans hsize
    exact hloop _

end Request

end Buffers

end Lanewise
