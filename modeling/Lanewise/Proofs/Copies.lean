import Lanewise.Proofs.Agreement
import Lanewise.Proofs.Calls

/-!
# The output among the operands

An operand that is the output stands for what the output held before the call. A
block reads each element before it writes it, so the call does the same as one
over copies that were taken before (`Engine.evaluateInto_copies`). Where the
output is an operand blocks work on a scratch column, though, and all of its
elements go to the output: a program that never writes the output leaves
something else there than it does over copies (`Engine.not_evaluateInto_copies`).
-/

namespace Lanewise

open Shape (size maxSize)

/-- A program that writes the output, and reads it only after an earlier
instruction wrote it. -/
def Kernel.WritesOutputFirst (k : Kernel) : Prop :=
  0 ∈ destinations k.instructions ∧
    ∀ before inst after, k.instructions = before ++ inst :: after → ∀ reg ∈ inst.sources,
      reg.toNat = 0 → 0 ∈ destinations before

instance (k : Kernel) : Decidable k.WritesOutputFirst :=
  decidable_of_iff _ (and_congr_right fun _ => forall_sources_iff (P := fun before reg =>
    reg.toNat = 0 → 0 ∈ destinations before))

/-- An operand with the elements it has now, apart from the output. -/
def Operand.copy (out : NdArray) (o : Operand) : Operand :=
  .array (o.resolve out)

/-! ## The checks -/

section Checks

variable {config : EngineConfig} {k : Kernel} {operands : List Operand} {out : NdArray}
  {g : Geometry} {strides : List (List Nat)} {w : Workspace}

theorem Operand.map_resolve_copy (operands : List Operand) (out : NdArray) :
    (operands.map (copy out)).map (resolve out) = operands.map (resolve out) := by
  rw [List.map_map]
  rfl

theorem checkOperandTypes_copy (index : Nat) (sig : Signature) :
    checkOperandTypes out index (operands.map (Operand.copy out)) sig
      = checkOperandTypes out index operands sig := by
  induction operands generalizing index sig with
  | nil => rfl
  | cons o operands ih =>
    cases sig with
    | nil => rfl
    | cons t sig =>
      simp only [List.map_cons, checkOperandTypes, ih]
      rfl

/-- The checks see the same arrays. -/
theorem planFor_copy (config : EngineConfig) (policy : PlanPolicy) (operands : List Operand)
    (out : NdArray) (hplain : k.isReduction = false) :
    planFor config policy k (operands.map (Operand.copy out)) out
      = planFor config policy k operands out := by
  have hshapes : (operands.map (Operand.copy out)).map (fun o => (o.resolve out).shape)
      = operands.map fun o => (o.resolve out).shape := List.map_map
  simp only [planFor, checkOperands, checkOperandTypes_copy, hshapes, List.length_map, hplain,
    Bool.false_eq_true, and_false, if_false]

theorem preparedFor_copy (k : Kernel) (config : EngineConfig) (operands : List Operand)
    (out : NdArray) : k.preparedFor config (operands.map (Operand.copy out)) out
      = k.preparedFor config operands out := by
  rw [Kernel.preparedFor, List.map_map]
  rfl

theorem operandStorages_copy (operands : List Operand) (out : NdArray) :
    operandStorages (operands.map (Operand.copy out)) out = operandStorages operands out :=
  List.map_map

/-- A request over copies is one as well. -/
theorem Request.copy [Allocator] (h : Request config k operands out g strides w)
    (hplain : k.isReduction = false) :
    Request config k (operands.map (Operand.copy out)) out g strides w := by
  have haccepted : Accepted k (operands.map (Operand.copy out)) out g := by
    have hplan := planFor_copy config (.fixed .empty) operands out hplain
    exact (planFor_eq_ok_iff.1 (hplan.trans (planFor_eq_ok_iff.2 ⟨h.accepted, rfl, rfl⟩))).1
  refine ⟨h.valid, haccepted, h.blockSize, h.output, fun o ho => ?_, h.countable, ?_, ?_⟩
  · obtain ⟨o, hmem, rfl⟩ := List.mem_map.1 ho
    exact h.arrays o hmem
  · rw [List.forall₂_map_left_iff]
    exact h.readBy.imp fun o s hread => ⟨hread.found, hread.fits, hread.length, hread.dot⟩
  · rw [preparedFor_copy, operandStorages_copy]
    exact h.buffers

end Checks

/-! ## Blocks -/

/-- Two walks over the same range that have come to a position. They hold the
same output, and elements that are still to come are as they were. -/
structure Twins (config : EngineConfig) (k : Kernel) (w : Workspace) (out : NdArray)
    (start stop position : Nat) (t₁ t₂ : Traversal) : Prop where
  left : Traversal.OnCourse k config.blockSize w out.data.storage start (stop - start)
    t₁.workspace t₁.sink
  right : Traversal.OnCourse k config.blockSize w out.data.storage start (stop - start)
    t₂.workspace t₂.sink
  registers : t₁.workspace.registers.Agree (fun reg _ => reg ≠ 0) t₂.workspace.registers
  data : t₁.sink.data = t₂.sink.data
  todo : ∀ p, position ≤ p → p < stop → t₁.sink.data.lane (p - start) = out.data.lane p

namespace Request

variable [Allocator] {config : EngineConfig} {k : Kernel} {operands : List Operand} {out : NdArray}
  {g : Geometry} {strides : List (List Nat)} {w : Workspace} {start stop : Nat}

/-- Inputs that are the output show what a copy shows, as long as they show
elements that are still to come. -/
theorem views_copy (h : Request config k operands out g strides w)
    (hplain : k.program.isReduction = false) {block : Block} {sink : Sink}
    (hstop : block.start + block.len ≤ size g.shape)
    (hstorage : sink.data.storage = out.data.storage)
    (htodo : ∀ j < block.len,
      sink.data.lane (block.start + j - sink.base) = out.data.lane (block.start + j))
    {sink' : Sink} {views views' : List Column}
    (hviews : (evaluationOf config k operands out none).Views (strides.map (⟨0, ·⟩)) g.shape block
      sink views)
    (hviews' : (evaluationOf config k (operands.map (Operand.copy out)) out none).Views
      (strides.map (⟨0, ·⟩)) g.shape block sink' views') : views = views' := by
  refine hviews.eq hviews' ?_
  simp only [evaluationOf, List.map_map, List.zip_map_right, List.forall₂_map_left_iff,
    List.forall₂_map_right_iff]
  rw [List.forall₂_same]
  rintro ⟨op, o⟩ hx
  have hmem : (op, o.source) ∈ (strides.map fun s => (⟨0, s⟩ : Strided)).zip
      (operands.map Operand.source) := by
    rw [List.zip_map_right]
    exact List.mem_map.2 ⟨_, hx, rfl⟩
  cases o with
  | array a => exact ⟨rfl, fun _ _ => rfl⟩
  | output =>
    refine ⟨hstorage, fun j hj => ?_⟩
    have hoffset : op.offset g.shape (block.start + j) = block.start + j :=
      h.readsInPlace hplain hmem rfl (by omega)
    simp only [Prod.map_snd, Prod.map_fst, id_eq, Operand.source, Operand.copy, Operand.resolve,
      Function.comp_apply, Source.lane, hoffset]
    exact htodo j hj

/-- A block keeps walks over the output and over a copy of it side by side. -/
theorem twins_runBlock (h : Request config k operands out g strides w)
    (hplain : k.isReduction = false) (hfirst : k.WritesOutputFirst) (hle : stop ≤ size g.shape)
    {block : Block} (hblock : 0 < block.len) (hstart : start ≤ block.start)
    (hstop : block.start + block.len ≤ stop) (hfull : block.len ≤ config.blockSize)
    {t₁ t₂ : Traversal} (htwins : Twins config k w out start stop block.start t₁ t₂)
    (hiteration : t₁.iteration = t₂.iteration)
    (hoperands : t₁.iteration.operands = ⟨0, g.shape.contiguousStrides⟩ :: strides.map (⟨0, ·⟩))
    (hshape : t₁.iteration.shape = g.shape) :
    ∃ t₁' t₂', (evaluationOf config k operands out none).runBlock block t₁ = .ok () t₁' ∧
      (evaluationOf config k (operands.map (Operand.copy out)) out none).runBlock block t₂
        = .ok () t₂' ∧
      t₁'.iteration = t₁.iteration ∧ t₂'.iteration = t₁.iteration ∧
      Twins config k w out start stop (block.start + block.len) t₁' t₂' := by
  have hcopy := h.copy hplain
  have hmode : k.program.isReduction = true → (none : Option Accumulation).isSome := by
    intro hred
    rw [show k.program.isReduction = false from hplain] at hred
    cases hred
  have hs₁ := h.serves none hmode
  have hs₂ := hcopy.serves none hmode
  obtain ⟨t₁', views, work₁, final₁, hrun₁, hblock₁⟩ := Evaluation.exists_blockRun hs₁
    (h.walk hplain hle) hblock hstart hstop hfull hoperands hshape htwins.left
  obtain ⟨t₂', views', work₂, final₂, hrun₂, hblock₂⟩ := Evaluation.exists_blockRun hs₂
    (hcopy.walk hplain hle) hblock hstart hstop hfull (hiteration ▸ hoperands) (hiteration ▸ hshape)
    htwins.right
  obtain rfl : views = views' := h.views_copy hplain (by omega) htwins.left.storage
    (fun j hj => by
      rw [htwins.left.base]
      exact htwins.todo _ (by omega) (by omega)) hblock₁.viewed hblock₂.viewed
  have hbroad : t₁.workspace.registers.Broad block.len := fun reg c hc hrole =>
    Nat.le_trans hfull
      (h.initial.registers.broad.agree htwins.left.registers.agree reg c hc hrole)
  obtain ⟨hregisters, houtput⟩ := hblock₁.agree (fun reg => reg ≠ 0) hblock₂ rfl rfl
    (preparedFor_copy k config operands out) hs₁.steps
    -- the output is all that may differ, and the program reads it after its own writes only
    (fun before inst after heq reg hreg => by
      by_cases hzero : reg.toNat = 0
      · exact .inl (hzero ▸ hfirst.2 before inst after heq reg hreg hzero)
      · exact .inr hzero)
    (.inl hfirst.1) (htwins.registers.mono fun _ _ hreg => hreg.1)
    (htwins.data ▸ rfl) (fun hzero => absurd rfl hzero) hbroad
  refine ⟨t₁', t₂', hrun₁, hrun₂, hblock₁.iteration, hblock₂.iteration.trans hiteration.symm,
    (hblock₁.onCourse hs₁ h.inputCount htwins.left).2,
    (hblock₂.onCourse hs₂ hcopy.inputCount htwins.right).2,
    hregisters.mono fun _ _ hreg => ⟨hreg, hreg⟩, ?_, fun p hp hlt => ?_⟩
  · have hsink₂ := hblock₂.sink
    rw [← htwins.data, ← houtput, htwins.right.base, ← htwins.left.base] at hsink₂
    exact hblock₁.sink.unique hsink₂
  · have hsink₁ := hblock₁.sink
    rw [htwins.left.base] at hsink₁
    rw [hsink₁.elsewhere _ (Evaluation.notMem_blockTargets _ (by simp [evaluationOf])
      (fun q _ hq => h.offset_target (by omega)) hstart hstop (Nat.le_refl _) (by omega) (.inr hp))]
    exact htwins.todo p (by omega) hlt

/-! ## Walks -/

/-- A walk keeps them side by side. -/
theorem twins_runBlocks (h : Request config k operands out g strides w)
    (hplain : k.isReduction = false) (hfirst : k.WritesOutputFirst) (hle : stop ≤ size g.shape)
    (it : Iteration) (hshape : it.shape = g.shape)
    (hoperands : it.operands = ⟨0, g.shape.contiguousStrides⟩ :: strides.map (⟨0, ·⟩))
    (hsize : it.blockSize ≤ config.blockSize) (hstop : it.stop = stop)
    (hlow : start ≤ it.position) (hhigh : it.position ≤ stop) {t₁ t₂ : Traversal}
    (htwins : Twins config k w out start stop it.position t₁ t₂) :
    ∃ t₁' t₂', (evaluationOf config k operands out none).runBlocks it t₁ = .ok () t₁' ∧
      (evaluationOf config k (operands.map (Operand.copy out)) out none).runBlocks it t₂
        = .ok () t₂' ∧ Twins config k w out start stop stop t₁' t₂' := by
  rcases it.next?_cases with ⟨hnext, hdone⟩ | ⟨block, hnext, hstart, hblock, hlen, hend⟩
  · refine ⟨t₁, t₂, ?_, ?_, htwins.left, htwins.right, htwins.registers, htwins.data,
      fun p hp hlt => absurd hlt (by omega)⟩
    · rw [Evaluation.runBlocks_done hnext]
      rfl
    · rw [Evaluation.runBlocks_done hnext]
      rfl
  · let rest : Iteration := { it with position := block.start + block.len }
    have hdecrease : rest.remaining < it.remaining := Iteration.remaining_lt_of_next? hnext
    rw [hstop] at hend
    rw [← hstart] at hlow htwins
    have hready : Twins config k w out start stop block.start { t₁ with iteration := rest }
        { t₂ with iteration := rest } :=
      ⟨htwins.left, htwins.right, htwins.registers, htwins.data, htwins.todo⟩
    obtain ⟨u₁, u₂, hblock₁, hblock₂, -, -, hmid⟩ := h.twins_runBlock hplain hfirst hle hblock
      hlow hend (Nat.le_trans hlen hsize) hready rfl hoperands hshape
    obtain ⟨t₁', t₂', hrest₁, hrest₂, htwins'⟩ := h.twins_runBlocks hplain hfirst hle rest hshape
      hoperands hsize hstop (Nat.le_trans hlow (Nat.le_add_right _ _)) hend hmid
    refine ⟨t₁', t₂', ?_, ?_, htwins'⟩
    · rw [Evaluation.runBlocks_next hnext]
      exact TraversalM.bind_eq_ok _ hblock₁ hrest₁
    · rw [Evaluation.runBlocks_next hnext]
      exact TraversalM.bind_eq_ok _ hblock₂ hrest₂
termination_by it.remaining

/-- Buffers of two walks that agree on all registers but the output. -/
def WorkspaceTwins (config : EngineConfig) (k : Kernel) (w : Workspace) (out : NdArray)
    (w₁ w₂ : Workspace) : Prop :=
  w₁.Usable k config.blockSize w out.data.storage ∧
    w₂.Usable k config.blockSize w out.data.storage ∧
    w₁.registers.Agree (fun reg _ => reg ≠ 0) w₂.registers

/-- Walks over a part of the output and over the same part with copies. -/
theorem twins_runPlain (h : Request config k operands out g strides w)
    (hplain : k.isReduction = false) (hfirst : k.WritesOutputFirst) (hle : stop ≤ size g.shape)
    (hstart : start ≤ stop) (it : Iteration) (hshape : it.shape = g.shape)
    (hoperands : it.operands = ⟨0, g.shape.contiguousStrides⟩ :: strides.map (⟨0, ·⟩))
    (hsize : it.blockSize ≤ config.blockSize) (hposition : it.position = start)
    (hstop : it.stop = stop) {data : Column} (hstorage : data.storage = out.data.storage)
    (hlength : data.size = stop - start)
    (hlanes : ∀ p, start ≤ p → p < stop → data.lane (p - start) = out.data.lane p)
    {w₁ w₂ : Workspace} (hw : WorkspaceTwins config k w out w₁ w₂) :
    ∃ t₁ t₂, (evaluationOf config k operands out none).runPlain ⟨w₁, ⟨data, start⟩, it⟩
        = .ok () t₁ ∧
      (evaluationOf config k (operands.map (Operand.copy out)) out none).runPlain
        ⟨w₂, ⟨data, start⟩, it⟩ = .ok () t₂ ∧
      t₁.sink.data = t₂.sink.data ∧ data.Alike t₁.sink.data ∧
      WorkspaceTwins config k w out t₁.workspace t₂.workspace := by
  have htwins : Twins config k w out start stop it.position ⟨w₁, ⟨data, start⟩, it⟩
      ⟨w₂, ⟨data, start⟩, it⟩ :=
    ⟨⟨hw.1, hstorage, hlength, rfl⟩, ⟨hw.2.1, hstorage, hlength, rfl⟩, hw.2.2, rfl,
      fun p hp hlt => hlanes p (by omega) hlt⟩
  obtain ⟨t₁, t₂, hrun₁, hrun₂, hend⟩ := h.twins_runBlocks hplain hfirst hle it hshape hoperands
    hsize hstop (by omega) (by omega) htwins
  exact ⟨t₁, t₂, hrun₁, hrun₂, hend.data,
    ⟨hend.left.storage.trans hstorage.symm, hend.left.size.trans hlength.symm⟩,
    hend.left.toUsable, hend.right.toUsable, hend.registers⟩

/-- A task of a pool does the same over copies. -/
theorem tasksPair (h : Request config k operands out g strides w) (hplain : k.isReduction = false)
    (hfirst : k.WritesOutputFirst) {n : Nat} (hn : 0 < n) (it : Iteration)
    (hshape : it.shape = g.shape)
    (hoperands : it.operands = ⟨0, g.shape.contiguousStrides⟩ :: strides.map (⟨0, ·⟩))
    (hsize : it.blockSize ≤ config.blockSize) :
    PoolRun.TasksPair (evaluationOf config k operands out none)
      (evaluationOf config k (operands.map (Operand.copy out)) out none) it n (out.data.chunks n)
      (WorkspaceTwins config k w out) := by
  intro task part w₁ w₂ hpart hw
  obtain ⟨hstorage, hin, -, hlane⟩ := Column.getElem?_chunks hn hpart
  rw [h.size_eq hplain] at hin
  have hrange : task * n + part.size ≤ it.size := by rwa [Iteration.size, hshape]
  obtain ⟨t₁, t₂, hrun₁, hrun₂, hdata, halike, hw'⟩ := h.twins_runPlain hplain hfirst hin
    (Nat.le_add_right _ _) (it.within (task * n) (task * n + part.size)) hshape hoperands hsize
    rfl rfl hstorage (Nat.add_sub_cancel_left _ _).symm hlane hw
  refine ⟨t₁.workspace, t₂.workspace, t₁.sink.data, PoolRun.runTask_eq_ok hrange hrun₁, ?_, hw',
    halike⟩
  rw [hdata]
  exact PoolRun.runTask_eq_ok hrange hrun₂

end Request

/-! ## Plans -/

/-- A block over inputs that are not walked does not ask whether the output is one of
them. -/
theorem Evaluation.runBlock_unwalked {p : Prepared} {sources₁ sources₂ : List Source}
    (hlength : sources₁.length = sources₂.length) {op : Strided} (block : Block) {t : Traversal}
    (hoperands : t.iteration.operands = [op]) :
    (⟨p, sources₁, none⟩ : Evaluation).runBlock block t
      = (⟨p, sources₂, none⟩ : Evaluation).runBlock block t := by
  have hfailed : ∀ source sources, (⟨p, source :: sources, none⟩ : Evaluation).runBlock block t
      = .error (.crash .index) t := by
    intro source sources
    have hstage : (⟨p, source :: sources, none⟩ : Evaluation).stageAll t block
        = .error (.crash .index) := by
      simp only [stageAll, List.zipIdx_cons, List.mapM_cons, Source.stage, hoperands]
      rfl
    simp only [runBlock, TraversalM.get_bind, hstage]
    rfl
  cases sources₁ with
  | nil => rw [List.length_eq_zero_iff.1 hlength.symm]
  | cons source sources =>
    cases sources₂ with
    | nil => cases hlength
    | cons source' sources' => rw [hfailed, hfailed]

theorem Evaluation.runBlocks_unwalked {p : Prepared} {sources₁ sources₂ : List Source}
    (hlength : sources₁.length = sources₂.length) {op : Strided} (it : Iteration)
    (hoperands : it.operands = [op]) :
    (⟨p, sources₁, none⟩ : Evaluation).runBlocks it
      = (⟨p, sources₂, none⟩ : Evaluation).runBlocks it := by
  cases hnext : it.next? with
  | none => rw [runBlocks_done hnext, runBlocks_done hnext]
  | some next =>
    obtain ⟨block, rest⟩ := next
    have hrest : rest.operands = [op] := by
      unfold Iteration.next? at hnext
      split at hnext
      · cases hnext
        exact hoperands
      · cases hnext
    have hdecrease := Iteration.remaining_lt_of_next? hnext
    funext t
    rw [runBlocks_next hnext, runBlocks_next hnext, runBlocks_unwalked hlength rest hrest]
    have hblock :=
      runBlock_unwalked (p := p) hlength block (t := { t with iteration := rest }) hrest
    simp only [bind, EStateM.bind, hblock]
termination_by it.remaining

section Plans

variable {config : EngineConfig} {k : Kernel} {operands : List Operand} {out : NdArray}
  {g : Geometry} {strides : List (List Nat)} {w : Workspace}

theorem evaluationOf_copy (config : EngineConfig) (k : Kernel) (operands : List Operand)
    (out : NdArray) : evaluationOf config k (operands.map (Operand.copy out)) out none
      = ⟨k.preparedFor config operands out, (operands.map (Operand.copy out)).map Operand.source,
        none⟩ := by
  rw [evaluationOf, preparedFor_copy]

section Runs

variable [Allocator] [Scheduler]

theorem Request.runPlan_serial_copy (h : Request config k operands out g strides w)
    (hplain : k.isReduction = false) (hfirst : k.WritesOutputFirst) :
    Evaluation.runPlan (k.preparedFor config operands out)
        ((operands.map (Operand.copy out)).map Operand.source) w g strides config .serial out.data
      = Evaluation.runPlan (k.preparedFor config operands out) (operands.map Operand.source) w g
        strides config .serial out.data := by
  simp only [Evaluation.runPlan]
  cases hit : Iteration.ofStrides g.shape (g.shape.contiguousStrides :: strides)
      config.blockSize with
  | error e => rfl
  | ok it =>
    obtain ⟨hpos, hle, rfl, -⟩ := Iteration.of_ofStrides hit
    obtain ⟨t₁, t₂, hrun₁, hrun₂, hdata, -⟩ := h.twins_runPlain hplain hfirst (Nat.le_refl _)
      (Nat.zero_le _) ⟨g.shape, _, config.blockSize, hpos, hle, 0, size g.shape, 0⟩ rfl rfl
      (Nat.le_refl _) rfl rfl rfl (h.size_eq hplain) (fun p _ _ => rfl)
      ⟨h.usable, h.usable, .refl _ _⟩
    rw [evaluationOf_copy] at hrun₂
    calc Evaluation.runSerial _ w out.data _
      _ = (.ok (), t₂.sink.data) := Evaluation.runSerial_eq_ok hrun₂
      _ = (.ok (), t₁.sink.data) := by rw [hdata]
      _ = _ := (Evaluation.runSerial_eq_ok hrun₁).symm

theorem Request.runPlan_parallel_copy (h : Request config k operands out g strides w)
    (hplain : k.isReduction = false) (hfirst : k.WritesOutputFirst) (threads : Nat) :
    Evaluation.runPlan (k.preparedFor config operands out)
        ((operands.map (Operand.copy out)).map Operand.source) w g strides config
        (.parallel threads) out.data
      = Evaluation.runPlan (k.preparedFor config operands out) (operands.map Operand.source) w g
        strides config (.parallel threads) out.data := by
  simp only [Evaluation.runPlan]
  cases hit : Iteration.ofStrides g.shape (g.shape.contiguousStrides :: strides)
      config.blockSize with
  | error e => rfl
  | ok it =>
    obtain ⟨_, _, heq, -⟩ := Iteration.of_ofStrides hit
    have hcount : out.data.size = it.size := by
      rw [h.size_eq hplain, heq]
      rfl
    let workers := min (max threads 1) (max config.threads 1)
    have hworkers : 0 < workers := by simp only [workers]; omega
    obtain ⟨buffers, hbuffers⟩ := h.exists_forThreads workers
    cases hn : taskSize? it.size config.blockSize workers config.tasksPerThread with
    | none =>
      simp only
      rw [Evaluation.runParallel_of_taskSize?_eq_none rfl hcount hn,
        Evaluation.runParallel_of_taskSize?_eq_none rfl hcount hn]
    | some n =>
      have htasks := h.tasksPair hplain hfirst (taskSize?_pos hn) it (heq ▸ rfl) (heq ▸ rfl)
        (Nat.le_of_eq (heq ▸ rfl))
      rw [evaluationOf_copy] at htasks
      obtain ⟨hlength, husable⟩ := h.usable_forThreads hbuffers hworkers
      let schedule := Scheduler.turns workers (out.data.chunks n).length
      have hpaired := (PoolRun.paired_start out.data n (hlength ▸ hworkers)
        (R := WorkspaceTwins config k w out) fun b hb =>
          ⟨husable b hb, husable b hb, .refl _ _⟩).follow htasks schedule
      let start := PoolRun.start buffers out.data n
      have houtput :
          (start.follow ⟨k.preparedFor config operands out,
            (operands.map (Operand.copy out)).map Operand.source, none⟩ it n schedule).output
              out.data n
          = (start.follow (evaluationOf config k operands out none) it n schedule).output
            out.data n := by
        rw [PoolRun.output, hpaired.parts]
        rfl
      obtain ⟨w₁, hrun₁⟩ := Evaluation.runParallel_eq_ok rfl hcount rfl hn hbuffers rfl
        hpaired.sound.failure?_eq_none
      obtain ⟨w₂, hrun₂⟩ := Evaluation.runParallel_eq_ok rfl hcount rfl hn hbuffers rfl
        hpaired.failure
      simp only
      rw [hrun₂]
      exact Eq.trans (congrArg (Prod.mk _) houtput)
        (congrArg (fun x => (x.1, x.2.2)) hrun₁).symm

/-- A walk over the output alone goes the same way whatever the inputs are. -/
theorem runPlan_constant_copy (config : EngineConfig) (p : Prepared)
    {sources₁ sources₂ : List Source} (hlength : sources₁.length = sources₂.length) (w : Workspace)
    (strides : List (List Nat)) (hnone : g.reduction? = none) (out : Column) :
    Evaluation.runPlan p sources₁ w g strides config .constant out
      = Evaluation.runPlan p sources₂ w g strides config .constant out := by
  simp only [Evaluation.runPlan, hnone, Option.map_none]
  cases hit : Iteration.ofStrides [] [[]] config.blockSize with
  | error e => rfl
  | ok it =>
    obtain ⟨_, _, rfl, -⟩ := Iteration.of_ofStrides hit
    simp only [Evaluation.runSerial, EStateM.run, Evaluation.runPlain_apply]
    rw [Evaluation.runBlocks_unwalked hlength _ rfl]

/-- A plan that carries out the program does the same over copies. -/
theorem Request.runPlan_copy (h : Request config k operands out g strides w)
    (hplain : k.isReduction = false) (hfirst : k.WritesOutputFirst) {plan : ExecutionPlan}
    (hfits : g.fits plan = true) :
    Evaluation.runPlan (k.preparedFor config operands out)
        ((operands.map (Operand.copy out)).map Operand.source) w g strides config plan out.data
      = Evaluation.runPlan (k.preparedFor config operands out) (operands.map Operand.source) w g
        strides config plan out.data := by
  have htarget := (h.accepted.elementwise hplain).1
  cases plan with
  | constant =>
    exact runPlan_constant_copy config _ (by simp only [List.length_map]) w strides htarget out.data
  | empty => rfl
  | serial => exact h.runPlan_serial_copy hplain hfirst
  | parallel threads => exact h.runPlan_parallel_copy hplain hfirst threads
  | reduceFull => simp [Geometry.fits, htarget] at hfits
  | reduceInner axis => simp [Geometry.fits, htarget] at hfits
  | reduceOuter axis => simp [Geometry.fits, htarget] at hfits

/-- Blocks without elements are refused before an operand is looked at. -/
theorem runPlan_of_zeroBlock (p : Prepared) (sources₁ sources₂ : List Source) (w : Workspace)
    (strides : List (List Nat)) (hzero : ¬ 0 < config.blockSize) (plan : ExecutionPlan)
    (out : Column) : Evaluation.runPlan p sources₁ w g strides config plan out
      = Evaluation.runPlan p sources₂ w g strides config plan out := by
  have hwalk : ∀ shape strides, Iteration.ofStrides shape strides config.blockSize
      = .error (.misuse .zeroBlock) := fun _ _ => dif_neg hzero
  cases plan <;> simp only [Evaluation.runPlan, hwalk]

/-- A valid kernel does the same over copies, whatever the plan. -/
theorem evaluatePlan_copy (hk : k.Valid) (hplain : k.isReduction = false)
    (hfirst : k.WritesOutputFirst) (hout : out.WellFormed)
    (harrays : ∀ o ∈ operands, (o.resolve out).WellFormed) (haccepted : Accepted k operands out g)
    {plan : ExecutionPlan} (hfits : g.fits plan = true) :
    evaluatePlan config k (operands.map (Operand.copy out)) out g plan
      = evaluatePlan config k operands out g plan := by
  simp only [evaluatePlan, Operand.map_resolve_copy, k.prepare_resolve, map_storage_resolve]
  cases hw : Workspace.ofKernel k (k.preparedFor config operands out)
      (operandStorages operands out) out.data.storage with
  | error e => rfl
  | ok w =>
    cases hstrides : (operands.map (Operand.resolve out)).mapM
        fun a => operandStrides a.shape g.shape with
    | error e => rfl
    | ok strides =>
      by_cases hblock : 0 < config.blockSize
      · have hcount : size g.shape ≤ maxSize :=
          (haccepted.elementwise hplain).2 ▸ hout.size_eq.2
        exact (Request.of_ofKernel hk haccepted hblock hout harrays hcount hstrides hw).runPlan_copy
          hplain hfirst hfits
      · exact runPlan_of_zeroBlock _ _ _ _ _ hblock _ _

end Runs

/-- Operands without the output are their own copies. -/
theorem map_copy_of_noOutput (h : operands.any Operand.isOutput = false) :
    operands.map (Operand.copy out) = operands := by
  refine (List.map_congr_left fun o ho => ?_).trans (List.map_id _)
  cases o with
  | array a => rfl
  | output => exact absurd rfl (List.any_eq_false.1 h _ ho)

theorem evaluateValid_copy [Allocator] [Scheduler] (config : EngineConfig)
    (policy : PlanPolicy) (hk : k.Valid) (hplain : k.isReduction = false)
    (hfirst : k.WritesOutputFirst) (hout : out.WellFormed)
    (harrays : ∀ o ∈ operands, (o.resolve out).WellFormed) :
    evaluateValid config policy k (operands.map (Operand.copy out)) out
      = evaluateValid config policy k operands out := by
  simp only [evaluateValid, planFor_copy config policy operands out hplain,
    accumulator_of_plain hplain]
  cases hplan : planFor config policy k operands out with
  | error e => rfl
  | ok gp =>
    obtain ⟨g, plan⟩ := gp
    obtain ⟨haccepted, hfits, -⟩ := planFor_eq_ok_iff.1 hplan
    simp only
    rw [evaluatePlan_copy hk hplain hfirst hout harrays haccepted hfits]

end Plans

/-! ## Calls -/

namespace Engine

/-- An operand that is the output means what the output held before the call: a
call with a program without reductions ends as it does over copies of the output,
in the same result and the same elements. A program that is given the output has
to write it, and may read it only after that. -/
theorem evaluateInto_copies [Allocator] [Scheduler] (engine : Engine) {k : Kernel}
    (operands : List Operand) (out : NdArray) (hvalid : k.validate = .ok ())
    (hplain : k.isReduction = false)
    (hfirst : operands.any Operand.isOutput = true → k.WritesOutputFirst)
    (hout : out.WellFormed) (harrays : ∀ o ∈ operands, (o.resolve out).WellFormed) :
    engine.evaluateInto k (operands.map (Operand.copy out)) out
      = engine.evaluateInto k operands out := by
  cases hreads : operands.any Operand.isOutput with
  | false => rw [map_copy_of_noOutput hreads]
  | true =>
    unfold evaluateInto
    cases engine.validate k with
    | error e => rfl
    | ok engine =>
      simp only [evaluateValid_copy engine.config engine.policy (Kernel.valid_of_validate hvalid)
        hplain (hfirst hreads) hout harrays]

attribute [local instance] Allocator.roomy Scheduler.inOrder

/-- Numbers are added to themselves. -/
theorem evaluateInto_copies_addLongs :
    (usual .serial).evaluateInto .addLongs
        [.array (.longs [2] [1, 2]), .array (.longs [2] [1, 2])] (.longs [2] [1, 2])
      = (usual .serial).evaluateInto .addLongs [.output, .output] (.longs [2] [1, 2]) ∧
    ((usual .serial).evaluateInto .addLongs [.output, .output] (.longs [2] [1, 2])).output
      = .longs [2] [2, 4] :=
  ⟨evaluateInto_copies (usual .serial) [.output, .output] (.longs [2] [1, 2]) (by decide +kernel)
    (by decide +kernel) (by decide +kernel) (by decide +kernel) (by decide +kernel),
    by decide +kernel⟩

/-- A program that leaves the output alone: over a copy the output keeps its
elements, but given the output it leaves the ones of the scratch column there. -/
theorem not_evaluateInto_copies :
    ¬ ∀ (engine : Engine) (k : Kernel) (operands : List Operand) (out : NdArray),
      k.validate = .ok () → k.isReduction = false → out.WellFormed →
      (∀ o ∈ operands, (o.resolve out).WellFormed) →
      (engine.evaluateInto k (operands.map (Operand.copy out)) out).output
        = (engine.evaluateInto k operands out).output := by
  intro h
  have heq := h (usual .serial) ⟨⟨[39, 2, 1, 0]⟩, [.long, .long, .long], [.long], [], 1⟩ [.output]
    (.longs [2] [5, 6]) (by decide +kernel) (by decide +kernel) (by decide +kernel)
    (by decide +kernel)
  revert heq
  decide +kernel

end Engine

end Lanewise
