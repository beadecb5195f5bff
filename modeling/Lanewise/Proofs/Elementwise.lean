import Lanewise.Proofs.Request

/-!
# Element-wise plans

Programs without reductions, under the plans for them. If every walk over a range
of positions delivers what is asked of its elements (`Request.Delivers`), a serial
run does so over the whole output, and a pool does so task by task
(`Request.runPlan_elementwise`).
-/

namespace Lanewise

open Shape (size maxSize)

/-! ## Sizes of tasks -/

theorem taskSize?_pos {length block threads tasks n : Nat}
    (h : taskSize? length block threads tasks = some n) : 0 < n := by
  simp only [taskSize?, Option.bind_eq_bind, Option.bind_eq_some_iff,
    checkedProduct_eq_some_iff] at h
  obtain ⟨_, -, _, -, -, rfl⟩ := h
  exact Nat.mul_pos (Nat.lt_of_lt_of_le Nat.one_pos (Nat.le_max_right _ _))
    (Nat.lt_of_lt_of_le Nat.one_pos (Nat.le_max_right _ _))

/-- Tasks are whole blocks, as many as it takes for no more than so many rounds of
tasks. -/
theorem taskSize?_eq_some_iff {length block threads tasks n : Nat} (hblock : 0 < block)
    (hthreads : 0 < threads) (htasks : 0 < tasks) :
    taskSize? length block threads tasks = some n ↔
      tasks * block * threads < UInt64.size ∧ n < UInt64.size ∧
        max ((length + tasks * block * threads - 1) / (tasks * block * threads)) 1 * block = n := by
  simp only [taskSize?, Nat.max_eq_left (Nat.succ_le_of_lt hblock),
    Nat.max_eq_left (Nat.succ_le_of_lt hthreads), Nat.max_eq_left (Nat.succ_le_of_lt htasks),
    Option.bind_eq_bind, Option.bind_eq_some_iff, checkedProduct_eq_some_iff]
  constructor
  · rintro ⟨_, ⟨-, rfl⟩, _, ⟨hround, rfl⟩, hsize, rfl⟩
    exact ⟨hround, hsize, rfl⟩
  · rintro ⟨hround, hsize, rfl⟩
    have hthread : tasks * block < UInt64.size :=
      Nat.lt_of_le_of_lt (Nat.le_mul_of_pos_right _ hthreads) hround
    exact ⟨_, ⟨hthread, rfl⟩, _, ⟨hround, rfl⟩, hsize, rfl⟩

/-- A task is no longer than the length and a round of tasks. -/
theorem taskLength_lt {length block perRound : Nat} (hblock : block ≤ perRound)
    (hround : perRound < UInt64.size) (hlength : length < memorySize) :
    max ((length + perRound - 1) / perRound) 1 * block < UInt64.size := by
  have hquot := Nat.div_mul_le_self (length + perRound - 1) perRound
  have hle := Nat.mul_le_mul_left ((length + perRound - 1) / perRound) hblock
  have hbits : UInt64.size = memorySize + memorySize := rfl
  by_cases hone : (length + perRound - 1) / perRound ≤ 1
  · rw [Nat.max_eq_right hone, Nat.one_mul]
    omega
  · -- where a round does not hold the length it is less than the length
    have htwo : 2 * perRound ≤ (length + perRound - 1) / perRound * perRound :=
      Nat.mul_le_mul_right _ (by omega)
    rw [Nat.max_eq_left (by omega)]
    omega

namespace EngineConfig

variable {config : EngineConfig}

theorem pos_of_validate (h : config.validate = .ok ()) :
    0 < config.threads ∧ config.threads ≤ maxThreads ∧ 0 < config.blockSize ∧
      0 < config.tasksPerThread := by
  unfold validate at h
  split at h
  · cases h
  split at h
  · cases h
  split at h
  · cases h
  · omega

/-- The elements of a round of tasks, `tasksPerThread` for each thread, can be counted
in 64 bits. -/
def RoundFits (config : EngineConfig) : Prop :=
  config.tasksPerThread * config.blockSize * config.threads < UInt64.size

instance (config : EngineConfig) : Decidable config.RoundFits :=
  inferInstanceAs (Decidable (_ < _))

/-- So many elements can be cut into tasks for any number of threads that there are. -/
def Divides (config : EngineConfig) (length : Nat) : Prop :=
  ∀ threads, 0 < threads → threads ≤ max config.threads 1 →
    ∃ n, taskSize? length config.blockSize threads config.tasksPerThread = some n

/-- Arrays in memory can be cut into tasks where a round of them can be counted. -/
theorem RoundFits.divides (h : config.RoundFits) (hvalid : config.validate = .ok ())
    {length : Nat} (hlength : length < memorySize) : config.Divides length := by
  intro threads hpos hthreads
  obtain ⟨hsome, -, hblock, htasks⟩ := pos_of_validate hvalid
  have hround : config.tasksPerThread * config.blockSize * threads < UInt64.size :=
    Nat.lt_of_le_of_lt (Nat.mul_le_mul_left _ (by omega)) h
  have hle : config.blockSize ≤ config.tasksPerThread * config.blockSize * threads :=
    Nat.le_trans (Nat.le_mul_of_pos_left _ htasks) (Nat.le_mul_of_pos_right _ hpos)
  exact ⟨_, (taskSize?_eq_some_iff hblock hpos htasks).2
    ⟨hround, taskLength_lt hle hround hlength, rfl⟩⟩

end EngineConfig

/-- Plans that are made for the sizes they are given. -/
def Geometry.Suits (g : Geometry) (config : EngineConfig) (inputs : Nat) : ExecutionPlan → Prop
  | .constant => inputs = 0
  | .empty => size g.shape = 0
  | .parallel _ => 1 < size g.shape ∧ config.Divides (size g.shape)
  | .serial | .reduceFull | .reduceInner _ | .reduceOuter _ => size g.shape ≠ 0

/-! ## Runs -/

/-- A serial run whose body goes well. -/
theorem Evaluation.runSerial_eq_ok {body : TraversalM Unit} {w : Workspace} {out : Column}
    {it : Iteration} {t : Traversal} (h : body ⟨w, ⟨out, 0⟩, it⟩ = .ok () t) :
    runSerial body w out it = (.ok (), t.sink.data) := by
  simp only [runSerial, EStateM.run, h]

/-- Every thread of a machine gets to all of its tasks. -/
theorem PoolRun.isFinished_turns [Scheduler] (ev : Evaluation) (it : Iteration) (n : Nat)
    (out : Column) (buffers : List Workspace) :
    (PoolRun.follow ev it n (PoolRun.start buffers out n)
      (Scheduler.turns buffers.length (out.chunks n).length)).isFinished = true :=
  PoolRun.isFinished_follow ev it n out fun thread hthread => Scheduler.enough _ _ thread hthread

section Parallel

variable [Allocator] [Scheduler]

/-- A pool breaks off where the length of its tasks cannot be counted. -/
theorem Evaluation.runParallel_of_taskSize?_eq_none {ev : Evaluation} {w : Workspace}
    {it : Iteration} {out : Column} {poolThreads threads tasksPerThread : Nat}
    (hmode : ev.mode? = none) (hcount : out.size = it.size)
    (hn : taskSize? it.size ev.prepared.blockSize (min (max threads 1) (max poolThreads 1))
      tasksPerThread = none) :
    ev.runParallel poolThreads w it out threads tasksPerThread
      = (.error (.crash .overflow), w, out) := by
  unfold runParallel
  rw [if_neg (by simp [hmode]), if_neg (not_not_intro hcount)]
  simp only [hn, counted_none]

/-- A run on a pool ends with the parts put back, and with the buffers of the first
thread. It fails if a task did. -/
theorem Evaluation.exists_runParallel_eq {ev : Evaluation} {w : Workspace} {it : Iteration}
    {out : Column} {poolThreads threads tasksPerThread workers n : Nat} {run : PoolRun}
    {buffers : List Workspace} (hmode : ev.mode? = none) (hcount : out.size = it.size)
    (hworkers : workers = min (max threads 1) (max poolThreads 1))
    (hn : taskSize? it.size ev.prepared.blockSize workers tasksPerThread = some n)
    (hbuffers : w.forThreads workers = .ok buffers)
    (hrun : run = (PoolRun.start buffers out n).follow ev it n
      (Scheduler.turns workers (out.chunks n).length)) :
    ∃ result w', ev.runParallel poolThreads w it out threads tasksPerThread
        = (result, w', run.output out n) ∧
      ((∃ e, result = .error e) ↔ run.failure?.isSome = true) ∧
      (w' = w ∨ ∃ worker : Worker, run.workers[0]? = some worker ∧ w' = worker.workspace) := by
  subst hworkers hrun
  unfold runParallel
  rw [if_neg (by simp [hmode]), if_neg (not_not_intro hcount)]
  simp only [hn, counted_some, hbuffers]
  refine ⟨_, _, rfl, ?_, ?_⟩
  · split
    · next hnone =>
      have hnone := congrArg Option.isSome hnone
      constructor
      · rintro ⟨e, he⟩
        cases he
      · intro hsome
        exact absurd (hsome.symm.trans hnone) (by decide)
    · next e hsome => exact ⟨fun _ => congrArg Option.isSome hsome, fun _ => ⟨e, rfl⟩⟩
  · split
    · exact .inl rfl
    · next first hfirst => exact .inr ⟨first, hfirst, rfl⟩

/-- A run on a pool without failures goes well. -/
theorem Evaluation.runParallel_eq_ok {ev : Evaluation} {w : Workspace} {it : Iteration}
    {out : Column} {poolThreads threads tasksPerThread workers n : Nat} {run : PoolRun}
    {buffers : List Workspace} (hmode : ev.mode? = none) (hcount : out.size = it.size)
    (hworkers : workers = min (max threads 1) (max poolThreads 1))
    (hn : taskSize? it.size ev.prepared.blockSize workers tasksPerThread = some n)
    (hbuffers : w.forThreads workers = .ok buffers)
    (hrun : run = (PoolRun.start buffers out n).follow ev it n
      (Scheduler.turns workers (out.chunks n).length))
    (hfailure : run.failure? = none) :
    ∃ w', ev.runParallel poolThreads w it out threads tasksPerThread
      = (.ok (), w', run.output out n) := by
  obtain ⟨result, w', heq, hresult, -⟩ :=
    exists_runParallel_eq hmode hcount hworkers hn hbuffers hrun
  cases result with
  | ok _ => exact ⟨w', heq⟩
  | error e =>
    have hsome := hresult.1 ⟨e, rfl⟩
    rw [hfailure] at hsome
    cases hsome

end Parallel

/-- Programs without reductions have no target, and the output has the common
shape. -/
theorem Accepted.elementwise {k : Kernel} {operands : List Operand} {out : NdArray} {g : Geometry}
    (h : Accepted k operands out g) (hplain : k.program.isReduction = false) :
    g.reduction? = none ∧ out.shape = g.shape := by
  obtain ⟨-, htarget, hshape⟩ := h.geometry
  have haxis : k.program.reductionAxis? = none := by
    rw [Program.reductionAxis?, hplain]
    rfl
  rw [haxis] at htarget
  have hnone : g.reduction? = none := (Except.ok.inj htarget).symm
  exact ⟨hnone, by rw [hshape, hnone]; rfl⟩

namespace Request

variable [Allocator] {config : EngineConfig} {k : Kernel} {operands : List Operand} {out : NdArray}
  {g : Geometry} {strides : List (List Nat)} {w : Workspace}

/-- The output and the inputs of a walk over the common shape. -/
theorem size_eq (h : Request config k operands out g strides w)
    (hplain : k.program.isReduction = false) : out.data.size = size g.shape := by
  rw [h.output.size_eq.1, (h.accepted.elementwise hplain).2]

/-- An operand is read where it has the element for the position. An operand that
is the output has it at the position itself. -/
theorem lane_source (h : Request config k operands out g strides w)
    (hplain : k.program.isReduction = false) {o : Operand} {s : List Nat} (ho : o ∈ operands)
    (hs : o.ReadBy out g.shape s) {p : Nat} (hp : p < size g.shape) :
    Strided.offset ⟨0, s⟩ g.shape p = o.position out g.shape p ∧
      o.position out g.shape p < (o.resolve out).data.size ∧
      (o.source = .output → o.position out g.shape p = p) := by
  obtain ⟨hoffset, hlt⟩ := hs.offset_eq (h.arrays o ho) h.countable hp
  refine ⟨hoffset, hlt, fun hsource => ?_⟩
  cases o with
  | array a => cases hsource
  | output =>
    rw [Operand.position, Operand.resolve, (h.accepted.elementwise hplain).2,
      Shape.broadcastPosition_self hp]

/-- Each position has the element of its own index. -/
theorem offset_target (h : Request config k operands out g strides w) {p : Nat}
    (hp : p < size g.shape) : Strided.offset ⟨0, g.shape.contiguousStrides⟩ g.shape p = p := by
  rw [Strided.offset_contiguous 0 h.countable hp, Nat.zero_add]

/-- A range of positions, each with its own element of the output. -/
theorem walk (h : Request config k operands out g strides w)
    (hplain : k.program.isReduction = false) {start stop : Nat} (hstop : stop ≤ size g.shape) :
    (evaluationOf config k operands out none).Walk g.shape ⟨0, g.shape.contiguousStrides⟩
      (strides.map (⟨0, ·⟩)) start stop start (stop - start) := by
  refine ⟨hstop, Shape.length_contiguousStrides _, ?_, h.inputCount, ?_, ?_, ?_⟩
  · intro op hop
    obtain ⟨s, hs, rfl⟩ := List.mem_map.1 hop
    exact h.length_strides hs
  · intro x hx p hp hlt
    obtain ⟨o, s, ho, hs, rfl⟩ := h.exists_operand hx
    obtain ⟨hoffset, hsize, hself⟩ := h.lane_source hplain ho hs (p := p) (by omega)
    cases o with
    | array a =>
      simp only [Operand.source, Source.Reaches, hoffset]
      exact hsize
    | output =>
      simp only [Operand.source, Source.Reaches, hoffset, hself rfl]
      omega
  · refine ⟨fun hmode => (by cases hmode), fun _ p hp hlt => ?_⟩
    rw [h.offset_target (by omega)]
    refine ⟨hp, by omega, fun q hq hlt' heq => ?_⟩
    rwa [h.offset_target (by omega)] at heq
  · rw [List.forall_mem_cons]
    refine ⟨fun block hblock _ hend => ?_, fun op hop block hblock _ hend => ?_⟩
    · exact Strided.counts_contiguous h.countable hblock (Nat.le_trans hend hstop)
    · exact h.counts_inputs (fun o s ho hs => hs.counts (h.arrays o ho) h.countable hblock
        (Nat.le_trans hend hstop)) op hop

/-- Every walk over a range goes well and leaves elements as they are asked for.
Only buffers of an evaluation of a single position need be those it started
with. -/
def Delivers (config : EngineConfig) (k : Kernel) (operands : List Operand) (out : NdArray)
    (g : Geometry) (strides : List (List Nat)) (w : Workspace) (Result : Nat → Lane → Prop) :
    Prop :=
  ∀ (it : Iteration) (w₀ : Workspace) (data : Column),
    it.shape = g.shape →
    it.operands = ⟨0, g.shape.contiguousStrides⟩ :: strides.map (⟨0, ·⟩) →
    it.blockSize ≤ config.blockSize → it.position = it.start → it.start ≤ it.stop →
    it.stop ≤ size g.shape → (w₀ = w ∨ 1 < size g.shape) →
    w₀.Usable k config.blockSize w out.data.storage →
    data.storage = out.data.storage → data.size = it.stop - it.start →
    (∀ p, it.start ≤ p → p < it.stop → data.lane (p - it.start) = out.data.lane p) →
    ∃ t, (evaluationOf config k operands out none).runPlain ⟨w₀, ⟨data, it.start⟩, it⟩ = .ok () t ∧
      t.workspace.Usable k config.blockSize w out.data.storage ∧
      data.Alike t.sink.data ∧
      ∀ p, it.start ≤ p → p < it.stop → Result p (t.sink.data.lane (p - it.start))

variable {Result : Nat → Lane → Prop}

/-- Walks deliver what an invariant of their blocks comes to. -/
theorem delivers (h : Request config k operands out g strides w)
    (hplain : k.program.isReduction = false)
    (hinv : ∀ (start stop : Nat) (w₀ : Workspace) (data : Column), start ≤ stop →
      stop ≤ size g.shape → (w₀ = w ∨ 1 < size g.shape) → data.storage = out.data.storage →
      (∀ p, start ≤ p → p < stop → data.lane (p - start) = out.data.lane p) →
      ∃ Inv : Nat → Workspace → Column → Prop,
        (evaluationOf config k operands out none).Advances k w out.data.storage g.shape
          ⟨0, g.shape.contiguousStrides⟩ (strides.map (⟨0, ·⟩)) start stop start (stop - start)
          Inv ∧
        Inv start w₀ data ∧ ∀ w₁ now, Inv stop w₁ now →
          ∀ p, start ≤ p → p < stop → Result p (now.lane (p - start))) :
    Delivers config k operands out g strides w Result := by
  intro it w₀ data hshape hoperands hblock hposition hle hstop hw₀ husable hstorage hsize hlanes
  obtain ⟨Inv, hstep, hstart, hend⟩ := hinv it.start it.stop w₀ data hle hstop hw₀ hstorage hlanes
  have hserves := h.serves none fun hred => by rw [hplain] at hred; cases hred
  obtain ⟨t, hrun, hcourse, -, hlast⟩ := Evaluation.runPlain_eq_ok hserves (h.walk hplain hstop)
    hstep (t := ⟨w₀, ⟨data, it.start⟩, it⟩) hshape hoperands hblock rfl hposition hle
    ⟨husable, hstorage, hsize, rfl⟩ hstart
  exact ⟨t, hrun, hcourse.toUsable,
    ⟨hcourse.storage.trans hstorage.symm, hcourse.size.trans hsize.symm⟩, hend _ _ hlast⟩

/-- The walk over all positions. -/
theorem exists_ofStrides (h : Request config k operands out g strides w)
    (hpos : size g.shape ≠ 0) :
    ∃ it, Iteration.ofStrides g.shape (g.shape.contiguousStrides :: strides) config.blockSize
        = .ok it ∧
      it.Covers g.shape (g.shape.contiguousStrides :: strides) config.blockSize ∧
      it.operands = ⟨0, g.shape.contiguousStrides⟩ :: strides.map (⟨0, ·⟩) ∧ it.position = 0 := by
  refine h.exists_iteration _ hpos h.countable fun s hs => ?_
  rcases List.mem_cons.1 hs with rfl | hs
  · exact Shape.length_contiguousStrides _
  · exact h.length_strides hs

/-- A task of a pool goes well and delivers its part. -/
theorem tasksEnd (h : Request config k operands out g strides w)
    (hplain : k.program.isReduction = false) (hsize : 1 < size g.shape)
    (hdelivers : Delivers config k operands out g strides w Result) {n : Nat} (hn : 0 < n)
    {it : Iteration} (hshape : it.shape = g.shape)
    (hoperands : it.operands = ⟨0, g.shape.contiguousStrides⟩ :: strides.map (⟨0, ·⟩))
    (hblock : it.blockSize ≤ config.blockSize) :
    PoolRun.TasksEnd (evaluationOf config k operands out none) it n (out.data.chunks n)
      (fun w₀ => w₀.Usable k config.blockSize w out.data.storage)
      (PoolRun.Delivered n Result) fun _ => False := by
  intro task part w₀ hpart husable
  obtain ⟨hstorage, hin, -, hlane⟩ := Column.getElem?_chunks hn hpart
  rw [h.size_eq hplain] at hin
  obtain ⟨t, hrun, husable', halike, hresult⟩ :=
    hdelivers (it.within (task * n) (task * n + part.size)) w₀ part hshape hoperands hblock rfl
      (Nat.le_add_right _ _) hin (.inr hsize) husable hstorage
      (Nat.add_sub_cancel_left _ _).symm hlane
  have htask := PoolRun.runTask_eq_ok (by rwa [Iteration.size, hshape]) hrun
  refine .inl ⟨t.workspace, t.sink.data, htask, husable', halike, fun p hp hlt => ?_⟩
  rw [halike.size] at hlt
  exact hresult p hp hlt

section Plans

variable [Scheduler]

theorem runPlan_serial (h : Request config k operands out g strides w)
    (hplain : k.program.isReduction = false) (hpos : size g.shape ≠ 0)
    (hdelivers : Delivers config k operands out g strides w Result) :
    ∃ data, Evaluation.runPlan (k.preparedFor config operands out) (operands.map Operand.source) w
        g strides config .serial out.data = (.ok (), data) ∧
      out.data.Alike data ∧ ∀ p < size g.shape, Result p (data.lane p) := by
  obtain ⟨it, hit, hcovers, hoperands, hposition⟩ := h.exists_ofStrides hpos
  have hstart := hcovers.start_eq
  have hstop := hcovers.stop_eq
  obtain ⟨t, hrun, -, halike, hresult⟩ := hdelivers it w out.data hcovers.shape_eq hoperands
    hcovers.blockSize_le (hposition.trans hstart.symm) (by omega) (by omega) (.inl rfl) h.usable rfl
    (by rw [h.size_eq hplain]; omega) (by simp [hstart])
  rw [hstart] at hrun hresult
  refine ⟨t.sink.data, ?_, halike, fun p hp => ?_⟩
  · simp only [Evaluation.runPlan, hit]
    exact Evaluation.runSerial_eq_ok hrun
  · exact hresult p (Nat.zero_le p) (by omega)

theorem runPlan_parallel (h : Request config k operands out g strides w)
    (hplain : k.program.isReduction = false) (hsize : 1 < size g.shape)
    (hdivides : config.Divides (size g.shape)) (threads : Nat)
    (hdelivers : Delivers config k operands out g strides w Result) :
    ∃ data, Evaluation.runPlan (k.preparedFor config operands out) (operands.map Operand.source) w
        g strides config (.parallel threads) out.data = (.ok (), data) ∧
      out.data.Alike data ∧ ∀ p < size g.shape, Result p (data.lane p) := by
  obtain ⟨it, hit, hcovers, hoperands, -⟩ := h.exists_ofStrides (by omega)
  have hitSize : it.size = size g.shape := by rw [Iteration.size, hcovers.shape_eq]
  let workers := min (max threads 1) (max config.threads 1)
  have hworkers : 0 < workers := by simp only [workers]; omega
  obtain ⟨n, htaskSize⟩ := hdivides workers hworkers (Nat.min_le_right _ _)
  rw [← hitSize] at htaskSize
  obtain ⟨buffers, hbuffers⟩ := h.exists_forThreads workers
  obtain ⟨hlength, husable⟩ := h.usable_forThreads hbuffers hworkers
  have htasks := h.tasksEnd hplain hsize hdelivers (taskSize?_pos htaskSize) hcovers.shape_eq
    hoperands hcovers.blockSize_le
  let run := (PoolRun.start buffers out.data n).follow (evaluationOf config k operands out none) it
    n (Scheduler.turns workers (out.data.chunks n).length)
  have hsound := (PoolRun.sound_start out.data n (hlength ▸ hworkers) husable).follow htasks
    (Scheduler.turns workers (out.data.chunks n).length)
  have hfinished : run.isFinished = true := by
    simp only [run, ← hlength]
    exact PoolRun.isFinished_turns _ _ _ _ _
  obtain ⟨halike, hresult⟩ := hsound.output (taskSize?_pos htaskSize) hfinished
    hsound.failure?_eq_none
  rw [h.size_eq hplain] at hresult
  refine ⟨run.output out.data n, ?_, halike, hresult⟩
  have hcount : out.data.size = it.size := by rw [h.size_eq hplain, hitSize]
  obtain ⟨_, hdone⟩ := Evaluation.runParallel_eq_ok rfl hcount rfl htaskSize hbuffers rfl
    hsound.failure?_eq_none
  simp only [Evaluation.runPlan, hit]
  exact congrArg (fun x => (x.1, x.2.2)) hdone

/-- Without operands there is a single position, which a serial run goes over. -/
theorem runPlan_constant (h : Request config k operands out g strides w)
    (hplain : k.program.isReduction = false) (hnone : operands.length = 0) :
    size g.shape = 1 ∧
      Evaluation.runPlan (k.preparedFor config operands out) (operands.map Operand.source) w
          g strides config .constant out.data =
        Evaluation.runPlan (k.preparedFor config operands out) (operands.map Operand.source) w
          g strides config .serial out.data := by
  obtain rfl := List.length_eq_zero_iff.1 hnone
  obtain ⟨rfl, hshape⟩ := h.of_no_operands
  have hsize := h.size_eq hplain
  rw [hshape, Shape.size_nil] at hsize
  refine ⟨by rw [hshape, Shape.size_nil], ?_⟩
  simp only [Evaluation.runPlan, hsize, hshape, (h.accepted.elementwise hplain).1, ne_eq,
    not_true_eq_false, if_false, Option.map_none]
  rfl

/-- Every plan for a program without reductions delivers what its walks do. -/
theorem runPlan_elementwise (h : Request config k operands out g strides w)
    (hplain : k.program.isReduction = false)
    (hdelivers : Delivers config k operands out g strides w Result) {plan : ExecutionPlan}
    (hfits : g.fits plan = true) (hsuits : g.Suits config operands.length plan) :
    ∃ data, Evaluation.runPlan (k.preparedFor config operands out) (operands.map Operand.source) w
        g strides config plan out.data = (.ok (), data) ∧
      out.data.Alike data ∧ ∀ p < size g.shape, Result p (data.lane p) := by
  have htarget := (h.accepted.elementwise hplain).1
  cases plan with
  | constant =>
    obtain ⟨hsize, heq⟩ := h.runPlan_constant hplain hsuits
    rw [heq]
    exact h.runPlan_serial hplain (by omega) hdelivers
  | empty =>
    have hempty : size g.shape = 0 := hsuits
    exact ⟨out.data, rfl, .refl _, fun p hp => by omega⟩
  | serial => exact h.runPlan_serial hplain hsuits hdelivers
  | parallel threads => exact h.runPlan_parallel hplain hsuits.1 hsuits.2 threads hdelivers
  | reduceFull => simp [Geometry.fits, htarget] at hfits
  | reduceInner axis => simp [Geometry.fits, htarget] at hfits
  | reduceOuter axis => simp [Geometry.fits, htarget] at hfits

end Plans

/-! ## What walks deliver -/

/-- Walks of any program go well. -/
theorem delivers_any (h : Request config k operands out g strides w)
    (hplain : k.program.isReduction = false) :
    Delivers config k operands out g strides w fun _ _ => True :=
  h.delivers hplain fun _ _ _ _ _ _ _ _ _ => ⟨fun _ _ _ => True,
    fun _ _ _ _ _ _ _ _ _ _ _ _ _ _ => trivial, trivial, fun _ _ _ _ _ _ => trivial⟩

section Parts

variable {start stop : Nat} {data : Column}

/-- Operands that are the output are read at the position itself. -/
theorem readsInPlace (h : Request config k operands out g strides w)
    (hplain : k.program.isReduction = false) {x : Strided × Source}
    (hx : x ∈ (strides.map fun s => (⟨0, s⟩ : Strided)).zip (operands.map Operand.source))
    (hsource : x.2 = .output) {p : Nat} (hp : p < size g.shape) : x.1.offset g.shape p = p := by
  obtain ⟨o, s, ho, hs, rfl⟩ := h.exists_operand hx
  obtain ⟨hposition, -, hself⟩ := h.lane_source hplain ho hs hp
  exact hposition.trans (hself hsource)

/-- A walk over a part of the output reads the elements of the operands. -/
theorem inputLanes_part (h : Request config k operands out g strides w)
    (hplain : k.program.isReduction = false) (hstop : stop ≤ size g.shape)
    (hlanes : ∀ p, start ≤ p → p < stop → data.lane (p - start) = out.data.lane p) {p : Nat}
    (hp : start ≤ p) (hlt : p < stop) :
    (evaluationOf config k operands out none).inputLanes (strides.map (⟨0, ·⟩)) g.shape
      ⟨data, start⟩ p = operandLanes operands out g.shape p := by
  refine h.inputLanes_eq fun o s ho hs => ?_
  obtain ⟨hposition, -, hself⟩ := h.lane_source hplain ho hs (p := p) (by omega)
  cases o with
  | array a => simp only [Operand.source, Source.lane, hposition, Operand.resolve]
  | output =>
    simp only [Operand.source, Source.lane, hposition, hself rfl, Operand.resolve]
    exact hlanes p hp hlt

/-- What a walk over a part of the output computes: what the machine of one lane
ends with. -/
theorem computes_part (h : Request config k operands out g strides w)
    (hplain : k.program.isReduction = false) {temporary : Nat → Storage → Lane}
    (hkeeps : k.KeepsTemporaries temporary) {output result : Nat → Lane}
    (hresult : ∀ p < size g.shape,
      k.lastLane? operands out g.shape (output p) temporary p = some (result p) ∧
        (result p).cell?.isSome)
    (hstop : stop ≤ size g.shape)
    (hlanes : ∀ p, start ≤ p → p < stop → data.lane (p - start) = out.data.lane p) :
    (evaluationOf config k operands out none).Computes k g.shape ⟨0, g.shape.contiguousStrides⟩
      (strides.map (⟨0, ·⟩)) start stop start data temporary output result := by
  refine ⟨rfl, hplain, hkeeps, Nat.le_refl _, fun p _ hlt => h.offset_target (by omega),
    fun x hx hsource p _ hlt => h.readsInPlace hplain hx hsource (by omega), fun p hp hlt => ?_,
    fun p _ hlt => (hresult p (by omega)).2⟩
  obtain ⟨done, hdone, hzero⟩ := Option.bind_eq_some_iff.1 (hresult p (by omega)).1
  refine ⟨done, ?_, hzero⟩
  rw [h.inputLanes_part hplain hstop hlanes hp hlt]
  exact hdone

/-- Where the output starts in a walk over a part of it: the elements are not
asked for, or the array holds them. A single element may start on the scratch
column, which has to hold it then. -/
theorem startsFrom_part (h : Request config k operands out g strides w) {output : Nat → Lane}
    (houtput : ∀ p < size g.shape, output p = .unset out.data.storage ∨
      (operands.any Operand.isOutput = false ∧ (output p).Below (out.data.lane p) ∧
        (1 < size g.shape ∨ (output p).Below (.fresh out.data.storage))))
    {w₀ : Workspace} (hw₀ : w₀ = w ∨ 1 < size g.shape) (hstorage : data.storage = out.data.storage)
    (hstop : stop ≤ size g.shape)
    (hlanes : ∀ p, start ≤ p → p < stop → data.lane (p - start) = out.data.lane p) :
    (evaluationOf config k operands out none).StartsFrom g.shape ⟨0, g.shape.contiguousStrides⟩
      start stop start data w₀.scratch output := by
  intro p hp hlt
  rcases houtput p (by omega) with hunset | ⟨hno, hbelow, hfresh⟩
  · exact .inl (hstorage ▸ hunset)
  refine .inr ⟨by rwa [hlanes p hp hlt], ?_⟩
  by_cases hsize : 1 < size g.shape
  · exact .inl ⟨(readsOutput_evaluationOf ..).trans hno,
      Strided.flatStep?_contiguous 0 h.countable hsize⟩
  · obtain rfl := hw₀.resolve_right hsize
    refine .inr ⟨by omega, ?_⟩
    rw [h.initial.scratch]
    exact (Column.lane_fresh h.blockSize).symm ▸ hfresh.resolve_left hsize

end Parts

section Lanes

variable (h : Request config k operands out g strides w) (hplain : k.program.isReduction = false)
  {temporary : Nat → Storage → Lane} (hkeeps : k.KeepsTemporaries temporary)
include h hplain hkeeps

/-- Walks deliver what the machine of one lane ends with. Where the output starts
in it may differ from one position to the next. -/
theorem delivers_lastLane?_each {output : Nat → Lane}
    (houtput : ∀ p < size g.shape, output p = .unset out.data.storage ∨
      (operands.any Operand.isOutput = false ∧ (output p).Below (out.data.lane p) ∧
        (1 < size g.shape ∨ (output p).Below (.fresh out.data.storage))))
    (hrun : ∀ p < size g.shape, ∃ l,
      k.lastLane? operands out g.shape (output p) temporary p = some l ∧ l.cell?.isSome) :
    Delivers config k operands out g strides w fun p l =>
      k.lastLane? operands out g.shape (output p) temporary p = some l := by
  let result : Nat → Lane := fun p =>
    (k.lastLane? operands out g.shape (output p) temporary p).getD (.unset out.data.storage)
  have hresult : ∀ p < size g.shape,
      k.lastLane? operands out g.shape (output p) temporary p = some (result p) ∧
        (result p).cell?.isSome := by
    intro p hp
    obtain ⟨l, hl, hcell⟩ := hrun p hp
    have heq : result p = l := by simp only [result, hl, Option.getD_some]
    rw [heq]
    exact ⟨hl, hcell⟩
  refine h.delivers hplain fun start stop w₀ data hle hstop hw₀ hstorage hlanes =>
    ⟨Evaluation.Progress start stop start data w₀.scratch result, ?_, .zero,
      fun _ _ hend p hp hlt => by rw [hend.done p hp hlt]; exact (hresult p (by omega)).1⟩
  exact (h.computes_part hplain hkeeps hresult hstop hlanes).advances
    (h.serves none fun hred => by rw [hplain] at hred; cases hred) h.inputCount hstorage
    (h.startsFrom_part houtput hw₀ hstorage hstop hlanes)

/-- Walks deliver what the machine of one lane ends with. The output starts as
one that is not asked for, or as the fresh elements that both the array and the
scratch column hold. -/
theorem delivers_lastLane? {output : Lane}
    (houtput : ∀ p < size g.shape, output = .unset out.data.storage ∨
      (operands.any Operand.isOutput = false ∧ output.Below (out.data.lane p) ∧
        output.Below (.fresh out.data.storage)))
    (hrun : ∀ p < size g.shape, ∃ l,
      k.lastLane? operands out g.shape output temporary p = some l ∧ l.cell?.isSome) :
    Delivers config k operands out g strides w fun p l =>
      k.lastLane? operands out g.shape output temporary p = some l :=
  h.delivers_lastLane?_each hplain hkeeps
    (fun p hp => (houtput p hp).imp_right fun ⟨hno, hbelow, hfresh⟩ => ⟨hno, hbelow, .inr hfresh⟩)
    hrun

end Lanes

end Request

/-! ## The usual policy -/

/-- Plans by thresholds carry out their programs and are made for their sizes. -/
theorem Geometry.suits_byThresholds {g : Geometry} {inputs : Nat} {config : EngineConfig}
    {plan : ExecutionPlan}
    (hplan : PlanPolicy.byThresholds ⟨g.shape, inputs, g.reduction?⟩ config = some plan)
    (hdivides : g.reduction? = none → config.Divides (size g.shape)) :
    g.fits plan = true ∧ g.Suits config inputs plan := by
  unfold PlanPolicy.byThresholds at hplan
  obtain ⟨n, hn, hplan⟩ := Option.bind_eq_some_iff.1 hplan
  obtain ⟨rfl, -⟩ := Shape.of_size? hn
  by_cases hinputs : inputs = 0
  · rw [if_pos hinputs] at hplan
    cases hplan
    exact ⟨rfl, hinputs⟩
  rw [if_neg hinputs] at hplan
  by_cases hsize : size g.shape = 0
  · rw [if_pos hsize] at hplan
    cases hplan
    exact ⟨rfl, hsize⟩
  rw [if_neg hsize] at hplan
  cases htarget : g.reduction? with
  | none =>
    simp only [htarget, PlanPolicy.elementwise] at hplan
    split at hplan
    · cases hplan
      exact ⟨by simp [fits, htarget], hsize⟩
    · split at hplan
      · cases hplan
        exact ⟨by simp [fits, htarget], hsize⟩
      · next hthreads =>
        cases hplan
        refine ⟨by simp [fits, htarget], ?_, hdivides htarget⟩
        have hblocks :
            1 < (size g.shape + max config.blockSize 1 - 1) / max config.blockSize 1 := by
          omega
        have := (Nat.le_div_iff_mul_le (k := max config.blockSize 1) (by omega)).1 hblocks
        omega
  | some target =>
    simp only [htarget] at hplan
    cases hplan
    cases target with
    | all => exact ⟨by simp [PlanPolicy.reduction, fits, htarget], hsize⟩
    | axis i =>
      simp only [PlanPolicy.reduction]
      split
      · next hflat => exact ⟨by simp [fits, htarget, hflat], hsize⟩
      · split
        · exact ⟨by simp [fits, htarget], hsize⟩
        · exact ⟨by simp [fits, htarget], hsize⟩

end Lanewise
