import Lanewise.Proofs.Configurations
import Lanewise.Proofs.Copies
import Lanewise.Proofs.Widths

/-!
# Plans for one program

A plan that can carry out a program need not be made for the sizes it is given, and
may be refused for them (`Request.EndsIn`). A loop over groups of which there are none
may break off, since the places of an empty array cannot always be counted. Otherwise
all plans leave the same data:
where there is nothing to go over (`Request.endsIn_of_empty`), for a single element
(`Request.exists_endsIn_single`), for programs whose blocks take nothing over
(`Request.exists_endsIn_plain`) and for folds that the output has room for
(`Request.exists_endsIn_fold`).
-/

namespace Lanewise

open Shape (size maxSize)

/-! ## Nothing to go over -/

/-- Turns of threads that have nothing to do. -/
theorem PoolRun.follow_idle {ev : Evaluation} {it : Iteration} {n : Nat} {run : PoolRun}
    (h : ∀ (i : Nat) (worker : Worker), run.workers[i]? = some worker → worker.pending = [])
    (schedule : List Turn) : run.follow ev it n schedule = run := by
  induction schedule with
  | nil => rfl
  | cons turn schedule ih =>
    rw [follow, List.foldl_cons, step_idle (h turn.thread)]
    exact ih

namespace Evaluation

variable {ev : Evaluation}

/-- A walk that has come to its end changes nothing. -/
theorem runPlain_of_done {t : Traversal} (h : t.iteration.stop ≤ t.iteration.position) :
    ev.runPlain t = .ok () t := by
  have hdone : t.iteration.next? = none := if_neg (Nat.not_lt.2 h)
  rw [runPlain_apply, runBlocks_done hdone]
  rfl

theorem runFrom_of_done {t : Traversal} {bases : List Nat}
    (hlength : bases.length = t.iteration.operands.length)
    (h : t.iteration.stop ≤ t.iteration.start) :
    ∃ t', ev.runFrom bases t = .ok () t' ∧ t'.sink = t.sink ∧
      t'.iteration.operands.length = t.iteration.operands.length ∧
      t'.iteration.stop ≤ t'.iteration.start := by
  obtain ⟨it, hset, hoperands, hstart, hstop, hposition⟩ : ∃ it,
      t.iteration.setBases bases = .ok it ∧
        it.operands.length = t.iteration.operands.length ∧ it.start = t.iteration.start ∧
        it.stop = t.iteration.stop ∧ it.position = t.iteration.start :=
    ⟨_, if_pos hlength, by simp [hlength], rfl, rfl, rfl⟩
  have hrun := @runPlain_of_done ev { t with iteration := it } (by simp only; omega)
  refine ⟨{ t with iteration := it }, ?_, rfl, hoperands, by simp only; omega⟩
  unfold runFrom
  rw [TraversalM.get_bind, hset]
  exact hrun

/-- A loop with walks that have no positions changes nothing. It breaks off at the
first walk that starts where it cannot be counted. -/
theorem forEach_runFrom_of_done {bases? : Nat → Option (List Nat)} {first count : Nat}
    {t : Traversal}
    (hlength : ∀ i bases, bases? i = some bases → bases.length = t.iteration.operands.length)
    (hdone : t.iteration.stop ≤ t.iteration.start) :
    ∃ t', t'.sink = t.sink ∧ (forEach (fun i => do ev.runFrom (← liftExcept (counted (bases? i))))
        first count t = .ok () t' ∨
      forEach (fun i => do ev.runFrom (← liftExcept (counted (bases? i)))) first count t
        = .error (.crash .overflow) t' ∧ ∃ i, first ≤ i ∧ i < first + count ∧ bases? i = none) := by
  induction count generalizing first t with
  | zero => exact ⟨t, rfl, .inl rfl⟩
  | succ count ih =>
    cases hbases : bases? first with
    | none =>
      refine ⟨t, rfl, .inr ⟨?_, first, Nat.le_refl _, by omega, hbases⟩⟩
      simp only [forEach, hbases]
      rfl
    | some bases =>
      obtain ⟨next, hrun, hsink, hoperands, hdone'⟩ :=
        @runFrom_of_done ev t bases (hlength first bases hbases) hdone
      have hstep : (liftExcept (counted (bases? first)) >>= fun bases => ev.runFrom bases) t
          = .ok () next :=
        TraversalM.bind_eq_ok t (TraversalM.liftExcept_eq_ok (counted_eq_ok_iff.2 hbases) t) hrun
      obtain ⟨t', hsink', hrest⟩ := @ih (first + 1) next
        (fun i bases hi => (hlength i bases hi).trans hoperands.symm) hdone'
      refine ⟨t', hsink'.trans hsink, ?_⟩
      rw [forEach, TraversalM.bind_apply hstep]
      exact hrest.imp_right fun ⟨hcrash, i, hi, hlt, hnone⟩ =>
        ⟨hcrash, i, by omega, by omega, hnone⟩

/-- The same with a loop without walks. -/
theorem runSerial_forEach_of_done {bases? : Nat → Option (List Nat)} {count : Nat} {w : Workspace}
    {out : Column} {it : Iteration}
    (hlength : ∀ i bases, bases? i = some bases → bases.length = it.operands.length)
    (h : count = 0 ∨ it.stop ≤ it.start) :
    runSerial (forEach (fun i => do ev.runFrom (← liftExcept (counted (bases? i)))) 0 count) w out
        it = (.ok (), out) ∨
      (runSerial (forEach (fun i => do ev.runFrom (← liftExcept (counted (bases? i)))) 0 count) w
        out it).1 = .error (.crash .overflow) ∧ ∃ i < count, bases? i = none := by
  rcases h with rfl | hdone
  · exact .inl rfl
  obtain ⟨t, hsink, hrun | ⟨hcrash, i, -, hi, hnone⟩⟩ :=
    @forEach_runFrom_of_done ev bases? 0 count ⟨w, ⟨out, 0⟩, it⟩ hlength hdone
  · left
    rw [runSerial_eq_ok hrun, hsink]
  · refine .inr ⟨?_, i, by omega, hnone⟩
    simp only [runSerial, EStateM.run, hcrash]

theorem runSerial_of_empty {shape : Shape} {all : List (List Nat)} {blockSize : Nat}
    {it : Iteration} (hit : Iteration.ofStrides shape all blockSize = .ok it)
    (hempty : size shape = 0) (w : Workspace) (out : Column) :
    runSerial ev.runPlain w out it = (.ok (), out) := by
  obtain ⟨_, _, rfl, -⟩ := Iteration.of_ofStrides hit
  exact runSerial_eq_ok (runPlain_of_done (Nat.le_of_eq hempty))

/-- A pool without elements has no tasks. -/
theorem runParallel_of_empty [Allocator] [Scheduler] {poolThreads threads tasksPerThread n : Nat}
    {w : Workspace} {it : Iteration} {out : Column} {buffers : List Workspace}
    (hmode : ev.mode? = none) (hcount : out.size = it.size) (hempty : out.size = 0)
    (hn : taskSize? it.size ev.prepared.blockSize (min (max threads 1) (max poolThreads 1))
      tasksPerThread = some n)
    (hbuffers : w.forThreads (min (max threads 1) (max poolThreads 1)) = .ok buffers) :
    ∃ w', ev.runParallel poolThreads w it out threads tasksPerThread = (.ok (), w', out) := by
  have hchunks : out.chunks n = [] := by
    simp [Column.chunks, hempty]
    omega
  have hidle : ∀ (i : Nat) (worker : Worker),
      (PoolRun.start buffers out n).workers[i]? = some worker → worker.pending = [] := by
    intro i worker hworker
    rw [(PoolRun.worker_start hworker).2, hchunks]
    rfl
  obtain ⟨w', hrun⟩ := @runParallel_eq_ok _ _ ev w it out poolThreads threads tasksPerThread _ n _
    buffers hmode hcount rfl hn hbuffers (PoolRun.follow_idle hidle _).symm rfl
  refine ⟨w', hrun.trans ?_⟩
  simp [hchunks, PoolRun.start, PoolRun.output]

end Evaluation

/-- The plan goes over everything there is: it leaves out nothing but what is empty,
and a single block without inputs is all of a program without inputs. For an output
of another size such a block is refused. -/
def Geometry.GoesOver (g : Geometry) (inputs outputs : Nat) : ExecutionPlan → Prop
  | .empty => size g.shape = 0
  | .constant => inputs = 0 ∨ outputs ≠ 1
  | .serial | .parallel _ | .reduceFull | .reduceInner _ | .reduceOuter _ => True

instance (g : Geometry) (inputs outputs : Nat) :
    (plan : ExecutionPlan) → Decidable (g.GoesOver inputs outputs plan)
  | .empty => inferInstanceAs (Decidable (size g.shape = 0))
  | .constant => inferInstanceAs (Decidable (inputs = 0 ∨ outputs ≠ 1))
  | .serial | .parallel _ | .reduceFull | .reduceInner _ | .reduceOuter _ =>
    inferInstanceAs (Decidable True)

/-- A plan that is made for its sizes goes over everything. -/
theorem Geometry.Suits.goesOver {g : Geometry} {config : EngineConfig} {inputs outputs : Nat}
    {plan : ExecutionPlan} (h : g.Suits config inputs plan) : g.GoesOver inputs outputs plan := by
  cases plan with
  | constant => exact .inl h
  | empty => exact h
  | serial | parallel threads | reduceFull | reduceInner axis | reduceOuter axis => trivial

namespace Request

section Endings

variable [Allocator] {config : EngineConfig} {k : Kernel} {operands : List Operand}
  {out : NdArray} {g : Geometry} {strides : List (List Nat)} {w : Workspace}

/-- Pools are for programs without reductions. -/
theorem isReduction_of_fits (h : Request config k operands out g strides w) {threads : Nat}
    (hfits : g.fits (.parallel threads) = true) : k.program.isReduction = false := by
  refine Bool.eq_false_iff.2 fun hred => ?_
  exact h.accepted.reduction?_ne_none hred
    (Geometry.reduction?_of_fits_elementwise (.inr ⟨threads, hfits⟩))

/-- A loop along an axis is for a reduction along it. -/
theorem axis_of_fits (h : Request config k operands out g strides w) {axis : Nat}
    (hfits : g.fits (.reduceInner axis) = true ∨ g.fits (.reduceOuter axis) = true) :
    k.program.isReduction = true ∧ g.reduction? = some (.axis axis) := by
  have htarget := Geometry.reduction?_of_fits_axis hfits
  refine ⟨Bool.of_not_eq_false fun hplain => ?_, htarget⟩
  rw [(h.accepted.elementwise hplain).1] at htarget
  cases htarget

/-- Either the axis has no positions, or there are no groups. -/
theorem axis_eq_zero_or (h : Request config k operands out g strides w)
    (hempty : size g.shape = 0) (hred : k.program.isReduction = true) {axis : Nat}
    (htarget : g.reduction? = some (.axis axis)) : ∃ haxis : axis < g.shape.length,
      size (g.shape.eraseIdx axis) = 0 ∨ g.shape[axis] = 0 := by
  obtain ⟨haxis, -, -⟩ := h.axis_spec hred htarget
  rw [Shape.size_eraseIdx haxis, Nat.mul_eq_zero] at hempty
  exact ⟨haxis, hempty.symm⟩

variable [Scheduler]

/-- The plan is refused, or goes well and leaves `data`. A loop over no groups may break
off instead. -/
def EndsIn (config : EngineConfig) (k : Kernel) (operands : List Operand) (out : NdArray)
    (g : Geometry) (strides : List (List Nat)) (w : Workspace) (plan : ExecutionPlan)
    (data : Column) : Prop :=
  let ending := Evaluation.runPlan (k.preparedFor config operands out)
    (operands.map Operand.source) w g strides config plan out.data
  (∃ e, ending.1 = .error e ∧ ¬ e.IsCrash) ∨ ending = (.ok (), data) ∨
    (ending.1 = .error (.crash .overflow) ∧ size g.shape = 0 ∧ ∃ axis, plan = .reduceOuter axis)

/-- A plan that goes well leaves that data. -/
theorem EndsIn.eq_of_ok {plan : ExecutionPlan} {data last : Column}
    (h : EndsIn config k operands out g strides w plan data)
    (hok : Evaluation.runPlan (k.preparedFor config operands out)
      (operands.map Operand.source) w g strides config plan out.data = (.ok (), last)) :
    last = data := by
  unfold EndsIn at h
  rw [hok] at h
  rcases h with ⟨e, he, -⟩ | heq | ⟨hcrash, -⟩
  · cases he
  · exact (Prod.mk.inj heq).2
  · cases hcrash

/-- A single block without inputs is refused for an output of another size. -/
theorem endsIn_constant (hsize : out.data.size ≠ 1) (data : Column) :
    EndsIn config k operands out g strides w .constant data :=
  .inl ⟨.shape (.constantOutput out.data.size),
    by simp only [Evaluation.runPlan, if_pos hsize], id⟩

section Empty

variable (hempty : size g.shape = 0)
include hempty

theorem endsIn_serial_of_empty : EndsIn config k operands out g strides w .serial out.data := by
  unfold EndsIn
  simp only [Evaluation.runPlan]
  cases hit : Iteration.ofStrides g.shape (g.shape.contiguousStrides :: strides)
      config.blockSize with
  | error e => exact .inl ⟨e, rfl, Answers.ofStrides _ _ _ e hit⟩
  | ok it => exact .inr (.inl (Evaluation.runSerial_of_empty hit hempty w out.data))

theorem endsIn_reduceFull_of_empty :
    EndsIn config k operands out g strides w .reduceFull out.data := by
  unfold EndsIn
  simp only [Evaluation.runPlan]
  cases hit : Iteration.ofStrides g.shape (List.replicate g.shape.length 0 :: strides)
      config.blockSize with
  | error e => exact .inl ⟨e, rfl, Answers.ofStrides _ _ _ e hit⟩
  | ok it => exact .inr (.inl (Evaluation.runSerial_of_empty hit hempty w out.data))

variable (h : Request config k operands out g strides w)
include h

theorem endsIn_parallel_of_empty (hplain : k.program.isReduction = false)
    (hdivides : config.Divides (size g.shape)) (threads : Nat) :
    EndsIn config k operands out g strides w (.parallel threads) out.data := by
  unfold EndsIn
  simp only [Evaluation.runPlan]
  cases hit : Iteration.ofStrides g.shape (g.shape.contiguousStrides :: strides)
      config.blockSize with
  | error e => exact .inl ⟨e, rfl, Answers.ofStrides _ _ _ e hit⟩
  | ok it =>
    obtain ⟨_, _, heq, -⟩ := Iteration.of_ofStrides hit
    have hcount : out.data.size = it.size := by
      rw [h.size_eq hplain, heq]
      rfl
    have hnone : out.data.size = 0 := (h.size_eq hplain).trans hempty
    obtain ⟨n, hn⟩ := hdivides (min (max threads 1) (max config.threads 1)) (by omega)
      (Nat.min_le_right _ _)
    rw [← h.size_eq hplain, hcount] at hn
    obtain ⟨buffers, hbuffers⟩ := h.exists_forThreads (min (max threads 1) (max config.threads 1))
    obtain ⟨w', hrun⟩ := @Evaluation.runParallel_of_empty (evaluationOf config k operands out none)
      _ _ config.threads threads config.tasksPerThread n w it out.data buffers rfl hcount hnone hn
      hbuffers
    exact .inr (.inl (congrArg (fun x => (x.1, x.2.2)) hrun))

section Axis

variable (hred : k.program.isReduction = true) {axis : Nat}
  (htarget : g.reduction? = some (.axis axis))
include hred htarget

theorem endsIn_reduceInner_of_empty :
    EndsIn config k operands out g strides w (.reduceInner axis) out.data := by
  obtain ⟨haxis, hnone⟩ := h.axis_eq_zero_or hempty hred htarget
  unfold EndsIn
  simp only [Evaluation.runPlan, h.ofAxis_eq hred htarget haxis]
  cases houter : Iteration.ofStrides (g.shape.eraseIdx axis) (stridesOver g.shape axis strides)
      config.blockSize with
  | error e => exact .inl ⟨e, rfl, Answers.ofStrides _ _ _ e houter⟩
  | ok outer =>
    cases hinner : Iteration.ofStrides [g.shape[axis]]
        ((0 :: strides.map (·.getD axis 0)).map ([·])) config.blockSize with
    | error e => exact .inl ⟨e, rfl, Answers.ofStrides _ _ _ e hinner⟩
    | ok inner =>
      obtain ⟨_, hgroups, rfl, -⟩ := Iteration.of_ofStrides houter
      obtain ⟨_, _, rfl, -⟩ := Iteration.of_ofStrides hinner
      simp only [Evaluation.runReduceInner]
      refine .inr (.inl ((Evaluation.runSerial_forEach_of_done (fun i bases hbases => ?_)
        (hnone.imp_right fun hzero => Nat.le_of_eq ((Shape.size_singleton _).trans hzero)))
        |>.resolve_right ?_))
      · simpa [stridesOver] using (mapM_eq_some_iff.1 hbases).length_eq.symm
      · -- every group there is can be counted
        rintro ⟨-, group, hgroup, hcount⟩
        cases (h.offset?_groups haxis hgroups hgroup).symm.trans hcount

theorem endsIn_reduceOuter_of_empty :
    EndsIn config k operands out g strides w (.reduceOuter axis) out.data := by
  obtain ⟨haxis, hnone⟩ := h.axis_eq_zero_or hempty hred htarget
  unfold EndsIn
  simp only [Evaluation.runPlan, h.ofAxis_eq hred htarget haxis]
  cases hgroups : Iteration.ofStrides (g.shape.eraseIdx axis) (stridesOver g.shape axis strides)
      config.blockSize with
  | error e => exact .inl ⟨e, rfl, Answers.ofStrides _ _ _ e hgroups⟩
  | ok groups =>
    obtain ⟨_, _, rfl, -⟩ := Iteration.of_ofStrides hgroups
    simp only [Evaluation.runReduceOuter]
    refine .inr ((Evaluation.runSerial_forEach_of_done (fun i bases hbases => ?_)
      (hnone.symm.imp_right Nat.le_of_eq)).imp_right fun hcrash =>
        ⟨hcrash.1, hempty, axis, rfl⟩)
    simpa [stridesOver] using (mapM_eq_some_iff.1 hbases).length_eq.symm

end Axis

/-- Where there is nothing to go over, a plan for the program changes nothing. -/
theorem endsIn_of_empty {plan : ExecutionPlan} (hfits : g.fits plan = true)
    (hdivides : g.reduction? = none → config.Divides (size g.shape))
    (hover : g.GoesOver operands.length out.data.size plan) :
    EndsIn config k operands out g strides w plan out.data := by
  cases plan with
  | constant =>
    refine endsIn_constant (fun hsize => ?_) out.data
    have hnone := hover.resolve_right (not_not_intro hsize)
    cases hred : k.program.isReduction with
    | false => exact absurd hempty (by rw [(h.runPlan_constant hred hnone).1]; decide)
    | true => exact absurd hempty (by rw [(h.runPlan_constant_reduction hred hnone).1]; decide)
  | empty => exact .inr (.inl rfl)
  | serial => exact endsIn_serial_of_empty hempty
  | parallel threads =>
    have hplain := h.isReduction_of_fits hfits
    exact endsIn_parallel_of_empty hempty h hplain
      (hdivides (h.accepted.elementwise hplain).1) threads
  | reduceFull => exact endsIn_reduceFull_of_empty hempty
  | reduceInner axis =>
    obtain ⟨hred, htarget⟩ := h.axis_of_fits (.inl hfits)
    exact endsIn_reduceInner_of_empty hempty h hred htarget
  | reduceOuter axis =>
    obtain ⟨hred, htarget⟩ := h.axis_of_fits (.inr hfits)
    exact endsIn_reduceOuter_of_empty hempty h hred htarget

end Empty

end Endings

end Request

/-! ## One element after the other -/

/-- A column that is no longer than a part is one. -/
theorem Column.chunks_single {c : Column} {n : Nat} (hpos : 0 < c.size) (hle : c.size ≤ n) :
    c.chunks n = [c] := by
  have hcount : (c.size + n - 1) / n = 1 :=
    Nat.div_eq_of_lt_le (by omega) (by omega)
  have hwhole : c.slice 0 n = c := by
    rw [slice_min, Nat.min_eq_right hle]
    exact ext_lane rfl (size_slice (Nat.le_refl _)) fun i hi => by
      rw [size_slice (Nat.le_refl _)] at hi
      rw [lane_slice (Nat.le_refl _) hi, Nat.zero_add]
  simp only [chunks, Nat.max_eq_left (show 1 ≤ n by omega), hcount, List.range_one, List.map_cons,
    List.map_nil, Nat.zero_mul, Nat.zero_add, hwhole]

namespace PoolRun

variable {ev : Evaluation} {it : Iteration} {n : Nat}

/-- The thread that has the only task does it in its first turn, and that is all there is
to do. -/
theorem follow_single {run : PoolRun} {w w' : Workspace} {part part' : Column}
    (hfirst : run.workers[0]? = some ⟨w, [0]⟩)
    (hothers : ∀ (i : Nat) (worker : Worker), i ≠ 0 → run.workers[i]? = some worker →
      worker.pending = [])
    (hparts : run.parts = #[part]) (hfailure : run.failure? = none)
    (htask : runTask ev it (0 * n) w part = (.ok (), w', part')) (schedule : List Turn) :
    run.follow ev it n schedule = run ∨
      run.follow ev it n schedule = ⟨run.workers.setIfInBounds 0 ⟨w', []⟩, #[part'], none⟩ := by
  induction schedule with
  | nil => exact .inl rfl
  | cons turn schedule ih =>
    obtain ⟨thread, informed⟩ := turn
    rw [follow, List.foldl_cons]
    by_cases hthread : thread = 0
    · subst hthread
      rw [step_done hfirst hfailure (by rw [hparts]; rfl) htask, hparts]
      refine .inr (follow_idle (fun i worker hworker => ?_) schedule)
      rcases workers_of_setIfInBounds hworker with ⟨-, rfl⟩ | ⟨hne, hworker⟩
      · rfl
      · exact hothers i worker hne hworker
    · rw [step_idle (hothers thread · hthread)]
      exact ih

end PoolRun

/-- A pool with a single task does it as one pass does. -/
theorem Evaluation.runParallel_single [Allocator] [Scheduler] {ev : Evaluation}
    {poolThreads threads tasksPerThread n : Nat} {w : Workspace} {it : Iteration} {out : Column}
    {t : Traversal} {buffers : List Workspace} (hmode : ev.mode? = none)
    (hcount : out.size = it.size) (hone : out.size = 1) (hrange : it.within 0 1 = it)
    (hn : taskSize? it.size ev.prepared.blockSize (min (max threads 1) (max poolThreads 1))
      tasksPerThread = some n)
    (hbuffers : w.forThreads (min (max threads 1) (max poolThreads 1)) = .ok buffers)
    (hrun : ev.runPlain ⟨w, ⟨out, 0⟩, it⟩ = .ok () t) (halike : out.Alike t.sink.data) :
    ∃ w', ev.runParallel poolThreads w it out threads tasksPerThread
      = (.ok (), w', t.sink.data) := by
  have hworkers : 0 < min (max threads 1) (max poolThreads 1) := by omega
  obtain ⟨hlength, hbuffer, -⟩ := Workspace.of_forThreads hbuffers hworkers
  have hpos := taskSize?_pos hn
  have hchunks : out.chunks n = [out] := Column.chunks_single (by omega) (by omega)
  have htask : PoolRun.runTask ev it (0 * n) w out = (.ok (), t.workspace, t.sink.data) := by
    rw [Nat.zero_mul]
    refine PoolRun.runTask_eq_ok (by omega) ?_
    rw [hone, hrange]
    exact hrun
  let start := PoolRun.start buffers out n
  have hpending : ∀ (i : Nat) (worker : Worker), start.workers[i]? = some worker →
      worker.pending = if i = 0 then [0] else [] := by
    intro i worker hworker
    rw [(PoolRun.worker_start hworker).2, hchunks]
    by_cases hi : i = 0
    · simp [PoolRun.tasksOf, hi]
    · simp [PoolRun.tasksOf, hi, Ne.symm hi]
  obtain ⟨⟨workspace, pending⟩, hworker⟩ : ∃ worker, start.workers[0]? = some worker := by
    refine ⟨_, Array.getElem?_eq_getElem ?_⟩
    rw [PoolRun.size_workers_start, hlength]
    exact hworkers
  obtain rfl : w = workspace :=
    Option.some.inj (hbuffer.symm.trans (PoolRun.worker_start hworker).1)
  obtain rfl : pending = [0] := hpending 0 _ hworker
  have hend := (PoolRun.follow_single hworker
    (fun i worker hi h => (hpending i worker h).trans (if_neg hi))
    (by simp [start, PoolRun.start, hchunks]) rfl htask
    (Scheduler.turns buffers.length (out.chunks n).length)).resolve_left fun hidle => by
      have hfinished := PoolRun.isFinished_turns ev it n out buffers
      rw [hidle, PoolRun.isFinished, Array.all_eq_true] at hfinished
      obtain ⟨hlt, hget⟩ := Array.getElem?_eq_some_iff.1 hworker
      have hempty := hfinished 0 hlt
      rw [hget] at hempty
      cases hempty
  obtain ⟨w', hparallel⟩ := runParallel_eq_ok hmode hcount rfl hn hbuffers (hlength ▸ hend).symm rfl
  refine ⟨w', hparallel.trans ?_⟩
  simp only [PoolRun.output, List.zipIdx_cons, List.zipIdx_nil, List.foldl_cons, List.foldl_nil,
    Nat.zero_mul, Column.write_whole halike]

/-- A plan that goes over everything is made for the sizes it is given. The exceptions
are a pool for a single element, and a single block for an output of another size. -/
theorem Geometry.GoesOver.suits {g : Geometry} {config : EngineConfig} {inputs outputs : Nat}
    {plan : ExecutionPlan} (h : g.GoesOver inputs outputs plan) (hpos : size g.shape ≠ 0)
    (hpool : ∀ threads, plan = .parallel threads →
      1 < size g.shape ∧ config.Divides (size g.shape)) :
    g.Suits config inputs plan ∨ plan = .constant ∧ outputs ≠ 1 := by
  cases plan with
  | constant => exact h.imp_right fun hsize => ⟨rfl, hsize⟩
  | empty => exact .inl h
  | parallel threads => exact .inl (hpool threads rfl)
  | serial | reduceFull | reduceInner axis | reduceOuter axis => exact .inl hpos

namespace Request

variable [Allocator] {config : EngineConfig} {k : Kernel} {operands : List Operand}
  {out : NdArray} {g : Geometry} {strides : List (List Nat)} {w : Workspace}

/-- Plans end in the same data if what they yield leaves no choice. -/
theorem exists_endsIn (h : Request config k operands out g strides w) (hpos : size g.shape ≠ 0)
    (hdivides : g.reduction? = none → config.Divides (size g.shape))
    (hpool : ∀ threads, g.fits (.parallel threads) = true →
      1 < size g.shape ∧ config.Divides (size g.shape)) {Result : Column → Prop}
    (hyields : ∀ [Scheduler] plan, g.fits plan = true → g.Suits config operands.length plan →
      Yields config k operands out g strides w plan Result)
    (hunique : ∀ a b, out.data.Alike a → Result a → out.data.Alike b → Result b → a = b) :
    ∃ data, ∀ [Scheduler] plan, g.fits plan = true →
      g.GoesOver operands.length out.data.size plan →
        EndsIn config k operands out g strides w plan data := by
  obtain ⟨usual, husual⟩ := PlanPolicy.exists_byThresholds
    ⟨g.shape, operands.length, g.reduction?⟩ config (Shape.size?_eq_some hpos h.countable)
  obtain ⟨hfits, hsuits⟩ := g.suits_byThresholds husual hdivides
  obtain ⟨data, -, halike, hdata⟩ := @hyields .inOrder usual hfits hsuits
  refine ⟨data, fun plan hfits hover => ?_⟩
  rcases hover.suits hpos fun threads hplan => hpool threads (hplan ▸ hfits) with
    hsuits | ⟨rfl, hsize⟩
  · obtain ⟨data', hrun, halike', hdata'⟩ := hyields plan hfits hsuits
    rw [hunique data data' halike hdata halike' hdata']
    exact .inr (.inl hrun)
  · exact endsIn_constant hsize data

/-- A single element is computed in the same way by every plan. -/
theorem exists_endsIn_single (h : Request config k operands out g strides w)
    (hplain : k.program.isReduction = false) (hone : size g.shape = 1)
    (hdivides : config.Divides (size g.shape)) :
    ∃ data, ∀ [Scheduler] plan, g.fits plan = true →
      g.GoesOver operands.length out.data.size plan →
        EndsIn config k operands out g strides w plan data := by
  have htarget := (h.accepted.elementwise hplain).1
  have hsize : out.data.size = 1 := (h.size_eq hplain).trans hone
  obtain ⟨it, hit, hcovers, hoperands, hposition⟩ := h.exists_ofStrides (by omega)
  have hstart := hcovers.start_eq
  have hstop := hcovers.stop_eq.trans hone
  have hrange : it.within 0 1 = it := by
    cases it
    simp_all [Iteration.within]
  obtain ⟨t, hrun, -, halike, -⟩ := h.delivers_any hplain it w out.data hcovers.shape_eq hoperands
    hcovers.blockSize_le (hposition.trans hstart.symm) (by omega) (by omega) (.inl rfl) h.usable rfl
    (by omega) (by simp [hstart])
  rw [hstart] at hrun
  have hserial : ∀ [Scheduler], Evaluation.runPlan (k.preparedFor config operands out)
      (operands.map Operand.source) w g strides config .serial out.data
        = (.ok (), t.sink.data) := by
    intro _
    simp only [Evaluation.runPlan, hit]
    exact Evaluation.runSerial_eq_ok hrun
  refine ⟨t.sink.data, fun plan hfits hover => ?_⟩
  cases plan with
  | constant =>
    have hnone := hover.resolve_right (not_not_intro hsize)
    exact .inr (.inl ((h.runPlan_constant hplain hnone).2.trans hserial))
  | empty => exact absurd hover (by rw [Geometry.GoesOver, hone]; decide)
  | serial => exact .inr (.inl hserial)
  | parallel threads =>
    have hcount : out.data.size = it.size := by
      rw [hsize, Iteration.size, hcovers.shape_eq, hone]
    obtain ⟨n, hn⟩ := hdivides (min (max threads 1) (max config.threads 1)) (by omega)
      (Nat.min_le_right _ _)
    rw [← h.size_eq hplain, hcount] at hn
    obtain ⟨buffers, hbuffers⟩ := h.exists_forThreads (min (max threads 1) (max config.threads 1))
    obtain ⟨w', hpool⟩ := @Evaluation.runParallel_single _ _
      (evaluationOf config k operands out none) config.threads threads config.tasksPerThread n w it
      out.data t buffers rfl hcount hsize hrange hn hbuffers hrun halike
    refine .inr (.inl ?_)
    simp only [Evaluation.runPlan, hit]
    exact congrArg (fun x => (x.1, x.2.2)) hpool
  | reduceFull => simp [Geometry.fits, htarget] at hfits
  | reduceInner axis => simp [Geometry.fits, htarget] at hfits
  | reduceOuter axis => simp [Geometry.fits, htarget] at hfits

/-- Blocks that take over nothing from the blocks before them, temporaries apart that no
instruction writes. An output that is no operand holds its own elements to start with. -/
theorem exists_endsIn_plain (h : Request config k operands out g strides w)
    (hplain : k.program.isReduction = false) (hwrites : k.WritesTemporariesFirst)
    (hfirst : operands.any Operand.isOutput = true → k.WritesOutputFirst)
    (hmore : 1 < size g.shape) (hdivides : config.Divides (size g.shape)) :
    ∃ data, ∀ [Scheduler] plan, g.fits plan = true →
      g.GoesOver operands.length out.data.size plan →
        EndsIn config k operands out g strides w plan data := by
  let start : Nat → Lane := fun p =>
    if operands.any Operand.isOutput = true then .unset out.data.storage else out.data.lane p
  have hstart : ∀ p < size g.shape, start p = .unset out.data.storage ∨
      (operands.any Operand.isOutput = false ∧ (start p).Below (out.data.lane p) ∧
        (1 < size g.shape ∨ (start p).Below (.fresh out.data.storage))) := by
    intro p _
    by_cases hreads : operands.any Operand.isOutput = true
    · exact .inl (if_pos hreads)
    · refine .inr ⟨Bool.eq_false_iff.2 hreads, ?_, .inl hmore⟩
      rw [show start p = out.data.lane p from if_neg hreads]
      exact .refl _
  have hrun : ∀ p < size g.shape, ∃ l,
      k.lastLane? operands out g.shape (start p) k.leftover p = some l ∧ l.cell?.isSome := by
    intro p hp
    by_cases hreads : operands.any Operand.isOutput = true
    · obtain ⟨hwritten, hready⟩ := hfirst hreads
      have hunset : start p = .unset out.data.storage := if_pos hreads
      refine h.exists_lastLane hplain hp (by rw [hunset]; rfl) Kernel.storage_leftover
        (fun before inst after heq reg hreg hw => ?_) (.inl hwritten)
      by_cases hzero : reg.toNat = 0
      · exact .inl (hzero ▸ hready before inst after heq reg hreg hzero)
      · exact hwrites.ready_temporary heq hreg hw hzero (start p)
    · have hheld : start p = out.data.lane p := if_neg hreads
      have hcell : (start p).cell?.isSome := by
        rw [hheld]
        exact Column.isSome_lane (by rwa [h.size_eq hplain])
      exact h.exists_lastLane hplain hp (by rw [hheld]; rfl) Kernel.storage_leftover
        (fun before inst after heq reg hreg hw => hwrites.ready hcell heq hreg hw) (.inr hcell)
  have hdelivers := h.delivers_lastLane?_each hplain k.keepsTemporaries_leftover hstart hrun
  refine h.exists_endsIn (by omega) (fun _ => hdivides) (fun _ _ => ⟨hmore, hdivides⟩)
    (fun plan hfits hsuits => h.runPlan_elementwise hplain hdelivers hfits hsuits)
    fun a b ha hlanes hb hlanes' => Column.ext_lane (ha.storage.trans hb.storage.symm)
      (ha.size.trans hb.size.symm) fun i hi => ?_
  rw [ha.size, h.size_eq hplain] at hi
  exact Option.some.inj ((hlanes i hi).symm.trans (hlanes' i hi))

end Request

/-! ## Folds -/

section Fold

variable {s : Storage} {t : ElementType} {r : Reducer} {combine : t.Value → t.Value → t.Value}

/-- Types that stand for each other are one, or both are integers. -/
theorem ElementType.eq_or_isInteger {found expected : ElementType}
    (h : found.accepts expected = true) :
    found = expected ∨ found.IsInteger ∧ expected.IsInteger := by
  revert h
  cases found <;> cases expected <;> decide

/-- The identity at the type of the output can be read by the fold. -/
theorem Reducer.exists_seed_of_accepts (hcombine : r.on? t = some combine)
    (haccepts : s.elementType.accepts t = true) :
    ∃ seed, (r.identity? s.elementType).bind (·.value? t) = some seed := by
  rcases ElementType.eq_or_isInteger haccepts with htype | ⟨hs, ht⟩
  · obtain ⟨-, c, first, hc, hvalue⟩ := Reducer.exists_identity hcombine
    exact ⟨first, by rw [htype, hc]; exact hvalue⟩
  · exact Reducer.exists_seed hs ht

/-- What a minimum or maximum of values is kept as well as the values are: it is one of
them. -/
theorem Storage.keeps_foldl (hr : r = .min ∨ r = .max) (ht : t.IsInteger)
    (hcombine : r.on? t = some combine) {seed : t.Value} (hseed : s.Keeps seed)
    {values : List t.Value} (hvalues : ∀ v ∈ values, s.Keeps v) :
    s.Keeps (values.foldl combine seed) := by
  have hpick : ∀ a b, combine a b = a ∨ combine a b = b := by
    rcases ht with rfl | rfl <;> rcases hr with rfl | rfl <;> cases hcombine <;> intro a b <;> grind
  induction values generalizing seed with
  | nil => exact hseed
  | cons v values ih =>
    rw [List.foldl_cons]
    refine ih ?_ fun u hu => hvalues u (.tail _ hu)
    rcases hpick seed v with heq | heq <;> rw [heq]
    · exact hseed
    · exact hvalues v (.head _)

/-- An output tolerates runs of the fold if it keeps the values that are folded. Sums and
products need no such thing. -/
theorem Storage.tolerates_fold (haccepts : s.elementType.accepts t = true)
    (hcombine : r.on? t = some combine) {seed : t.Value}
    (hseed : (r.identity? s.elementType).bind (·.value? t) = some seed) {values : List t.Value}
    (hkeeps : r = .sum ∨ r = .prod ∨ ∀ v ∈ values, s.Keeps v) :
    s.Tolerates combine seed values := by
  rcases ElementType.eq_or_isInteger haccepts with htype | ⟨hs, ht⟩
  · exact tolerates_of_keeps fun _ _ =>
      keeps_of_elementType htype (Reducer.exists_identity hcombine).1 _
  have hordered : (r = .min ∨ r = .max) → (∀ v ∈ values, s.Keeps v) →
      s.Tolerates combine seed values := fun hr hvalues =>
    tolerates_of_keeps fun before hpre => keeps_foldl hr ht hcombine (keeps_seed hs ht hseed)
      fun v hv => hvalues v (hpre.subset hv)
  cases r with
  | sum => exact tolerates_sum_prod hs ht (.inl rfl) hcombine values
  | prod => exact tolerates_sum_prod hs ht (.inr rfl) hcombine values
  | min => exact hordered (.inl rfl) ((hkeeps.resolve_left nofun).resolve_left nofun)
  | max => exact hordered (.inr rfl) ((hkeeps.resolve_left nofun).resolve_left nofun)

end Fold

namespace Geometry

variable {g : Geometry} {t : ElementType} {combine : t.Value → t.Value → t.Value} {seed : t.Value}
  {value : Nat → t.Value} {start : Column}

/-- Only positions of the common shape go into an element. -/
theorem lt_size_of_mem_group {p q n : Nat} (hp : p ∈ g.group q) (hq : q < n)
    (haxis : ∀ axis, g.reduction? = some (.axis axis) →
      axis < g.shape.length ∧ n = size (g.shape.eraseIdx axis)) : p < size g.shape := by
  cases htarget : g.reduction? with
  | none => exact List.mem_range.1 (by rwa [group, htarget] at hp)
  | some target =>
    cases target with
    | all => exact List.mem_range.1 (by rwa [group, htarget] at hp)
    | axis axis =>
      obtain ⟨hlt, rfl⟩ := haxis axis htarget
      rw [g.group_axis htarget hlt] at hp
      obtain ⟨m, hm, rfl⟩ := List.mem_map.1 hp
      exact Shape.along_lt hlt hq (List.mem_range.1 hm)

/-- Where runs make no difference, the groups say what the elements are. -/
theorem AbsorbsGroups.unique {a b : Column} (ha : g.AbsorbsGroups start combine value a)
    (hb : g.AbsorbsGroups start combine value b) (halike : start.Alike a) (halike' : start.Alike b)
    (hgroups : ∀ q, g.group q ≠ [])
    (hread : ∀ q < start.size, (start.lane q).read? t = some seed)
    (htolerates : ∀ q < start.size, start.storage.Tolerates combine seed ((g.group q).map value)) :
    a = b := by
  have hstored : ∀ c, start.Alike c → g.AbsorbsGroups start combine value c → ∀ q < start.size,
      (start.lane q).write? t (((g.group q).map value).foldl combine seed) = some (c.lane q) := by
    intro c hc habsorbs q hq
    refine ((habsorbs q (by rwa [hc.size])).stored (hread q hq) (htolerates q hq)).2.resolve_left ?_
    exact fun h => hgroups q (List.map_eq_nil_iff.1 h.1)
  refine Column.ext_lane (halike.storage.trans halike'.storage.symm)
    (halike.size.trans halike'.size.symm) fun q hq => ?_
  rw [halike.size] at hq
  exact Option.some.inj ((hstored a halike ha q hq).symm.trans (hstored b halike' hb q hq))

end Geometry

/-- Blocks of a fold whose runs make no difference. -/
theorem Request.exists_endsIn_fold [Allocator] {config : EngineConfig} {k : Kernel}
    {operands : List Operand} {out : NdArray} {g : Geometry} {strides : List (List Nat)}
    {w : Workspace} {before : List Instruction} {last : Instruction} {r : Reducer} {t : ElementType}
    {combine : t.Value → t.Value → t.Value} {seed : t.Value}
    (h : Request config k operands out g strides w) (hk : k.EndsInFold before last r t)
    (hcombine : r.on? t = some combine)
    (hseed : (r.identity? out.elementType).bind (·.value? t) = some seed)
    (hread : ∀ q < out.data.size, (out.data.lane q).read? t = some seed)
    (hkeeps : r = .sum ∨ r = .prod ∨ ∀ p < size g.shape, ∀ v,
      k.valueAt? before last t operands out g.shape p = some v → out.data.storage.Keeps v)
    (hmemory : ∀ o ∈ operands, (o.resolve out).data.size < memorySize) (hpos : size g.shape ≠ 0) :
    ∃ data, ∀ [Scheduler] plan, g.fits plan = true →
      g.GoesOver operands.length out.data.size plan →
        EndsIn config k operands out g strides w plan data := by
  have hred := hk.isReduction h.valid
  let value : Nat → t.Value := fun p =>
    (k.valueAt? before last t operands out g.shape p).getD seed
  have hvalue : ∀ p < size g.shape,
      k.valueAt? before last t operands out g.shape p = some (value p) := by
    intro p hp
    obtain ⟨v, hv⟩ := h.exists_foldedValue? hk hp
    have hv : k.valueAt? before last t operands out g.shape p = some v := hv
    simp only [value, hv, Option.getD_some]
  have hgroups := g.group_ne_nil hpos fun axis htarget => (h.axis_spec hred htarget).1
  have htolerates : ∀ q < out.data.size,
      out.data.storage.Tolerates combine seed ((g.group q).map value) := by
    intro q hq
    refine Storage.tolerates_fold (h.accepted.accepts h.valid hk) hcombine hseed
      (hkeeps.imp_right (·.imp_right fun hkept v hv => ?_))
    obtain ⟨p, hp, rfl⟩ := List.mem_map.1 hv
    have hlt := Geometry.lt_size_of_mem_group hp hq fun axis htarget =>
      ⟨(h.axis_spec hred htarget).1, (h.axis_spec hred htarget).2.2⟩
    exact hkept p hlt _ (hvalue p hlt)
  exact h.exists_endsIn hpos
    (fun hnone => absurd hnone (h.accepted.reduction?_ne_none hred))
    (fun _ hfits => absurd hred (Bool.eq_false_iff.1 (h.isReduction_of_fits hfits)))
    (fun plan hfits hsuits => h.yields_absorbs hk hcombine hvalue hmemory hfits hsuits)
    fun a b ha habsorbs hb habsorbs' =>
      habsorbs.unique habsorbs' ha hb hgroups hread htolerates

end Lanewise
