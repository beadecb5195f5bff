import Lanewise.Proofs.PaddedRuns
import Lanewise.Proofs.Pool

/-!
# Plans over padded strings

Two evaluations of one program, each over strings at widths of its own, come to the same end
whatever the plan is (`Evaluation.akin_runPlan`). The walks of a plan stay within the arrays
(`Evaluation.StaysIn`), so neither evaluation looks for an element that is not there. In a
pool, the threads of both take the same turns (`PoolRun.Akin.step`).
-/

namespace Lanewise

open Shape (size)

variable {v : Vocabulary} {ev ev' : Evaluation}

/-! ## Walks of a plan -/

/-- Strides over a shape that lead to the elements of an array. -/
structure Source.ReadBy (shape : Shape) (source : Source) (s : List Nat) : Prop where
  length : s.length = shape.length
  dot_lt : ∀ data, source = .array data → ∀ is, Shape.InBounds is shape →
    Shape.dot is s < data.size

namespace Evaluation

/-- A walk whose positions have elements of their own in the output. -/
structure Spread (ev : Evaluation) (it : Iteration) : Prop where
  strides : ∀ op ∈ it.operands, op.strides.length = it.shape.length
  leads : ∀ p < size it.shape, ev.Leads p 1 (it.operands.map (·.offset it.shape p))

/-- A range of such a walk stays in the elements of its positions. -/
theorem Spread.staysIn {it : Iteration} (h : ev.Spread it) (start : Nat) {stop : Nat}
    (hstop : stop ≤ size it.shape) :
    ev.StaysIn (it.within start stop) start (stop - start) := by
  refine ⟨hstop, h.strides, fun p hlow hhigh => ?_⟩
  have hlow : start ≤ p := hlow
  have hhigh : p < stop := hhigh
  have hleads := h.leads p (by omega)
  refine ⟨fun o ho => ?_, hleads.input⟩
  have := hleads.output o ho
  omega

section Walks

variable {shape : Shape} {strides : List (List Nat)}
  (hread : List.Forall₂ (Source.ReadBy shape) ev.sources strides)

include hread

theorem leads_of_readBy {is : List Nat} (his : Shape.InBounds is shape) {o base len : Nat}
    (ho : o < base + len) : ev.Leads base len (o :: strides.map (Shape.dot is)) := by
  refine ⟨fun o' ho' => ?_, fun i o' data ho' hsource => ?_⟩
  · rw [List.getElem?_cons_zero, Option.some.injEq] at ho'
    rwa [← ho']
  · rw [List.getElem?_cons_succ, List.getElem?_map, Option.map_eq_some_iff] at ho'
    obtain ⟨s, hs, rfl⟩ := ho'
    have hreadBy := rel_getElem? hread i
    rw [hsource, hs] at hreadBy
    cases hreadBy with
    | some h => exact h.dot_lt data rfl is his

theorem lengths_of_readBy : ∀ s ∈ strides, s.length = shape.length := by
  intro s hs
  obtain ⟨_, -, hreadBy⟩ := exists_of_mem_of_forall₂ hread hs
  exact hreadBy.length

theorem offsets_of_readBy (hfits : size shape ≤ Shape.maxSize) {p : Nat} (hp : p < size shape) :
    (strides.map (⟨0, ·⟩)).map (fun op : Strided => op.offset shape p)
      = strides.map (Shape.dot (Shape.index shape p)) := by
  rw [List.map_map]
  refine List.map_congr_left fun s hs => ?_
  exact (Strided.offset_eq_dot (lengths_of_readBy hread s hs) hfits hp).trans (Nat.zero_add _)

/-- The walk of an element-wise plan. -/
theorem spread_of_ofStrides {blockSize : Nat} {it : Iteration}
    (h : Iteration.ofStrides shape (shape.contiguousStrides :: strides) blockSize = .ok it) :
    ev.Spread it ∧ it.shape = shape ∧ it = it.within 0 (size shape) := by
  obtain ⟨_, hfits, rfl, hlengths⟩ := Iteration.of_ofStrides h
  refine ⟨⟨List.forall_mem_map.2 hlengths, fun p hp => ?_⟩, rfl, rfl⟩
  rw [List.map_cons, List.map_cons, offsets_of_readBy hread hfits hp,
    Strided.offset_contiguous 0 hfits hp, Nat.zero_add]
  exact leads_of_readBy hread (Shape.inBounds_index hp) (Nat.lt_succ_self p)

/-- The walk of a plan that folds everything. -/
theorem staysIn_reduceFull {blockSize : Nat} {it : Iteration} (h : Iteration.ofStrides shape
      (List.replicate shape.length 0 :: strides) blockSize = .ok it) :
    ev.StaysIn it 0 1 ∧ it.start = it.position := by
  obtain ⟨_, hfits, rfl, hlengths⟩ := Iteration.of_ofStrides h
  refine ⟨⟨Nat.le_refl _, List.forall_mem_map.2 hlengths, fun p _ hp => ?_⟩, rfl⟩
  have hstill : Strided.offset ⟨0, List.replicate shape.length 0⟩ shape p = 0 :=
    Strided.offset_of_flatStep? (Strided.flatStep?_zero (by simp) _) p
  rw [List.map_cons, List.map_cons, offsets_of_readBy hread hfits hp, hstill]
  exact leads_of_readBy hread (Shape.inBounds_index hp) Nat.one_pos

end Walks

/-- A constant is worked out for a single position. -/
theorem staysIn_constant (ev : Evaluation) {blockSize : Nat} {it : Iteration}
    (h : Iteration.ofStrides [] [[]] blockSize = .ok it) :
    ev.StaysIn it 0 1 ∧ it.start = it.position := by
  obtain ⟨_, hfits, rfl, hlengths⟩ := Iteration.of_ofStrides h
  refine ⟨⟨Nat.le_refl _, List.forall_mem_map.2 hlengths, fun p _ hp => ⟨fun o ho => ?_, nofun⟩⟩,
    rfl⟩
  have hp : p < size [] := hp
  obtain rfl : p = 0 := by
    rw [Shape.size_nil] at hp
    omega
  have hzero : Strided.offset ⟨0, []⟩ [] 0 = 0 := Strided.offset_contiguous 0 hfits hp
  rw [List.map_cons, List.map_cons, hzero] at ho
  cases ho
  exact Nat.one_pos

section Loops

variable {g : Geometry} {axis blockSize : Nat} {strides : List (List Nat)}
  {outer inner : Iteration} (hread : List.Forall₂ (Source.ReadBy g.shape) ev.sources strides)
  (haxis : axis < g.shape.length)

include hread haxis

theorem leads_pairOffsets {group m : Nat} (hgroup : group < size (g.shape.eraseIdx axis))
    (hm : m < g.shape[axis]) : ev.Leads 0 (size (g.shape.eraseIdx axis))
      (pairOffsets g.shape axis strides (group, m)) :=
  leads_of_readBy hread (Shape.inBounds_insertIdx haxis (Shape.inBounds_index hgroup) hm)
    (by rwa [Nat.zero_add])

variable (hout : g.outputShape = g.shape.eraseIdx axis)
  (houter : Iteration.ofStrides (AxisSplit.ofAxis g axis strides).groups
    (AxisSplit.ofAxis g axis strides).groupStrides blockSize = .ok outer)

include hout houter

/-- The walk of a group along the axis. -/
theorem staysIn_inner (hinner : Iteration.ofStrides [(AxisSplit.ofAxis g axis strides).axisLength]
      ((AxisSplit.ofAxis g axis strides).axisStrides.map ([·])) blockSize = .ok inner)
    {group : Nat} (hgroup : group < outer.size) {bases : List Nat}
    (hbases : (outer.operands.mapM fun op => op.offset? outer.shape group) = some bases) :
    ev.StaysIn (inner.startAt bases) 0 (size (g.shape.eraseIdx axis)) := by
  have hlengths := lengths_of_readBy hread
  obtain rfl : bases = outer.operands.map fun op => op.offset outer.shape group := by
    rcases mapM_cases outer.operands (offset?_cases outer.shape group) with h | ⟨hnone, -⟩
    · exact Option.some.inj (hbases.symm.trans h)
    · cases hbases.symm.trans hnone
  have hgroup : group < size (g.shape.eraseIdx axis) := by
    rw [AxisSplit.ofAxis_eq haxis hout] at houter
    obtain ⟨_, _, rfl, -⟩ := Iteration.of_ofStrides houter
    exact hgroup
  have hoffsets {m : Nat} (hm : m < g.shape[axis]) :=
    offsets_inner haxis hout hlengths houter hinner hgroup hm
  obtain ⟨hstart, hstop, hstrides⟩ : inner.stop = size inner.shape ∧
      size inner.shape = g.shape[axis] ∧
      ∀ op ∈ inner.operands, op.strides.length = inner.shape.length := by
    rw [AxisSplit.ofAxis_eq haxis hout] at hinner
    obtain ⟨_, _, rfl, hlengths⟩ := Iteration.of_ofStrides hinner
    exact ⟨rfl, Shape.size_singleton _, List.forall_mem_map.2 hlengths⟩
  refine ⟨Nat.le_of_eq hstart, inner.length_startAt hstrides _, fun m _ hm => ?_⟩
  have hm : m < inner.stop := hm
  have hm : m < g.shape[axis] := by omega
  have hshape : (inner.startAt (outer.operands.map fun op => op.offset outer.shape group)).shape
      = inner.shape := rfl
  rw [hshape, hoffsets hm]
  exact leads_pairOffsets hread haxis hgroup hm

/-- The walk over the groups for a position of the axis. -/
theorem staysIn_outer {m : Nat} (hm : m < g.shape[axis]) {bases : List Nat}
    (hbases : ((AxisSplit.ofAxis g axis strides).axisStrides.mapM fun stride =>
      checkedProduct m stride) = some bases) :
    ev.StaysIn (outer.startAt bases) 0 (size (g.shape.eraseIdx axis)) := by
  have hlengths := lengths_of_readBy hread
  obtain rfl : bases = (AxisSplit.ofAxis g axis strides).axisStrides.map (m * ·) := by
    rcases mapM_cases (AxisSplit.ofAxis g axis strides).axisStrides (checkedProduct_cases m) with
      h | ⟨hnone, -⟩
    · exact Option.some.inj (hbases.symm.trans h)
    · cases hbases.symm.trans hnone
  have hoffsets {group : Nat} (hgroup : group < size (g.shape.eraseIdx axis)) :=
    offsets_outer haxis hout hlengths houter m hgroup
  obtain ⟨hstop, hsize, hstrides⟩ : outer.stop = size outer.shape ∧
      size outer.shape = size (g.shape.eraseIdx axis) ∧
      ∀ op ∈ outer.operands, op.strides.length = outer.shape.length := by
    rw [AxisSplit.ofAxis_eq haxis hout] at houter
    obtain ⟨_, _, rfl, hlengths⟩ := Iteration.of_ofStrides houter
    exact ⟨rfl, rfl, List.forall_mem_map.2 hlengths⟩
  refine ⟨Nat.le_of_eq hstop, outer.length_startAt hstrides _, fun group _ hgroup => ?_⟩
  have hgroup : group < outer.stop := hgroup
  have hgroup : group < size (g.shape.eraseIdx axis) := by omega
  have hshape : (outer.startAt ((AxisSplit.ofAxis g axis strides).axisStrides.map (m * ·))).shape
      = outer.shape := rfl
  rw [hshape, hoffsets hgroup]
  exact leads_pairOffsets hread haxis hgroup hm

end Loops

end Evaluation

/-! ## Threads -/

structure Worker.Akin (v : Vocabulary) (ev ev' : Evaluation) (worker worker' : Worker) :
    Prop where
  workspace : worker.workspace.Akin v ev ev' worker'.workspace
  pending : worker.pending = worker'.pending

structure PoolRun.Akin (v : Vocabulary) (ev ev' : Evaluation) (run run' : PoolRun) : Prop where
  workers : ∀ i : Nat, Option.Rel (Worker.Akin v ev ev') run.workers[i]? run'.workers[i]?
  parts : ∀ i : Nat, Option.Rel (Column.Held v) run.parts[i]? run'.parts[i]?
  failure : run.failure? = run'.failure?

section Buffers

variable [Allocator] {w w' : Workspace}

/-- Buffers that can be laid out again where there is room for the table of registers. -/
def Workspace.Forks (w : Workspace) : Prop :=
  w.fork = RegisterFile.reserveTable w.registers.size >>= fun _ => .ok w

/-- Threads get buffers that are alike, or neither evaluation has room for them. -/
theorem Workspace.Akin.forThreads (h : w.Akin v ev ev' w') (hfork : w.Forks) (hfork' : w'.Forks)
    (threads : Nat) :
    Concur (List.Forall₂ (Workspace.Akin v ev ev')) (w.forThreads threads)
      (w'.forThreads threads) := by
  have hcopies : ∀ n, List.Forall₂ (fun a b => a = w ∧ b = w') (List.replicate n w)
      (List.replicate n w') := fun n => by
    induction n with
    | zero => exact .nil
    | succ n ih => exact .cons ⟨rfl, rfl⟩ ih
  refine (Concur.mapM (hcopies _) ?_).bind fun _ _ hforks => .ok (.cons h hforks)
  rintro _ _ ⟨rfl, rfl⟩
  rw [hfork, hfork', RegisterFile.size, RegisterFile.size, size_eq_of_rel h.registers.columns]
  exact Concur.bind_same fun _ _ => .ok h

end Buffers

namespace PoolRun

variable {run run' : PoolRun}

theorem akin_start {buffers buffers' : List Workspace}
    (hbuffers : List.Forall₂ (Workspace.Akin v ev ev') buffers buffers') {out out' : Column}
    (hout : out.Held v out') (size : Nat) :
    (start buffers out size).Akin v ev ev' (start buffers' out' size) := by
  have hchunks := hout.chunks size
  refine ⟨fun i => ?_, fun i => ?_, rfl⟩
  · simp only [start, Array.getElem?_mapIdx, List.getElem?_toArray, List.size_toArray,
      hchunks.length_eq, hbuffers.length_eq]
    exact rel_map (rel_getElem? hbuffers i) fun _ _ hw => ⟨hw, rfl⟩
  · simp only [start, List.getElem?_toArray]
    exact rel_getElem? hchunks i

variable (h : ev.Akin v ev') {it : Iteration} (hit : ev.Spread it)

include h hit

/-- One task, on both sides. -/
theorem akin_runTask (start : Nat) {w w' : Workspace} (hw : w.Akin v ev ev' w')
    {part part' : Column} (hpart : part.Held v part') :
    (runTask ev it start w part).1 = (runTask ev' it start w' part').1 ∧
      (runTask ev it start w part).2.1.Akin v ev ev' (runTask ev' it start w' part').2.1 ∧
      (runTask ev it start w part).2.2.Held v (runTask ev' it start w' part').2.2 := by
  unfold runTask
  rw [← hpart.toAkin.size_eq]
  split
  · exact ⟨rfl, hw, hpart⟩
  · next walk hwalk =>
    obtain ⟨⟨-, hstop⟩, rfl⟩ := Iteration.setRange_eq_ok_iff.1 hwalk
    have hstays := hit.staysIn start hstop
    rw [Nat.add_sub_cancel_left] at hstays
    have ht : Traversal.Akin v ev ev' ⟨w, ⟨part, start⟩, it.within start (start + part.size)⟩
        ⟨w', ⟨part', start⟩, it.within start (start + part.size)⟩ := ⟨hw, ⟨hpart, rfl⟩, rfl⟩
    have hrun := h.runPlain ht hstays (Nat.le_refl _)
    simp only [EStateM.run, Iteration.within] at hrun ⊢
    generalize ev.runPlain _ = x at hrun ⊢
    generalize ev'.runPlain _ = y at hrun ⊢
    cases hrun with
    | ok _ ht => exact ⟨rfl, ht.workspace, ht.sink.data⟩
    | error e ht => exact ⟨rfl, ht.workspace, ht.sink.data⟩

/-- One turn. -/
theorem Akin.step (size : Nat) (hrun : run.Akin v ev ev' run') (turn : Turn) :
    (run.step ev it size turn).Akin v ev ev' (run'.step ev' it size turn) := by
  obtain ⟨workers, parts, failure?⟩ := run
  obtain ⟨workers', parts', _⟩ := run'
  obtain ⟨hworkers, hparts, rfl⟩ := hrun
  have hworker := hworkers turn.thread
  simp only [PoolRun.step]
  generalize workers[turn.thread]? = x at hworker ⊢
  generalize workers'[turn.thread]? = y at hworker ⊢
  cases hworker with
  | none => exact ⟨hworkers, hparts, rfl⟩
  | @some worker worker' hworker =>
    obtain ⟨w, pending⟩ := worker
    obtain ⟨w', _⟩ := worker'
    obtain ⟨hw, rfl⟩ := hworker
    cases pending with
    | nil => exact ⟨hworkers, hparts, rfl⟩
    | cons task rest =>
      have hleft : ∀ {w w' : Workspace}, w.Akin v ev ev' w' → ∀ left : List Nat, ∀ i : Nat,
          Option.Rel (Worker.Akin v ev ev') (workers.setIfInBounds turn.thread ⟨w, left⟩)[i]?
            (workers'.setIfInBounds turn.thread ⟨w', left⟩)[i]? :=
        fun hw left => rel_setIfInBounds hworkers ⟨hw, rfl⟩
      dsimp only
      split
      · exact ⟨hleft hw _, hparts, rfl⟩
      have hpart := hparts task
      generalize parts[task]? = x at hpart ⊢
      generalize parts'[task]? = y at hpart ⊢
      cases hpart with
      | none => exact ⟨hleft hw _, hparts, rfl⟩
      | some hpart =>
        have htask := akin_runTask h hit (task * size) hw hpart
        dsimp only
        generalize runTask ev it (task * size) _ _ = x at htask ⊢
        generalize runTask ev' it (task * size) _ _ = y at htask ⊢
        obtain ⟨result, w, part⟩ := x
        obtain ⟨_, w', part'⟩ := y
        obtain ⟨rfl, hw, hpart⟩ := htask
        cases result with
        | ok _ => exact ⟨hleft hw _, rel_setIfInBounds hparts hpart, rfl⟩
        | error e => exact ⟨hleft hw _, rel_setIfInBounds hparts hpart, rfl⟩

theorem Akin.follow (size : Nat) (hrun : run.Akin v ev ev' run') (schedule : List Turn) :
    (run.follow ev it size schedule).Akin v ev ev' (run'.follow ev' it size schedule) := by
  unfold PoolRun.follow
  induction schedule generalizing run run' with
  | nil => exact hrun
  | cons turn rest ih => exact ih (hrun.step h hit size turn)

omit h hit

/-- The output with all parts put back. -/
theorem Akin.output (hrun : run.Akin v ev ev' run') {out out' : Column} (hout : out.Held v out')
    (size : Nat) : (run.output out size).Held v (run'.output out' size) := by
  have hparts := forall₂_toList_of_rel hrun.parts
  simp only [PoolRun.output, List.zipIdx_eq_zip_range']
  rw [hparts.length_eq]
  generalize List.range' 0 run'.parts.toList.length = tasks
  generalize run.parts.toList = parts at hparts ⊢
  generalize run'.parts.toList = parts' at hparts ⊢
  induction hparts generalizing out out' tasks with
  | nil => exact hout
  | cons hpart _ ih =>
    cases tasks with
    | nil => exact hout
    | cons task tasks => exact ih (hout.write _ hpart.toAkin).1 tasks

end PoolRun

/-! ## Runs -/

namespace Evaluation

section Run

variable {w w' : Workspace} {out out' : Column}

theorem Akin.runParallel [Allocator] [Scheduler] (h : ev.Akin v ev') (hw : w.Akin v ev ev' w')
    (hfork : w.Forks) (hfork' : w'.Forks) (hout : out.Held v out') (poolThreads : Nat)
    {it : Iteration} (hit : ev.Spread it) (threads tasksPerThread : Nat) :
    Ends (fun x y => x.2.Held v y.2) (ev.runParallel poolThreads w it out threads tasksPerThread)
      (ev'.runParallel poolThreads w' it out' threads tasksPerThread) := by
  unfold Evaluation.runParallel
  rw [← h.mode, ← hout.toAkin.size_eq, ← h.prepared.blockSize]
  split
  · exact ⟨rfl, hout⟩
  split
  · exact ⟨rfl, hout⟩
  dsimp only
  generalize min (max threads 1) (max poolThreads 1) = threads
  split
  · exact ⟨rfl, hout⟩
  next size _ =>
  have hbuffers := hw.forThreads hfork hfork' threads
  generalize w.forThreads threads = x at hbuffers ⊢
  generalize w'.forThreads threads = y at hbuffers ⊢
  cases hbuffers with
  | error e => exact ⟨rfl, hout⟩
  | @ok buffers buffers' hbuffers =>
    have hstart := PoolRun.akin_start hbuffers hout size
    dsimp only
    rw [size_eq_of_rel hstart.parts]
    have hrun := hstart.follow h hit size (Scheduler.turns threads
      (PoolRun.start buffers' out' size).parts.size)
    exact ⟨by rw [hrun.failure], hrun.output hout size⟩

/-- A serial run that does the same on both sides. -/
theorem akin_runSerial {body body' : TraversalM Unit} {it : Iteration}
    (hw : w.Akin v ev ev' w') (hout : out.Held v out')
    (h : ∀ {t t' : Traversal}, t.Akin v ev ev' t' → t.iteration = it → t.sink = ⟨out, 0⟩ →
      TraversalM.Matches v ev ev' (· = ·) (body t) (body' t')) :
    Ends (Column.Held v) (runSerial body w out it) (runSerial body' w' out' it) := by
  have ht : Traversal.Akin v ev ev' ⟨w, ⟨out, 0⟩, it⟩ ⟨w', ⟨out', 0⟩, it⟩ :=
    ⟨hw, ⟨hout, rfl⟩, rfl⟩
  have hrun := h ht rfl rfl
  simp only [runSerial, EStateM.run]
  generalize body _ = x at hrun ⊢
  generalize body' _ = y at hrun ⊢
  cases hrun with
  | ok _ ht => exact ⟨rfl, ht.sink.data⟩
  | error e ht => exact ⟨rfl, ht.sink.data⟩

/-- A serial run of all blocks of a walk. -/
theorem Akin.runSerial (h : ev.Akin v ev') (hw : w.Akin v ev ev' w') (hout : out.Held v out')
    {it : Iteration} (hstays : ev.StaysIn it 0 out.size) (hstart : it.start = it.position) :
    Ends (Column.Held v) (Evaluation.runSerial ev.runPlain w out it)
      (Evaluation.runSerial ev'.runPlain w' out' it) := by
  refine akin_runSerial hw hout fun {t t'} ht hit hsink => h.runPlain ht ?_ ?_
  · rwa [hit, hsink]
  · rw [hit]
    exact Nat.le_of_eq hstart

end Run

/-- What keeps the walks of a plan in the arrays and the output. -/
structure Fitted (sources : List Source) (g : Geometry) (strides : List (List Nat))
    (out : Column) : Prop where
  readBy : List.Forall₂ (Source.ReadBy g.shape) sources strides
  outputShape : g.outputShape = Geometry.resultShape g.shape g.reduction?
  axis : ∀ i, g.reduction? = some (.axis i) → i < g.shape.length
  size : out.size = size g.outputShape

section Fitted

variable {sources : List Source} {g : Geometry} {strides : List (List Nat)} {out : Column}
  (h : Fitted sources g strides out)

include h

/-- An element-wise program has an element of the output for each position. -/
theorem Fitted.size_elementwise (hred : g.reduction? = none) : out.size = Shape.size g.shape := by
  rw [h.size, h.outputShape, hred]
  rfl

/-- A fold of everything goes into a single element. -/
theorem Fitted.size_reduceFull (hfits : g.fits .reduceFull = true) : out.size = 1 := by
  rw [h.size, h.outputShape]
  cases hred : g.reduction? with
  | none => simp [Geometry.fits, hred] at hfits
  | some target =>
    cases target with
    | all => exact Shape.size_nil
    | axis i =>
      have hlt := h.axis i hred
      have hlen : g.shape.length ≤ 1 := by simpa [Geometry.fits, hred] using hfits
      obtain ⟨d, hd⟩ := List.length_eq_one_iff.1 (by omega : g.shape.length = 1)
      obtain rfl : i = 0 := by omega
      rw [hd]
      exact Shape.size_nil

/-- A loop of walks has an element of the output for each group. -/
theorem Fitted.size_axis {axis : Nat} (hred : g.reduction? = some (.axis axis)) :
    axis < g.shape.length ∧ g.outputShape = g.shape.eraseIdx axis ∧
      out.size = Shape.size (g.shape.eraseIdx axis) := by
  have hshape : g.outputShape = g.shape.eraseIdx axis := by
    rw [h.outputShape, hred]
    rfl
  exact ⟨h.axis axis hred, hshape, by rw [h.size, hshape]⟩

end Fitted

/-! ## Plans -/

section Plans

variable {p p' : Prepared} {sources sources' : List Source} {w w' : Workspace}
  {out out' : Column} {g : Geometry} {strides : List (List Nat)}
  (h : ∀ mode?, Evaluation.Akin v ⟨p, sources, mode?⟩ ⟨p', sources', mode?⟩)
  (hw : ∀ mode?, w.Akin v ⟨p, sources, mode?⟩ ⟨p', sources', mode?⟩ w') (hout : out.Held v out')
  (hfitted : Fitted sources g strides out) (config : EngineConfig)

include h hw hout

theorem akin_runPlan_constant [Allocator] [Scheduler] :
    Ends (Column.Held v) (runPlan p sources w g strides config .constant out)
      (runPlan p' sources' w' g strides config .constant out') := by
  simp only [runPlan]
  rw [hout.toAkin.size_eq]
  split
  · exact ⟨rfl, hout⟩
  next hsize =>
  split
  · exact ⟨rfl, hout⟩
  next it hit =>
  obtain ⟨hstays, hstart⟩ := staysIn_constant ⟨p, sources, _⟩ hit
  refine (h _).runSerial (hw _) hout ?_ hstart
  rwa [hout.toAkin.size_eq, Decidable.not_not.1 hsize]

include hfitted

theorem akin_runPlan_serial [Allocator] [Scheduler] (hred : g.reduction? = none) :
    Ends (Column.Held v) (runPlan p sources w g strides config .serial out)
      (runPlan p' sources' w' g strides config .serial out') := by
  simp only [runPlan]
  split
  · exact ⟨rfl, hout⟩
  next it hit =>
  have hread : List.Forall₂ (Source.ReadBy g.shape) (Evaluation.mk p sources none).sources
    strides := hfitted.readBy
  obtain ⟨hspread, hshape, hwhole⟩ := spread_of_ofStrides hread hit
  have hstays := hspread.staysIn 0 (Nat.le_of_eq (congrArg size hshape.symm))
  rw [← hwhole, Nat.sub_zero, ← hfitted.size_elementwise hred] at hstays
  exact (h _).runSerial (hw _) hout hstays (by rw [hwhole]; rfl)

theorem akin_runPlan_parallel [Allocator] [Scheduler] (hfork : w.Forks) (hfork' : w'.Forks)
    (threads : Nat) :
    Ends (Column.Held v) (runPlan p sources w g strides config (.parallel threads) out)
      (runPlan p' sources' w' g strides config (.parallel threads) out') := by
  simp only [runPlan]
  split
  · exact ⟨rfl, hout⟩
  next it hit =>
  have hread : List.Forall₂ (Source.ReadBy g.shape) (Evaluation.mk p sources none).sources
    strides := hfitted.readBy
  obtain ⟨hspread, -⟩ := spread_of_ofStrides hread hit
  exact (h none).runParallel (hw _) hfork hfork' hout _ hspread _ _

theorem akin_runPlan_reduceFull [Allocator] [Scheduler] (hfits : g.fits .reduceFull = true) :
    Ends (Column.Held v) (runPlan p sources w g strides config .reduceFull out)
      (runPlan p' sources' w' g strides config .reduceFull out') := by
  simp only [runPlan]
  split
  · exact ⟨rfl, hout⟩
  next it hit =>
  have hread : List.Forall₂ (Source.ReadBy g.shape) (Evaluation.mk p sources (some .single)).sources
    strides := hfitted.readBy
  obtain ⟨hstays, hstart⟩ := staysIn_reduceFull hread hit
  refine (h _).runSerial (hw _) hout ?_ hstart
  rwa [hfitted.size_reduceFull hfits]

theorem akin_runPlan_reduceInner [Allocator] [Scheduler] {axis : Nat}
    (hfits : g.fits (.reduceInner axis) = true) :
    Ends (Column.Held v) (runPlan p sources w g strides config (.reduceInner axis) out)
      (runPlan p' sources' w' g strides config (.reduceInner axis) out') := by
  simp only [runPlan]
  split
  · next outer inner houter hinner =>
    obtain ⟨hlt, hshape, hsize⟩ :=
      hfitted.size_axis (Geometry.reduction?_of_fits_axis (.inl hfits))
    refine akin_runSerial (hw (some .single)) hout fun ht hit hsink => ?_
    refine (h _).forEach_runFrom ht (.atStart hit hsink) fun group hgroup bases hbases _ => ?_
    rw [hsize]
    exact staysIn_inner hfitted.readBy hlt hshape houter hinner (by omega) hbases
  · exact ⟨rfl, hout⟩
  · exact ⟨rfl, hout⟩

theorem akin_runPlan_reduceOuter [Allocator] [Scheduler] {axis : Nat}
    (hfits : g.fits (.reduceOuter axis) = true) :
    Ends (Column.Held v) (runPlan p sources w g strides config (.reduceOuter axis) out)
      (runPlan p' sources' w' g strides config (.reduceOuter axis) out') := by
  simp only [runPlan]
  split
  · exact ⟨rfl, hout⟩
  next groups hgroups =>
  obtain ⟨hlt, hshape, hsize⟩ :=
    hfitted.size_axis (Geometry.reduction?_of_fits_axis (.inr hfits))
  refine akin_runSerial (hw (some .lanewise)) hout fun ht hit hsink => ?_
  refine (h _).forEach_runFrom ht (.atStart hit hsink) fun m hm bases hbases _ => ?_
  rw [hsize]
  refine staysIn_outer hfitted.readBy hlt hshape hgroups ?_ hbases
  rwa [AxisSplit.ofAxis_eq hlt hshape, Nat.zero_add] at hm

end Plans

/-- **Whatever the plan**, both evaluations come to the same end. -/
theorem akin_runPlan [Allocator] [Scheduler] {p p' : Prepared} (hp : p.SameCode p')
    {sources sources' : List Source} (hsources : List.Forall₂ (Source.Akin v) sources sources')
    {w w' : Workspace} (hw : ∀ mode?, w.Akin v ⟨p, sources, mode?⟩ ⟨p', sources', mode?⟩ w')
    (hfork : w.Forks) (hfork' : w'.Forks) {out out' : Column} (hout : out.Held v out')
    {g : Geometry} {strides : List (List Nat)} (hfitted : Fitted sources g strides out)
    (config : EngineConfig) {plan : ExecutionPlan} (hfits : g.fits plan = true) :
    Ends (Column.Held v) (runPlan p sources w g strides config plan out)
      (runPlan p' sources' w' g strides config plan out') := by
  have h : ∀ mode?, Evaluation.Akin v ⟨p, sources, mode?⟩ ⟨p', sources', mode?⟩ := fun _ =>
    ⟨hp, hsources, rfl⟩
  cases plan with
  | empty => exact ⟨rfl, hout⟩
  | constant => exact akin_runPlan_constant h hw hout config
  | serial =>
    exact akin_runPlan_serial h hw hout hfitted config
      (Geometry.reduction?_of_fits_elementwise (.inl hfits))
  | parallel threads => exact akin_runPlan_parallel h hw hout hfitted config hfork hfork' threads
  | reduceFull => exact akin_runPlan_reduceFull h hw hout hfitted config hfits
  | reduceInner axis => exact akin_runPlan_reduceInner h hw hout hfitted config hfits
  | reduceOuter axis => exact akin_runPlan_reduceOuter h hw hout hfitted config hfits

end Evaluation

end Lanewise
