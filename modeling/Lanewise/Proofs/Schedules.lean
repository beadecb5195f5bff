import Lanewise.Proofs.Alone
import Lanewise.Proofs.Calls

/-!
# Pools against serial runs

A pool cuts the output into parts of whole blocks (`Column.Tiled`) and deals them
out, each to one thread (`PoolRun.exists_unique_owner`). Blocks do what they do on
their own, in a serial run over everything as well as in a task, so under every
schedule a pool fails exactly where a serial run fails, and leaves the same output
where it does not (`Evaluation.Splits.refines_runSerial`).
-/

namespace Lanewise

open Shape (size)

/-- `copy_ll r2, r1` and `copy_ll r0, r2` -/
def Kernel.copyThrough : Kernel :=
  ⟨⟨[39, 2, 1, 0, 39, 0, 2, 0]⟩, [.long, .long, .long], [.long], [], 1⟩

/-! ## Tasks -/

/-- Parts of `n` elements, the last one maybe shorter, that start and end with
blocks and have every element once. -/
structure Column.Tiled (c : Column) (block n : Nat) : Prop where
  dvd : block ∣ n
  stop : ∀ task part, (c.chunks n)[task]? = some part →
    task * n + part.size = min (task * n + n) c.size
  once : ∀ p < c.size, ∃! task, ∃ part, (c.chunks n)[task]? = some part ∧
    task * n ≤ p ∧ p < task * n + part.size

theorem Column.tiled {c : Column} {block n : Nat} (hn : 0 < n) (hdvd : block ∣ n) :
    c.Tiled block n := by
  refine ⟨hdvd, fun task part hpart => ?_, fun p hp => ?_⟩
  · obtain ⟨-, hin, hle, -⟩ := getElem?_chunks hn hpart
    by_contra hshort
    -- the element behind the part would be one of its own
    obtain ⟨part', hpart', hlt⟩ := exists_chunk (c := c) (q := task * n + part.size) hn (by omega)
    obtain ⟨htask, hmod⟩ :
        (task * n + part.size) / n = task ∧ (task * n + part.size) % n = part.size :=
      (Nat.div_mod_unique hn).2 ⟨by rw [Nat.add_comm, Nat.mul_comm], by omega⟩
    rw [htask, hpart] at hpart'
    cases hpart'
    omega
  · obtain ⟨part, hpart, hlt⟩ := exists_chunk hn hp
    have hsplit : p / n * n + p % n = p := Nat.div_add_mod' p n
    refine ⟨p / n, ⟨part, hpart, by omega, by omega⟩, ?_⟩
    rintro task ⟨part', hpart', hlow, hhigh⟩
    obtain ⟨-, -, hle, -⟩ := getElem?_chunks hn hpart'
    refine (Nat.div_eq_of_lt_le hlow ?_).symm
    rw [Nat.succ_mul]
    omega

theorem dvd_of_taskSize? {length block threads tasksPerThread n : Nat} (hblock : 0 < block)
    (h : taskSize? length block threads tasksPerThread = some n) : block ∣ n := by
  simp only [taskSize?, Nat.max_eq_left (Nat.succ_le_of_lt hblock), Option.bind_eq_bind,
    Option.bind_eq_some_iff, checkedProduct_eq_some_iff] at h
  obtain ⟨_, -, _, -, -, rfl⟩ := h
  exact Nat.dvd_mul_left _ _

/-- Each task is with one thread at first. -/
theorem PoolRun.exists_unique_owner {buffers : List Workspace} (out : Column) (n : Nat)
    (hbuffers : 0 < buffers.length) {task : Nat} (htask : task < (out.chunks n).length) :
    ∃! thread : Nat, ∃ worker : Worker,
      (PoolRun.start buffers out n).workers[thread]? = some worker ∧ task ∈ worker.pending := by
  have hlt : task % buffers.length < (PoolRun.start buffers out n).workers.size := by
    rw [size_workers_start]
    exact Nat.mod_lt task hbuffers
  have hworker := Array.getElem?_eq_getElem hlt
  refine ⟨task % buffers.length, ⟨_, hworker, ?_⟩, ?_⟩
  · rw [(worker_start hworker).2, mem_tasksOf]
    exact ⟨htask, rfl⟩
  · rintro thread ⟨worker, hthread, hmem⟩
    rw [(worker_start hthread).2, mem_tasksOf] at hmem
    exact hmem.2.symm

namespace Evaluation

variable {ev : Evaluation} {k : Kernel} {w w₀ : Workspace} {out : Column} {it : Iteration}
  {output : Strided} {inputs : List Strided}

/-! ## Runs -/

/-- A block that fails when it comes first. -/
def Fails (ev : Evaluation) (w : Workspace) (out : Column) (it : Iteration) : Prop :=
  ∃ p < it.size, it.blockSize ∣ p ∧ ev.alone? w out it p = none

theorem Leaves.unique {p : Nat} {l l' : Lane} (h : ev.Leaves w out it p l)
    (h' : ev.Leaves w out it p l') : l = l' := by
  obtain ⟨data, hdata, rfl⟩ := h
  obtain ⟨data', hdata', rfl⟩ := h'
  rw [Option.some.inj (hdata.symm.trans hdata')]

/-- No block fails where all of them leave something. -/
theorem not_fails_of_leaves (h : ∀ p < it.size, ∃ l, ev.Leaves w out it p l) :
    ¬ ev.Fails w out it := by
  rintro ⟨p, hp, hdvd, hnone⟩
  obtain ⟨_, data, hdata, -⟩ := h p hp
  rw [Nat.div_mul_cancel hdvd, hnone] at hdata
  cases hdata

namespace Splits

variable [Allocator]

/-- A walk over a part of the output, in buffers that earlier blocks left. -/
theorem runPlain_part (h : ev.Splits k w out it output inputs) (hw : w.LeftBy k w₀)
    (part : Iteration) (hoperands : part.operands = it.operands) (hshape : part.shape = it.shape)
    (hsize : part.blockSize = it.blockSize) (hle : part.position ≤ part.stop)
    (hstop : part.stop ≤ it.size) (haligned : it.blockSize ∣ part.position)
    (hend : part.stop = it.size ∨ it.blockSize ∣ part.stop) {data : Column}
    (hstorage : data.storage = out.storage) (hlength : data.size = part.stop - part.position)
    (hlanes : ∀ p, part.position ≤ p → p < part.stop →
      data.lane (p - part.position) = out.lane p) :
    (∃ t, ev.runPlain ⟨w₀, ⟨data, part.position⟩, part⟩ = .ok () t ∧
      w.LeftBy k t.workspace ∧ data.Alike t.sink.data ∧
      ∀ p, part.position ≤ p → p < part.stop →
        ev.Leaves w out it p (t.sink.data.lane (p - part.position))) ∨
    ((∃ e t, ev.runPlain ⟨w₀, ⟨data, part.position⟩, part⟩ = .error e t) ∧
      ev.Fails w out it) := by
  rcases h.runBlocks_walked hstop hend part hoperands hshape hsize rfl (Nat.le_refl _) hle
      (fun _ => haligned) (t := ⟨w₀, ⟨data, part.position⟩, part⟩)
      ⟨hw, hstorage, hlength, rfl, fun p hp hlt => absurd hlt (Nat.not_lt_of_le hp), hlanes⟩ with
    ⟨t, hrun, ht⟩ | ⟨⟨e, t, hrun⟩, p, hp, hlt, hdvd, hnone⟩
  · exact .inl ⟨t, hrun, ht.workspace, ⟨ht.storage.trans hstorage.symm,
      ht.size.trans hlength.symm⟩, ht.done⟩
  · exact .inr ⟨⟨e, t, hrun⟩, p, Nat.lt_of_lt_of_le hlt hstop, hdvd, hnone⟩

/-- A serial run over everything. -/
theorem runSerial_leaves (h : ev.Splits k w out it output inputs) (hw : w.LeftBy k w₀) :
    (∃ data, runSerial ev.runPlain w₀ out it = (.ok (), data) ∧ out.Alike data ∧
      ∀ p < it.size, ev.Leaves w out it p (data.lane p)) ∨
    ((∃ e data, runSerial ev.runPlain w₀ out it = (.error e, data)) ∧ ev.Fails w out it) := by
  obtain ⟨hposition, hstop⟩ := h.range
  rcases h.runPlain_part hw it rfl rfl rfl (by omega) (by omega) (hposition ▸ Nat.dvd_zero _)
      (.inl hstop) rfl (by rw [h.count]; omega) (fun p _ _ => by
        rw [hposition, Nat.sub_zero]) with
    ⟨t, hrun, -, halike, hleaves⟩ | ⟨⟨e, t, hrun⟩, hfails⟩
  · rw [hposition] at hrun hleaves
    refine .inl ⟨t.sink.data, runSerial_eq_ok hrun, halike, fun p hp => ?_⟩
    exact hleaves p (Nat.zero_le _) (by omega)
  · rw [hposition] at hrun
    refine .inr ⟨⟨e, t.sink.data, ?_⟩, hfails⟩
    simp only [runSerial, EStateM.run, hrun]

/-- A task of a pool. -/
theorem tasksEnd (h : ev.Splits k w out it output inputs) {n : Nat} (hn : 0 < n)
    (hdvd : it.blockSize ∣ n) :
    PoolRun.TasksEnd ev it n (out.chunks n) (w.LeftBy k)
      (PoolRun.Delivered n (ev.Leaves w out it)) fun _ => ev.Fails w out it := by
  intro task part w₁ hpart hw
  obtain ⟨hstorage, hin, -, hlane⟩ := Column.getElem?_chunks hn hpart
  have hends := (Column.tiled hn hdvd).stop task part hpart
  have hcount := h.count
  have haligned : it.blockSize ∣ task * n := Nat.dvd_mul_left_of_dvd hdvd task
  have hend : task * n + part.size = it.size ∨ it.blockSize ∣ task * n + part.size := by
    rcases Nat.le_total (task * n + n) out.size with hle | hle
    · rw [hends, Nat.min_eq_left hle]
      exact .inr (Nat.dvd_add haligned hdvd)
    · rw [hends, Nat.min_eq_right hle]
      exact .inl hcount
  rw [hcount] at hin
  rcases h.runPlain_part hw (it.within (task * n) (task * n + part.size)) rfl rfl rfl
      (Nat.le_add_right _ _) hin haligned hend hstorage (Nat.add_sub_cancel_left _ _).symm
      hlane with
    ⟨t, hrun, hw', halike, hleaves⟩ | ⟨⟨e, t, hrun⟩, hfails⟩
  · refine .inl ⟨t.workspace, t.sink.data, PoolRun.runTask_eq_ok hin hrun, hw', halike,
      fun p hp hlt => ?_⟩
    rw [halike.size] at hlt
    exact hleaves p hp hlt
  · exact .inr ⟨e, t.workspace, t.sink.data, PoolRun.runTask_eq_error hin hrun, hfails⟩

/-- A finished run, whatever the schedule. -/
theorem follow_leaves (h : ev.Splits k w out it output inputs) {n : Nat} (hn : 0 < n)
    (hdvd : it.blockSize ∣ n) {buffers : List Workspace} (hbuffers : 0 < buffers.length)
    (hleft : ∀ b ∈ buffers, w.LeftBy k b) (schedule : List Turn)
    (hfinished : ((PoolRun.start buffers out n).follow ev it n schedule).isFinished = true) :
    let run := (PoolRun.start buffers out n).follow ev it n schedule
    (run.failure? = none ∧ out.Alike (run.output out n) ∧
      (∀ p < it.size, ev.Leaves w out it p ((run.output out n).lane p)) ∧
      ∀ (i : Nat) (worker : Worker), run.workers[i]? = some worker →
        w.LeftBy k worker.workspace) ∨
    (run.failure?.isSome ∧ ev.Fails w out it) := by
  intro run
  have hsound := (PoolRun.sound_start out n hbuffers hleft).follow (h.tasksEnd hn hdvd) schedule
  rcases hsound.of_isFinished hfinished with ⟨hnone, -⟩ | ⟨hsome, _, _, -, hfails⟩
  · obtain ⟨halike, hleaves⟩ := hsound.output hn hfinished hnone
    rw [h.count] at hleaves
    exact .inl ⟨hnone, halike, hleaves, fun i worker hworker =>
      hsound.usable i worker hworker (.inr hnone)⟩
  · exact .inr ⟨hsome, hfails⟩

/-- A finished run against a serial one. -/
theorem follow_eq_runSerial (h : ev.Splits k w out it output inputs) (hw : w.LeftBy k w₀) {n : Nat}
    (hn : 0 < n) (hdvd : it.blockSize ∣ n) {buffers : List Workspace}
    (hbuffers : 0 < buffers.length) (hleft : ∀ b ∈ buffers, w.LeftBy k b) (schedule : List Turn)
    (hfinished : ((PoolRun.start buffers out n).follow ev it n schedule).isFinished = true) :
    let run := (PoolRun.start buffers out n).follow ev it n schedule
    let serial := runSerial ev.runPlain w₀ out it
    (run.failure?.isSome = true ↔ ∃ e, serial.1 = .error e) ∧
      (serial.1 = .ok () → run.output out n = serial.2 ∧
        ∀ (i : Nat) (worker : Worker), run.workers[i]? = some worker →
          w.LeftBy k worker.workspace) := by
  intro run serial
  have hrun := h.follow_leaves hn hdvd hbuffers hleft schedule hfinished
  -- whether some block fails on its own is the same question for both
  rcases h.runSerial_leaves hw with ⟨data, hserial, halike, hleaves⟩ | ⟨⟨e, data, hserial⟩, hfails⟩
  · have hwell : ¬ ev.Fails w out it := not_fails_of_leaves fun p hp => ⟨_, hleaves p hp⟩
    obtain ⟨hnone, hrunAlike, hrunLeaves, husable⟩ := hrun.resolve_right fun hrun => hwell hrun.2
    have hserial : serial = (.ok (), data) := hserial
    have hfailure : run.failure? = none := hnone
    rw [hserial, hfailure]
    refine ⟨⟨fun hsome => ?_, fun ⟨e, herror⟩ => ?_⟩, fun _ => ⟨?_, husable⟩⟩
    · cases hsome
    · cases herror
    · refine Column.ext_lane (hrunAlike.storage.trans halike.storage.symm)
        (hrunAlike.size.trans halike.size.symm) fun p hp => ?_
      have hp : p < it.size := by
        rw [hrunAlike.size, h.count] at hp
        exact hp
      exact (hrunLeaves p hp).unique (hleaves p hp)
  · have hserial : serial = (.error e, data) := hserial
    obtain ⟨hsome, -⟩ := hrun.resolve_left fun ⟨_, hrunAlike, hrunLeaves, _⟩ =>
      not_fails_of_leaves (fun p hp => ⟨_, hrunLeaves p hp⟩) hfails
    rw [hserial]
    exact ⟨⟨fun _ => ⟨e, rfl⟩, fun _ => hsome⟩, fun hok => by cases hok⟩

/-- **Pools refine serial runs.** The tasks of a pool tile the output in whole
blocks, and each of them is with one thread. However the threads take their turns,
and whenever they hear of a failure, the run ends in a failure exactly if a serial
run over everything does, and otherwise with the same output. So does a run on any
machine, which also leaves buffers for the next one. The length of a task can be
counted, and there is room for the buffers of all threads. -/
theorem refines_runSerial [Scheduler] (h : ev.Splits k w out it output inputs)
    (hw : w.LeftBy k w₀) (poolThreads threads tasksPerThread : Nat) {n : Nat}
    {buffers : List Workspace}
    (hn : taskSize? it.size it.blockSize (min (max threads 1) (max poolThreads 1)) tasksPerThread
      = some n)
    (hbuffers : w₀.forThreads (min (max threads 1) (max poolThreads 1)) = .ok buffers) :
    let start := PoolRun.start buffers out n
    let serial := runSerial ev.runPlain w₀ out it
    let pool := ev.runParallel poolThreads w₀ it out threads tasksPerThread
    out.Tiled it.blockSize n ∧
      (∀ task < (out.chunks n).length, ∃! thread : Nat, ∃ worker : Worker,
        start.workers[thread]? = some worker ∧ task ∈ worker.pending) ∧
      (∀ schedule,
        let run := start.follow ev it n schedule
        run.Dealt (min (max threads 1) (max poolThreads 1)) 0 (out.chunks n).length ∧
          (run.isFinished = true →
            (run.failure?.isSome = true ↔ ∃ e, serial.1 = .error e) ∧
              (serial.1 = .ok () → run.output out n = serial.2))) ∧
      ((∃ e, pool.1 = .error e) ↔ ∃ e, serial.1 = .error e) ∧
      (serial.1 = .ok () → pool.2.2 = serial.2 ∧ w.LeftBy k pool.2.1) := by
  intro start serial pool
  obtain ⟨hlength, -, heach⟩ := Workspace.of_forThreads hbuffers (by omega)
  have hworkers : 0 < buffers.length := by omega
  have hleft : ∀ b ∈ buffers, w.LeftBy k b := by
    intro b hb
    rcases heach b hb with rfl | hfork
    · exact hw
    · exact .fork h.initial hw hfork
  have hpos : 0 < n := taskSize?_pos hn
  have hdvd : it.blockSize ∣ n := dvd_of_taskSize? it.blockSize_pos hn
  refine ⟨Column.tiled hpos hdvd, fun task htask =>
    PoolRun.exists_unique_owner out n hworkers htask, fun schedule => ⟨?_, fun hfinished => ?_⟩,
    ?_⟩
  · rw [← hlength]
    exact (PoolRun.dealt_start buffers out n).follow schedule
  · obtain ⟨hfailure, houtput⟩ :=
      h.follow_eq_runSerial hw hpos hdvd hworkers hleft schedule hfinished
    exact ⟨hfailure, fun hok => (houtput hok).1⟩
  -- what the machine does is one of the schedules
  · obtain ⟨hfailure, houtput⟩ := h.follow_eq_runSerial hw hpos hdvd hworkers hleft _
      (PoolRun.isFinished_turns ev it n out buffers)
    obtain ⟨result, w', hpool, hresult, hfirst⟩ : ∃ result w', pool = (result, w', _) ∧ _ ∧ _ :=
      exists_runParallel_eq h.mode h.count rfl (by rwa [h.blockSize]) hbuffers (by rw [← hlength])
    rw [hpool]
    refine ⟨hresult.trans hfailure, fun hok => ⟨(houtput hok).1, ?_⟩⟩
    rcases hfirst with rfl | ⟨worker, hworker, rfl⟩
    · exact hw
    · exact (houtput hok).2 0 worker hworker

end Splits

/-! ## Rows -/

section Row

variable [Allocator] {blockSize length : Nat} {boundsCheck : Bool} {widths : List Nat}
  {sources : List Source}

/-- A walk over one dimension, with everything contiguous. -/
def row (sources : List Source) (blockSize length : Nat) (hblock : 0 < blockSize)
    (hlength : size [length] ≤ Shape.maxSize) : Iteration :=
  ⟨[length], ⟨0, [1]⟩ :: sources.map fun _ => ⟨0, [1]⟩, blockSize, hblock, hlength, 0,
    size [length], 0⟩

theorem inOrder_row (hready : k.WritesBeforeReads) (hblock : 0 < blockSize)
    (hlength : size [length] ≤ Shape.maxSize)
    (hw : Workspace.ofKernel k (k.prepare blockSize boundsCheck widths)
      (sources.map (Source.storage out.storage)) out.storage = .ok w) :
    InOrder ⟨k.prepare blockSize boundsCheck widths, sources, none⟩ k w out
      (row sources blockSize length hblock hlength) ⟨0, [1]⟩ (sources.map fun _ => ⟨0, [1]⟩) := by
  have hoffset : ∀ p < size [length], Strided.offset ⟨0, [1]⟩ [length] p = p := fun p hp =>
    (Strided.offset_contiguous 0 hlength hp).trans (Nat.zero_add p)
  have hstrides : ∀ op ∈ sources.map (fun _ => (⟨0, [1]⟩ : Strided)), op = ⟨0, [1]⟩ := by
    simp
  refine ⟨rfl, ⟨boundsCheck, widths, rfl⟩, hready, hw, rfl, List.length_map _, rfl,
    fun op hop => ?_, ⟨rfl, rfl⟩, hoffset, fun x hx _ => ?_⟩
  · rw [hstrides op hop]
    rfl
  · rw [hstrides x.1 (List.of_mem_zip hx).1]
    exact hoffset

end Row

attribute [local instance] Allocator.roomy Scheduler.inOrder

/-- Numbers are added to those of the output, on two threads. -/
theorem refines_runSerial_addLongs :
    let ev : Evaluation :=
      ⟨Kernel.addLongs.prepare 2 true [0, 0], [.array (NdArray.longs [5] [1, 2, 3, 4, 5]).data,
        .output], none⟩
    let out := (NdArray.longs [5] [10, 20, 30, 40, 50]).data
    let it := row ev.sources 2 5 (by decide) (by decide)
    ∃ w, Workspace.ofKernel .addLongs ev.prepared [.long, .long] .long = .ok w ∧
      taskSize? it.size it.blockSize 2 1 = some 4 ∧
      (ev.runParallel 2 w it out 2 1).2.2 = (runSerial ev.runPlain w out it).2 ∧
      (runSerial ev.runPlain w out it).2 = (NdArray.longs [5] [11, 22, 33, 44, 55]).data := by
  intro ev out it
  obtain ⟨w, hw, hrun⟩ := exists_eq_ok_of_any (x := Workspace.ofKernel .addLongs ev.prepared
      [.long, .long] .long)
    (P := fun w => (w.forThreads 2).toOption.isSome ∧ runSerial ev.runPlain w out it
      = (.ok (), (NdArray.longs [5] [11, 22, 33, 44, 55]).data)) (by decide +kernel)
  obtain ⟨hthreads, hserial⟩ := of_decide_eq_true hrun
  obtain ⟨buffers, hbuffers⟩ := exists_eq_ok_of_isSome hthreads
  have hn : taskSize? it.size it.blockSize 2 1 = some 4 := by decide +kernel
  have hsplits : ev.Splits .addLongs w out it ⟨0, [1]⟩ [⟨0, [1]⟩, ⟨0, [1]⟩] :=
    ⟨inOrder_row (by decide +kernel) (by decide) (by decide) hw, by decide +kernel,
      by decide +kernel⟩
  obtain ⟨-, -, -, -, houtput⟩ := hsplits.refines_runSerial (.refl _ w) 2 2 1 hn hbuffers
  exact ⟨w, hw, hn, (houtput (congrArg Prod.fst hserial)).1, congrArg Prod.snd hserial⟩

/-- Both conditions on lengths are needed. An array that ends early leaves the end
of a temporary as an earlier block of the same thread left it, and a pool refuses
an output that has more elements than there are positions. -/
theorem not_refines_runSerial :
    (¬ ∀ (ev : Evaluation) (k : Kernel) (w : Workspace) (out : Column) (it : Iteration)
        (output : Strided) (inputs : List Strided), ev.InOrder k w out it output inputs →
      out.size = it.size → ∀ poolThreads threads tasksPerThread n buffers,
        taskSize? it.size it.blockSize (min (max threads 1) (max poolThreads 1)) tasksPerThread
          = some n →
        w.forThreads (min (max threads 1) (max poolThreads 1)) = .ok buffers →
        (runSerial ev.runPlain w out it).1 = .ok () →
          (ev.runParallel poolThreads w it out threads tasksPerThread).2.2
            = (runSerial ev.runPlain w out it).2) ∧
    ¬ ∀ (ev : Evaluation) (k : Kernel) (w : Workspace) (out : Column) (it : Iteration)
        (output : Strided) (inputs : List Strided), ev.InOrder k w out it output inputs →
      (∀ x ∈ inputs.zip ev.sources, ∀ p < it.size, it.blockSize ∣ p →
        x.2.covers x.1 it.shape (it.blockAt p) = true) →
      ∀ poolThreads threads tasksPerThread n buffers,
        taskSize? it.size it.blockSize (min (max threads 1) (max poolThreads 1)) tasksPerThread
          = some n →
        w.forThreads (min (max threads 1) (max poolThreads 1)) = .ok buffers →
        (∃ e, (ev.runParallel poolThreads w it out threads tasksPerThread).1 = .error e) →
          ∃ e, (runSerial ev.runPlain w out it).1 = .error e := by
  let ev : Evaluation :=
    ⟨Kernel.copyThrough.prepare 4 true [0], [.array (NdArray.longs [4] [1, 2, 3, 4]).data], none⟩
  constructor
  -- the array ends before the second block, which then shows what the first one left
  · intro h
    let out := (NdArray.longs [8] [0, 0, 0, 0, 0, 0, 0, 0]).data
    let it := row ev.sources 4 8 (by decide) (by decide)
    obtain ⟨w, hw, hrun⟩ := exists_eq_ok_of_any (x := Workspace.ofKernel .copyThrough ev.prepared
        [.long] .long)
      (P := fun w => (w.forThreads 2).toOption.isSome ∧
        (runSerial ev.runPlain w out it).1 = .ok () ∧
        (ev.runParallel 2 w it out 2 1).2.2 ≠ (runSerial ev.runPlain w out it).2)
      (by decide +kernel)
    obtain ⟨hthreads, hserial, hother⟩ := of_decide_eq_true hrun
    obtain ⟨buffers, hbuffers⟩ := exists_eq_ok_of_isSome hthreads
    have hinOrder : ev.InOrder .copyThrough w out it ⟨0, [1]⟩ [⟨0, [1]⟩] :=
      inOrder_row (by decide +kernel) (by decide) (by decide) hw
    exact hother (h ev _ w out it _ _ hinOrder (by decide +kernel) 2 2 1 4 buffers
      (by decide +kernel) hbuffers hserial)
  -- five elements, four positions
  · intro h
    let out := (NdArray.longs [5] [0, 0, 0, 0, 0]).data
    let it := row ev.sources 4 4 (by decide) (by decide)
    obtain ⟨w, hw, hrun⟩ := exists_eq_ok_of_any (x := Workspace.ofKernel .copyThrough ev.prepared
        [.long] .long)
      (P := fun w => (w.forThreads 2).toOption.isSome ∧
        (runSerial ev.runPlain w out it).1 = .ok () ∧
        (ev.runParallel 2 w it out 2 1).1 = .error (.shape (.outputSize 5 4)))
      (by decide +kernel)
    obtain ⟨hthreads, hserial, hrefused⟩ := of_decide_eq_true hrun
    obtain ⟨buffers, hbuffers⟩ := exists_eq_ok_of_isSome hthreads
    have hinOrder : ev.InOrder .copyThrough w out it ⟨0, [1]⟩ [⟨0, [1]⟩] :=
      inOrder_row (by decide +kernel) (by decide) (by decide) hw
    obtain ⟨e, herror⟩ := h ev _ w out it _ _ hinOrder (by decide +kernel) 2 2 1 4 buffers
      (by decide +kernel) hbuffers ⟨_, hrefused⟩
    rw [hserial] at herror
    cases herror

end Evaluation

end Lanewise
