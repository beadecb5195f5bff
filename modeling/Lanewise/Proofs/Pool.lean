import Lanewise.Pool
import Lanewise.Proofs.Registers

/-!
# Pools under any schedule

What a turn can do is said once (`PoolRun.Turned`). Tasks own their parts of the
output and leave the buffers of their thread usable, so it does not matter in
which order threads take their turns. The invariant of a run (`PoolRun.Sound`)
says of every part whether its task is still to come or done; a turn keeps it
(`Sound.step`), hence a schedule does (`Sound.follow`). A finished run has all
tasks done, or reports a failure, and then some task does fail
(`Sound.of_isFinished`).
-/

namespace Lanewise

/-! ## Parts of a column -/

namespace Column

variable {c : Column}

theorem slice_min (c : Column) (start stop : Nat) :
    c.slice start stop = c.slice start (min stop c.size) := by
  have hcells : c.cells.extract start stop = c.cells.extract start (min stop c.size) := by
    rw [Array.extract_eq_extract_right, size]
    omega
  exact congrArg (Column.mk c.storage) hcells

/-- The part with a number. -/
theorem getElem?_chunks {n i : Nat} (hn : 0 < n) {part : Column}
    (h : (c.chunks n)[i]? = some part) :
    part.storage = c.storage ∧ i * n + part.size ≤ c.size ∧ part.size ≤ n ∧
      ∀ p, i * n ≤ p → p < i * n + part.size → part.lane (p - i * n) = c.lane p := by
  have hmax : max n 1 = n := Nat.max_eq_left hn
  simp only [chunks, hmax, List.getElem?_map, Option.map_eq_some_iff] at h
  obtain ⟨_, hi, rfl⟩ := h
  obtain ⟨hlt, rfl⟩ := List.getElem?_eq_some_iff.1 hi
  rw [List.length_range] at hlt
  simp only [List.getElem_range] at hi ⊢
  have hstart : i * n < c.size := by
    have := (Nat.lt_div_iff_mul_lt hn).1 hlt
    have := Nat.mul_comm i n
    omega
  rw [slice_min]
  have hsize : (c.slice (i * n) (min (i * n + n) c.size)).size = min (i * n + n) c.size - i * n :=
    size_slice (Nat.min_le_right _ _)
  refine ⟨rfl, by omega, by omega, fun p hp hlt => ?_⟩
  rw [lane_slice (Nat.min_le_right _ _) (by omega), Nat.add_sub_cancel' hp]

/-- Every element is in a part. -/
theorem exists_chunk {n q : Nat} (hn : 0 < n) (hq : q < c.size) :
    ∃ part, (c.chunks n)[q / n]? = some part ∧ q % n < part.size := by
  have hmod := Nat.mod_lt q hn
  have hsplit : q / n * n + q % n = q := Nat.div_add_mod' q n
  have hlt : q / n < (c.size + n - 1) / n := by
    have := Nat.mul_comm (q / n) n
    rw [Nat.lt_div_iff_mul_lt hn]
    omega
  have hchunk : (c.chunks n)[q / n]? = some (c.slice (q / n * n) (q / n * n + n)) := by
    simp [chunks, Nat.max_eq_left hn, List.getElem?_range hlt]
  refine ⟨_, hchunk, ?_⟩
  rw [slice_min, size_slice (Nat.min_le_right _ _)]
  omega

/-- Parts put in place one after the other, from part `first` on. -/
theorem foldl_write (parts : List Column) (first n : Nat) (out : Column)
    (hparts : ∀ i part, parts[i]? = some part → part.storage = out.storage ∧
      (first + i) * n + part.size ≤ out.size ∧ part.size ≤ n) :
    let result := (parts.zipIdx first).foldl
      (fun out (part, task) => (out.write (task * n) part).1) out
    out.Alike result ∧ (∀ q < first * n, result.lane q = out.lane q) ∧
      ∀ i part, parts[i]? = some part → ∀ j < part.size,
        result.lane ((first + i) * n + j) = part.lane j := by
  induction parts generalizing first out with
  | nil => exact ⟨.refl _, fun _ _ => rfl, by simp⟩
  | cons part parts ih =>
    obtain ⟨hstorage, hin, hle⟩ := hparts 0 part rfl
    rw [Nat.add_zero] at hin
    have hwrite := (write_replaced _ _ _ hstorage hin).2
    obtain ⟨halike, hbefore, hafter⟩ := ih (first + 1)
      (out.write (first * n) part).1 fun i p hp => by
        rw [hwrite.storage, hwrite.size, Nat.add_right_comm, Nat.add_assoc first]
        exact hparts (i + 1) p hp
    have hstep : (first + 1) * n = first * n + n := Nat.succ_mul first n
    refine ⟨hwrite.alike.trans halike, fun q hq => ?_, fun i p hp j hj => ?_⟩
    · refine (hbefore q (by omega)).trans (hwrite.elsewhere q ?_)
      rw [List.mem_range'_1]
      omega
    · cases i with
      | zero =>
        cases hp
        refine (hbefore _ (by rw [Nat.add_zero]; omega)).trans ?_
        have := hwrite.at_position j (by simpa using hj)
        rwa [List.getElem_range', Nat.one_mul] at this
      | succ i =>
        rw [← Nat.add_assoc, Nat.add_right_comm]
        exact hafter i p hp j hj

end Column

/-! ## Buffers for threads -/

section Buffers

variable [Allocator] {w w' : Workspace}

/-- Buffers of one more thread have the registers of the first one, and columns of the same
kinds. -/
theorem Workspace.of_fork (h : w.fork = .ok w') :
    w'.registers = w.registers ∧ List.Forall₂ Column.Alike w.staging w'.staging ∧
      w'.scratch = .fresh w.scratch.storage w.scratch.size := by
  obtain ⟨regs, hregs, h⟩ := bind_eq_ok_iff.1 h
  obtain ⟨staging, hstaging, h⟩ := bind_eq_ok_iff.1 h
  obtain ⟨scratch, hscratch, heq⟩ := bind_eq_ok_iff.1 h
  cases heq
  refine ⟨RegisterFile.eq_of_tryClone hregs, ?_, Column.eq_fresh_of_zeros hscratch⟩
  refine (mapM_eq_ok_iff.1 hstaging).imp fun c c' hc => ?_
  rw [Column.eq_fresh_of_zeros hc]
  exact ⟨rfl, Column.size_fresh _ _⟩

/-- The first thread has the buffers that were given, the others have copies. -/
theorem Workspace.of_forThreads {threads : Nat} {buffers : List Workspace}
    (h : w.forThreads threads = .ok buffers) (hthreads : 0 < threads) :
    buffers.length = threads ∧ buffers[0]? = some w ∧
      ∀ b ∈ buffers, b = w ∨ w.fork = .ok b := by
  obtain ⟨copies, hcopies, heq⟩ := bind_eq_ok_iff.1 h
  cases heq
  have hforks := mapM_eq_ok_iff.1 hcopies
  have hcount : copies.length = threads - 1 := by
    rw [← hforks.length_eq, List.length_replicate]
  refine ⟨by rw [List.length_cons, hcount]; omega, rfl, fun b hb => ?_⟩
  rcases List.mem_cons.1 hb with rfl | hb
  · exact .inl rfl
  · obtain ⟨a, ha, hfork⟩ := exists_of_mem_of_forall₂ hforks hb
    rw [List.eq_of_mem_replicate ha] at hfork
    exact .inr hfork

theorem Workspace.exists_forThreads (h : w.fork = .ok w') (threads : Nat) :
    ∃ buffers, w.forThreads threads = .ok buffers := by
  have hcopies : (List.replicate (threads - 1) w).mapM Workspace.fork
      = .ok (List.replicate (threads - 1) w') := by
    rw [mapM_eq_ok_iff, List.forall₂_iff_get]
    simpa using fun _ _ => h
  exact ⟨_, bind_eq_ok_iff.2 ⟨_, hcopies, rfl⟩⟩

end Buffers

/-- The walk of a task that has the positions from `start` up to `stop`. -/
def Iteration.within (it : Iteration) (start stop : Nat) : Iteration :=
  { it with start, stop, position := start }

namespace PoolRun

variable {ev : Evaluation} {it : Iteration} {n threads : Nat} {run : PoolRun} {turn : Turn}
  {buffers : List Workspace}

/-! ## Turns -/

section Task

variable {start : Nat} {w : Workspace} {part : Column} {t : Traversal}

/-- The positions that go with a part are a range of the walk. -/
theorem setRange_part (hin : start + part.size ≤ it.size) :
    it.setRange start (start + part.size) = .ok (it.within start (start + part.size)) :=
  if_pos ⟨Nat.le_add_right _ _, hin⟩

theorem runTask_eq_ok (hin : start + part.size ≤ it.size)
    (hrun : ev.runPlain ⟨w, ⟨part, start⟩, it.within start (start + part.size)⟩ = .ok () t) :
    runTask ev it start w part = (.ok (), t.workspace, t.sink.data) := by
  simp only [runTask, setRange_part hin, EStateM.run, hrun]

theorem runTask_eq_error (hin : start + part.size ≤ it.size) {e : EvalError}
    (hrun : ev.runPlain ⟨w, ⟨part, start⟩, it.within start (start + part.size)⟩ = .error e t) :
    runTask ev it start w part = (.error e, t.workspace, t.sink.data) := by
  simp only [runTask, setRange_part hin, EStateM.run, hrun]

end Task

/-- A run that has one more failure has failed. -/
theorem isSome_addFailure (failure? : Option EvalError) (e : EvalError) :
    (addFailure failure? e).isSome := by
  unfold addFailure
  split
  · rfl
  · cases failure? <;> rfl

/-- What a turn makes of a run. -/
inductive Turned (ev : Evaluation) (it : Iteration) (n : Nat) (run : PoolRun) (turn : Turn) :
    PoolRun → Prop
  /-- There is no such thread, or it has nothing left to do. -/
  | idle (hidle : ∀ worker, run.workers[turn.thread]? = some worker → worker.pending = []) :
    Turned ev it n run turn run
  /-- The thread was told of a failure and gives up. -/
  | told {w : Workspace} {task : Nat} {rest : List Nat}
    (hworker : run.workers[turn.thread]? = some ⟨w, task :: rest⟩)
    (hfailure : run.failure?.isSome) :
    Turned ev it n run turn
      ⟨run.workers.setIfInBounds turn.thread ⟨w, []⟩, run.parts, run.failure?⟩
  /-- No part goes with the task. -/
  | missing {w : Workspace} {task : Nat} {rest : List Nat}
    (hworker : run.workers[turn.thread]? = some ⟨w, task :: rest⟩)
    (hpart : run.parts[task]? = none) :
    Turned ev it n run turn
      ⟨run.workers.setIfInBounds turn.thread ⟨w, rest⟩, run.parts, run.failure?⟩
  | done {w w' : Workspace} {task : Nat} {rest : List Nat} {part part' : Column}
    (hworker : run.workers[turn.thread]? = some ⟨w, task :: rest⟩)
    (hpart : run.parts[task]? = some part)
    (hrun : runTask ev it (task * n) w part = (.ok (), w', part')) :
    Turned ev it n run turn ⟨run.workers.setIfInBounds turn.thread ⟨w', rest⟩,
      run.parts.setIfInBounds task part', run.failure?⟩
  | failed {w w' : Workspace} {task : Nat} {rest : List Nat} {part part' : Column} {e : EvalError}
    (hworker : run.workers[turn.thread]? = some ⟨w, task :: rest⟩)
    (hpart : run.parts[task]? = some part)
    (hrun : runTask ev it (task * n) w part = (.error e, w', part')) :
    Turned ev it n run turn ⟨run.workers.setIfInBounds turn.thread ⟨w', []⟩,
      run.parts.setIfInBounds task part', addFailure run.failure? e⟩

theorem turned_step (ev : Evaluation) (it : Iteration) (n : Nat) (run : PoolRun) (turn : Turn) :
    Turned ev it n run turn (step ev it n run turn) := by
  obtain ⟨workers, parts, failure?⟩ := run
  cases hworker : workers[turn.thread]? with
  | none =>
    simp only [step, hworker]
    exact .idle fun worker h => by rw [hworker] at h; cases h
  | some worker =>
    obtain ⟨w, pending⟩ := worker
    cases pending with
    | nil =>
      simp only [step, hworker]
      exact .idle fun worker h => by rw [hworker] at h; cases h; rfl
    | cons task rest =>
      by_cases htold : (turn.informed && failure?.isSome) = true
      · simp only [step, hworker, if_pos htold]
        exact .told hworker (Bool.and_eq_true_iff.1 htold).2
      simp only [step, hworker, if_neg htold]
      cases hpart : parts[task]? with
      | none => exact .missing hworker hpart
      | some part =>
        obtain ⟨⟨result, w', part'⟩, hrun⟩ : ∃ outcome, runTask ev it (task * n) w part = outcome :=
          ⟨_, rfl⟩
        simp only [hrun]
        cases result with
        | ok _ =>
          exact @Turned.done _ _ _ ⟨workers, parts, failure?⟩ _ _ _ _ _ _ _ hworker hpart hrun
        | error e =>
          exact @Turned.failed _ _ _ ⟨workers, parts, failure?⟩ _ _ _ _ _ _ _ _ hworker hpart
            hrun

/-- A thread without tasks changes nothing. -/
theorem step_idle
    (hidle : ∀ worker, run.workers[turn.thread]? = some worker → worker.pending = []) :
    step ev it n run turn = run := by
  generalize hnext : step ev it n run turn = next
  cases hnext ▸ turned_step ev it n run turn with
  | idle => rfl
  | told hworker | missing hworker | done hworker | failed hworker => cases hidle _ hworker

/-- A task that goes well, in a run without failures. -/
theorem step_done {w w' : Workspace} {task : Nat} {rest : List Nat} {part part' : Column}
    (hworker : run.workers[turn.thread]? = some ⟨w, task :: rest⟩) (hfailure : run.failure? = none)
    (hpart : run.parts[task]? = some part)
    (hrun : runTask ev it (task * n) w part = (.ok (), w', part')) :
    step ev it n run turn = ⟨run.workers.setIfInBounds turn.thread ⟨w', rest⟩,
      run.parts.setIfInBounds task part', none⟩ := by
  obtain ⟨workers, parts, failure?⟩ := run
  obtain rfl : failure? = none := hfailure
  have hworker : workers[turn.thread]? = some ⟨w, task :: rest⟩ := hworker
  have hpart : parts[task]? = some part := hpart
  simp only [step, hworker, hpart, hrun, Option.isSome_none, Bool.and_false, Bool.false_eq_true,
    if_false]

/-- A thread other than the one that was replaced is as it was. -/
theorem workers_of_setIfInBounds {workers : Array Worker} {i j : Nat} {new worker : Worker}
    (h : (workers.setIfInBounds i new)[j]? = some worker) :
    (j = i ∧ worker = new) ∨ (j ≠ i ∧ workers[j]? = some worker) := by
  rw [Array.getElem?_setIfInBounds] at h
  split at h
  · next heq =>
    rw [Option.ite_none_right_eq_some] at h
    cases h.2
    exact .inl ⟨heq.symm, rfl⟩
  · next hne => exact .inr ⟨Ne.symm hne, h⟩

/-- A turn takes tasks from its own thread only, and the first one at least. -/
theorem pending_step {i : Nat} {worker : Worker}
    (h : (step ev it n run turn).workers[i]? = some worker) :
    (i ≠ turn.thread ∧ run.workers[i]? = some worker) ∨
      ∃ old, i = turn.thread ∧ run.workers[i]? = some old ∧
        (worker.pending = [] ∨ worker.pending = old.pending.tail) := by
  have hset : ∀ {old new : Worker}, run.workers[turn.thread]? = some old →
      (run.workers.setIfInBounds turn.thread new)[i]? = some worker →
      (new.pending = [] ∨ new.pending = old.pending.tail) →
      (i ≠ turn.thread ∧ run.workers[i]? = some worker) ∨
        ∃ old, i = turn.thread ∧ run.workers[i]? = some old ∧
          (worker.pending = [] ∨ worker.pending = old.pending.tail) := by
    intro old new hold hnew hpending
    rcases workers_of_setIfInBounds hnew with ⟨rfl, rfl⟩ | ⟨hne, hsame⟩
    · exact .inr ⟨old, rfl, hold, hpending⟩
    · exact .inl ⟨hne, hsame⟩
  generalize hnext : step ev it n run turn = next at h
  cases hnext ▸ turned_step ev it n run turn with
  | idle hidle =>
    by_cases hi : i = turn.thread
    · exact .inr ⟨worker, hi, h, .inl (hidle worker (hi ▸ h))⟩
    · exact .inl ⟨hi, h⟩
  | told hworker => exact hset hworker h (.inl rfl)
  | missing hworker => exact hset hworker h (.inr rfl)
  | done hworker => exact hset hworker h (.inr rfl)
  | failed hworker => exact hset hworker h (.inl rfl)

/-! ## Who has which task -/

/-- Each thread has none but its own of the tasks from `first` on, in order. -/
def Dealt (threads first count : Nat) (run : PoolRun) : Prop :=
  ∀ (i : Nat) (worker : Worker), run.workers[i]? = some worker →
    worker.pending.Sublist ((List.range' first count).filter fun task => task % threads = i)

theorem mem_tasksOf {thread threads tasks task : Nat} :
    task ∈ tasksOf thread threads tasks ↔ task < tasks ∧ task % threads = thread := by
  simp [tasksOf]

theorem Dealt.step {first count : Nat} (h : run.Dealt threads first count) :
    (PoolRun.step ev it n run turn).Dealt threads first count := by
  intro i worker hworker
  rcases pending_step hworker with ⟨-, hsame⟩ | ⟨old, -, hold, hnil | htail⟩
  · exact h i worker hsame
  · rw [hnil]
    exact List.nil_sublist _
  · rw [htail]
    exact (List.tail_sublist _).trans (h i old hold)

theorem Dealt.follow {first count : Nat} (h : run.Dealt threads first count)
    (schedule : List Turn) : (PoolRun.follow ev it n run schedule).Dealt threads first count := by
  induction schedule generalizing run with
  | nil => exact h
  | cons turn schedule ih => exact ih h.step

/-- A thread before its first turn. -/
theorem worker_start {out : Column} {i : Nat} {worker : Worker}
    (hworker : (PoolRun.start buffers out n).workers[i]? = some worker) :
    buffers[i]? = some worker.workspace ∧
      worker.pending = tasksOf i buffers.length (out.chunks n).length := by
  simp only [PoolRun.start, Array.getElem?_mapIdx, Option.map_eq_some_iff] at hworker
  obtain ⟨w, hw, rfl⟩ := hworker
  exact ⟨by simpa using hw, by simp⟩

theorem size_workers_start (buffers : List Workspace) (out : Column) (n : Nat) :
    (PoolRun.start buffers out n).workers.size = buffers.length := by
  simp [PoolRun.start]

theorem dealt_start (buffers : List Workspace) (out : Column) (n : Nat) :
    (PoolRun.start buffers out n).Dealt buffers.length 0 (out.chunks n).length := by
  intro i worker hworker
  rw [(worker_start hworker).2, tasksOf, List.range_eq_range']

/-- Every turn of a thread takes one of its tasks, while there are any. -/
theorem length_pending_follow (schedule : List Turn) {i : Nat} {worker : Worker}
    (h : (PoolRun.follow ev it n run schedule).workers[i]? = some worker) :
    ∃ old, run.workers[i]? = some old ∧ worker.pending.length
      ≤ old.pending.length - schedule.countP fun turn => turn.thread = i := by
  induction schedule generalizing run with
  | nil => exact ⟨worker, h, Nat.le_refl _⟩
  | cons turn schedule ih =>
    obtain ⟨next, hnext, hlen⟩ := ih h
    rw [List.countP_cons]
    rcases pending_step hnext with ⟨hne, hsame⟩ | ⟨old, rfl, hold, hpending⟩
    · refine ⟨next, hsame, ?_⟩
      rwa [if_neg (by simpa using Ne.symm hne), Nat.add_zero]
    · refine ⟨old, hold, Nat.le_trans hlen ?_⟩
      rw [if_pos (by simp)]
      rcases hpending with hnil | htail
      · rw [hnil, List.length_nil]
        omega
      · rw [htail, List.length_tail]
        omega

/-- A run is finished when each thread had as many turns as it had tasks, whatever
became of them. -/
theorem isFinished_follow (ev : Evaluation) (it : Iteration) (n : Nat) (out : Column)
    {schedule : List Turn} (henough : ∀ thread < buffers.length,
      (tasksOf thread buffers.length (out.chunks n).length).length
        ≤ schedule.countP fun turn => turn.thread = thread) :
    (PoolRun.follow ev it n (PoolRun.start buffers out n) schedule).isFinished = true := by
  rw [isFinished, Array.all_eq_true]
  intro i hi
  obtain ⟨old, hold, hlen⟩ := length_pending_follow schedule (Array.getElem?_eq_getElem hi)
  obtain ⟨hbuffer, hpending⟩ := worker_start hold
  have hturns := henough i (List.getElem?_eq_some_iff.1 hbuffer).1
  rw [hpending] at hlen
  rw [List.isEmpty_iff, ← List.length_eq_zero_iff]
  omega

/-! ## The invariant -/

/-- What a task does whenever a thread gets to it: it goes well, leaves the
buffers usable and its part done, or it is one of those that fail. -/
def TasksEnd (ev : Evaluation) (it : Iteration) (n : Nat) (parts : List Column)
    (Usable : Workspace → Prop) (Done : Nat → Column → Prop) (Fails : Nat → Prop) : Prop :=
  ∀ task part w, parts[task]? = some part → Usable w →
    (∃ w' part', runTask ev it (task * n) w part = (.ok (), w', part') ∧ Usable w' ∧
      part.Alike part' ∧ Done task part') ∨
    ∃ e w' part', runTask ev it (task * n) w part = (.error e, w', part') ∧ Fails task

/-- A part with elements as they are asked for, by their place in the output. -/
def Delivered (n : Nat) (Result : Nat → Lane → Prop) (task : Nat) (part : Column) : Prop :=
  ∀ p, task * n ≤ p → p < task * n + part.size → Result p (part.lane (p - task * n))

/-- Whether a task is still to come. -/
def IsPending (run : PoolRun) (threads task : Nat) : Prop :=
  ∃ worker, run.workers[task % threads]? = some worker ∧ task ∈ worker.pending

/-- Each part is as it was before its task, or as the task left it. Parts do not
matter once there was a failure. -/
structure Sound (threads : Nat) (parts : List Column) (Usable : Workspace → Prop)
    (Done : Nat → Column → Prop) (Fails : Nat → Prop) (run : PoolRun) : Prop where
  dealt : run.Dealt threads 0 parts.length
  usable : ∀ (i : Nat) (worker : Worker), run.workers[i]? = some worker →
    worker.pending ≠ [] ∨ run.failure? = none → Usable worker.workspace
  count : run.parts.size = parts.length
  todo : ∀ task part, parts[task]? = some part → run.IsPending threads task →
    run.parts[task]? = some part
  done : ∀ task part, parts[task]? = some part → run.failure? = none →
    ¬ run.IsPending threads task →
      ∃ part', run.parts[task]? = some part' ∧ part.Alike part' ∧ Done task part'
  failure : run.failure?.isSome → ∃ task part, parts[task]? = some part ∧ Fails task

variable {parts : List Column} {Usable : Workspace → Prop} {Done : Nat → Column → Prop}
  {Fails : Nat → Prop}

/-- The task that a thread starts with is its own, and comes once. -/
theorem Sound.own_task {i task : Nat} {rest : List Nat} {w : Workspace}
    (h : run.Sound threads parts Usable Done Fails)
    (hworker : run.workers[i]? = some ⟨w, task :: rest⟩) :
    task < parts.length ∧ task % threads = i ∧ task ∉ rest := by
  have hsub := h.dealt i _ hworker
  have hnodup : (task :: rest).Nodup := hsub.nodup ((List.nodup_range').filter _)
  have hmem := hsub.subset (.head _)
  rw [List.mem_filter, List.mem_range'_1, decide_eq_true_eq] at hmem
  exact ⟨by omega, hmem.2, (List.nodup_cons.1 hnodup).1⟩

/-- The part of a task that is still to come is the one it is meant for. -/
theorem Sound.next_task {i task : Nat} {rest : List Nat} {w : Workspace}
    (h : run.Sound threads parts Usable Done Fails)
    (hworker : run.workers[i]? = some ⟨w, task :: rest⟩) :
    ∃ part, parts[task]? = some part ∧ run.parts[task]? = some part ∧ Usable w ∧
      task % threads = i := by
  obtain ⟨hlt, hmod, -⟩ := h.own_task hworker
  have hpart := List.getElem?_eq_getElem hlt
  exact ⟨_, hpart, h.todo task _ hpart ⟨_, by rw [hmod]; exact hworker, .head _⟩,
    h.usable _ _ hworker (.inl (List.cons_ne_nil _ _)), hmod⟩

/-- What is pending when a thread got other tasks. -/
theorem isPending_set_iff {i : Nat} (hi : i < run.workers.size) {new : Worker}
    {parts' : Array Column} {failure? : Option EvalError} (task : Nat) :
    IsPending ⟨run.workers.setIfInBounds i new, parts', failure?⟩ threads task ↔
      if task % threads = i then task ∈ new.pending else run.IsPending threads task := by
  unfold IsPending
  by_cases htask : task % threads = i
  · subst htask
    simp [hi]
  · rw [if_neg htask, Array.getElem?_setIfInBounds, if_neg (Ne.symm htask)]

/-- When a thread has done its next task, that one is no longer pending, and the others
are as before. -/
theorem Sound.isPending_done_iff {i task : Nat} {rest : List Nat} {w w' : Workspace}
    {parts' : Array Column} (h : run.Sound threads parts Usable Done Fails)
    (hworker : run.workers[i]? = some ⟨w, task :: rest⟩) (other : Nat) :
    IsPending ⟨run.workers.setIfInBounds i ⟨w', rest⟩, parts', run.failure?⟩ threads other ↔
      run.IsPending threads other ∧ other ≠ task := by
  obtain ⟨-, hmod, hrest⟩ := h.own_task hworker
  rw [isPending_set_iff (Array.getElem?_eq_some_iff.1 hworker).1]
  by_cases hother : other % threads = i
  · rw [if_pos hother]
    have hold : run.IsPending threads other ↔ other ∈ task :: rest := by
      simp [IsPending, hother, hworker]
    rw [hold, List.mem_cons]
    constructor
    · exact fun hmem => ⟨.inr hmem, fun heq => hrest (heq ▸ hmem)⟩
    · exact fun ⟨hmem, hne⟩ => hmem.resolve_left hne
  · rw [if_neg hother]
    exact ⟨fun hold => ⟨hold, fun heq => hother (heq ▸ hmod)⟩, And.left⟩

/-- A thread that does its next task. -/
theorem Sound.set_done {i task : Nat} {rest : List Nat} {w w' : Workspace} {part part' : Column}
    (h : run.Sound threads parts Usable Done Fails)
    (hworker : run.workers[i]? = some ⟨w, task :: rest⟩)
    (hpart : parts[task]? = some part) (hw' : Usable w') (halike : part.Alike part')
    (hdone : Done task part')
    (hdealt : Dealt threads 0 parts.length ⟨run.workers.setIfInBounds i ⟨w', rest⟩,
      run.parts.setIfInBounds task part', run.failure?⟩) :
    Sound threads parts Usable Done Fails ⟨run.workers.setIfInBounds i ⟨w', rest⟩,
      run.parts.setIfInBounds task part', run.failure?⟩ := by
  have hpending : ∀ other, IsPending ⟨run.workers.setIfInBounds i ⟨w', rest⟩,
      run.parts.setIfInBounds task part', run.failure?⟩ threads other ↔
        run.IsPending threads other ∧ other ≠ task := h.isPending_done_iff hworker
  refine ⟨hdealt, ?_, ?_, ?_, ?_, h.failure⟩
  · intro j worker hj hne
    rcases workers_of_setIfInBounds hj with ⟨-, rfl⟩ | ⟨-, hj⟩
    · exact hw'
    · exact h.usable j worker hj hne
  · rw [Array.size_setIfInBounds]
    exact h.count
  · intro other p hp hstill
    obtain ⟨hold, hne⟩ := (hpending other).1 hstill
    rw [Array.getElem?_setIfInBounds, if_neg (Ne.symm hne)]
    exact h.todo other p hp hold
  · intro other p hp hok hnot
    by_cases hne : other = task
    · subst hne
      obtain rfl : p = part := Option.some.inj (hp.symm.trans hpart)
      have hlt : other < run.parts.size := by
        rw [h.count]
        exact (h.own_task hworker).1
      exact ⟨part', by simp [hlt], halike, hdone⟩
    · obtain ⟨p', hp', hrest⟩ := h.done other p hp hok fun hold =>
        hnot ((hpending other).2 ⟨hold, hne⟩)
      refine ⟨p', ?_, hrest⟩
      rw [Array.getElem?_setIfInBounds, if_neg (Ne.symm hne)]
      exact hp'

/-- A thread that gives up, after a failure of its own or of another one. -/
theorem Sound.set_givenUp {i : Nat} {worker : Worker} {w' : Workspace} {parts' : Array Column}
    {failure? : Option EvalError} (h : run.Sound threads parts Usable Done Fails)
    (hworker : run.workers[i]? = some worker)
    (hcount : parts'.size = run.parts.size)
    (hparts : ∀ task : Nat, task % threads ≠ i → parts'[task]? = run.parts[task]?)
    (hsome : failure?.isSome) (hfails : ∃ task part, parts[task]? = some part ∧ Fails task)
    (hdealt : Dealt threads 0 parts.length
      ⟨run.workers.setIfInBounds i ⟨w', []⟩, parts', failure?⟩) :
    Sound threads parts Usable Done Fails
      ⟨run.workers.setIfInBounds i ⟨w', []⟩, parts', failure?⟩ := by
  have hi : i < run.workers.size := (Array.getElem?_eq_some_iff.1 hworker).1
  refine ⟨hdealt, ?_, hcount.trans h.count, ?_, ?_, fun _ => hfails⟩
  · intro j worker hj hwhen
    have hne : worker.pending ≠ [] := by
      rcases hwhen with hne | hnone
      · exact hne
      · have hnone : failure? = none := hnone
        rw [hnone] at hsome
        cases hsome
    rcases workers_of_setIfInBounds hj with ⟨-, rfl⟩ | ⟨-, hj⟩
    · exact absurd rfl hne
    · exact h.usable j worker hj (.inl hne)
  · intro task part hpart hstill
    rw [isPending_set_iff hi] at hstill
    by_cases htask : task % threads = i
    · rw [if_pos htask] at hstill
      cases hstill
    · rw [if_neg htask] at hstill
      exact (hparts task htask).trans (h.todo task part hpart hstill)
  · intro task part _ hnone
    have hnone : failure? = none := hnone
    rw [hnone] at hsome
    cases hsome

/-- A turn keeps the invariant. -/
theorem Sound.step (htasks : TasksEnd ev it n parts Usable Done Fails)
    (h : run.Sound threads parts Usable Done Fails) (turn : Turn) :
    (PoolRun.step ev it n run turn).Sound threads parts Usable Done Fails := by
  have hdealt : (PoolRun.step ev it n run turn).Dealt threads 0 parts.length := h.dealt.step
  generalize hnext : PoolRun.step ev it n run turn = next at hdealt ⊢
  cases hnext ▸ turned_step ev it n run turn with
  | idle => exact h
  | told hworker hfailure =>
    exact h.set_givenUp hworker rfl (fun _ _ => rfl) hfailure (h.failure hfailure) hdealt
  | missing hworker hnone =>
    obtain ⟨part, -, hpart, -⟩ := h.next_task hworker
    rw [hnone] at hpart
    cases hpart
  | done hworker hpart hrun =>
    obtain ⟨part, hown, hsame, husable, -⟩ := h.next_task hworker
    obtain rfl := Option.some.inj (hsame.symm.trans hpart)
    rcases htasks _ _ _ hown husable with
      ⟨w', part', hends, hw', halike, hdone⟩ | ⟨e, w', part', hends, -⟩
    · cases hrun.symm.trans hends
      exact h.set_done hworker hown hw' halike hdone hdealt
    · cases hrun.symm.trans hends
  | failed hworker hpart hrun =>
    obtain ⟨part, hown, hsame, husable, hmod⟩ := h.next_task hworker
    obtain rfl := Option.some.inj (hsame.symm.trans hpart)
    rcases htasks _ _ _ hown husable with
      ⟨w', part', hends, -⟩ | ⟨e, w', part', hends, hfails⟩
    · cases hrun.symm.trans hends
    · refine h.set_givenUp hworker (Array.size_setIfInBounds) (fun other hother => ?_)
        (isSome_addFailure _ _) ⟨_, _, hown, hfails⟩ hdealt
      rw [Array.getElem?_setIfInBounds, if_neg]
      rintro rfl
      exact hother hmod

theorem Sound.follow (htasks : TasksEnd ev it n parts Usable Done Fails)
    (h : run.Sound threads parts Usable Done Fails) (schedule : List Turn) :
    (PoolRun.follow ev it n run schedule).Sound threads parts Usable Done Fails := by
  induction schedule generalizing run with
  | nil => exact h
  | cons turn schedule ih => exact ih (h.step htasks turn)

/-- Where no task fails, there is no failure. -/
theorem Sound.failure?_eq_none (h : run.Sound threads parts Usable Done fun _ => False) :
    run.failure? = none := by
  cases hfailure : run.failure? with
  | none => rfl
  | some e =>
    obtain ⟨_, _, -, hfails⟩ := h.failure (by rw [hfailure]; rfl)
    exact hfails.elim

theorem not_isPending_of_isFinished (hfinished : run.isFinished = true) (task : Nat) :
    ¬ run.IsPending threads task := by
  rintro ⟨worker, hworker, hmem⟩
  rw [isFinished, Array.all_eq_true] at hfinished
  obtain ⟨hlt, rfl⟩ := Array.getElem?_eq_some_iff.1 hworker
  have := hfinished _ hlt
  rw [List.isEmpty_iff] at this
  rw [this] at hmem
  cases hmem

/-- In a finished run all tasks are done, unless one failed. -/
theorem Sound.of_isFinished (h : run.Sound threads parts Usable Done Fails)
    (hfinished : run.isFinished = true) :
    (run.failure? = none ∧ ∀ task part, parts[task]? = some part →
      ∃ part', run.parts[task]? = some part' ∧ part.Alike part' ∧ Done task part') ∨
    (run.failure?.isSome ∧ ∃ task part, parts[task]? = some part ∧ Fails task) := by
  cases hfailure : run.failure? with
  | none =>
    exact .inl ⟨rfl, fun task part hpart =>
      h.done task part hpart hfailure (not_isPending_of_isFinished hfinished task)⟩
  | some e => exact .inr ⟨rfl, h.failure (by rw [hfailure]; rfl)⟩

/-! ## A whole run -/

/-- A pool before its first turn. -/
theorem sound_start (out : Column) (n : Nat) (hthreads : 0 < buffers.length)
    (hbuffers : ∀ w ∈ buffers, Usable w) :
    (PoolRun.start buffers out n).Sound buffers.length (out.chunks n) Usable Done Fails := by
  refine ⟨dealt_start _ _ _, fun i worker hi _ => ?_, List.size_toArray,
    fun task part hpart _ => by simpa [PoolRun.start] using hpart,
    fun task part hpart _ hnot => ?_, fun hsome => by cases hsome⟩
  · exact hbuffers _ (List.mem_of_getElem? (worker_start hi).1)
  · have hlt : task % buffers.length < (PoolRun.start buffers out n).workers.size := by
      rw [size_workers_start]
      exact Nat.mod_lt task hthreads
    have hworker := Array.getElem?_eq_getElem hlt
    refine absurd ⟨_, hworker, ?_⟩ hnot
    rw [(worker_start hworker).2]
    exact mem_tasksOf.2 ⟨(List.getElem?_eq_some_iff.1 hpart).1, rfl⟩

/-- The parts of a finished run without failures, put back into the output. -/
theorem Sound.output {out : Column} {Result : Nat → Lane → Prop} (hn : 0 < n)
    (h : run.Sound threads (out.chunks n) Usable (Delivered n Result) Fails)
    (hfinished : run.isFinished = true) (hfailure : run.failure? = none) :
    out.Alike (run.output out n) ∧ ∀ p < out.size, Result p ((run.output out n).lane p) := by
  have hdone := fun task part hpart =>
    h.done task part hpart hfailure (not_isPending_of_isFinished hfinished task)
  have hparts : ∀ (i : Nat) (part : Column), run.parts.toList[i]? = some part →
      ∃ old, (out.chunks n)[i]? = some old ∧ old.Alike part := by
    intro i part hpart
    rw [Array.getElem?_toList] at hpart
    have hlt : i < (out.chunks n).length := by
      rw [← h.count]
      exact (Array.getElem?_eq_some_iff.1 hpart).1
    obtain ⟨part', hpart', halike, -⟩ := hdone i _ (List.getElem?_eq_getElem hlt)
    obtain rfl : part = part' := Option.some.inj (hpart.symm.trans hpart')
    exact ⟨_, List.getElem?_eq_getElem hlt, halike⟩
  obtain ⟨halike, -, hlane⟩ := Column.foldl_write run.parts.toList 0 n
    out fun i part hpart => by
      obtain ⟨old, hold, halike⟩ := hparts i part hpart
      obtain ⟨hstorage, hin, hle, -⟩ := Column.getElem?_chunks hn hold
      rw [Nat.zero_add, halike.storage, halike.size]
      exact ⟨hstorage, hin, hle⟩
  refine ⟨halike, fun p hp => ?_⟩
  -- the element is in part `p / n`, at `p % n`
  have hsplit : p / n * n + p % n = p := Nat.div_add_mod' p n
  obtain ⟨old, hold, hlt⟩ := Column.exists_chunk hn hp
  obtain ⟨part, hpart, hpartAlike, hdelivered⟩ := hdone _ _ hold
  rw [← hpartAlike.size] at hlt
  have hplace := hlane (p / n) part (by rwa [Array.getElem?_toList]) (p % n) hlt
  have hresult := hdelivered p (by omega) (by omega)
  rw [Nat.zero_add, hsplit] at hplace
  rw [show p - p / n * n = p % n by omega, ← hplace] at hresult
  exact hresult

/-! ## Runs side by side -/

/-- Tasks of two evaluations that go well and leave the same part, and buffers in
the relation they found them in. -/
def TasksPair (ev₁ ev₂ : Evaluation) (it : Iteration) (n : Nat) (parts : List Column)
    (R : Workspace → Workspace → Prop) : Prop :=
  ∀ task part w₁ w₂, parts[task]? = some part → R w₁ w₂ →
    ∃ w₁' w₂' part', runTask ev₁ it (task * n) w₁ part = (.ok (), w₁', part') ∧
      runTask ev₂ it (task * n) w₂ part = (.ok (), w₂', part') ∧ R w₁' w₂' ∧ part.Alike part'

/-- Two runs that have come to the same point. -/
structure Paired (threads : Nat) (parts : List Column) (R : Workspace → Workspace → Prop)
    (a b : PoolRun) : Prop where
  sound : a.Sound threads parts (fun w => ∃ w', R w w') (fun _ _ => True) fun _ => False
  parts : b.parts = a.parts
  failure : b.failure? = none
  size : b.workers.size = a.workers.size
  workers : ∀ (i : Nat) (worker : Worker), a.workers[i]? = some worker →
    ∃ w, b.workers[i]? = some ⟨w, worker.pending⟩ ∧ R worker.workspace w

variable {ev₁ ev₂ : Evaluation} {R : Workspace → Workspace → Prop} {a b : PoolRun}

theorem TasksPair.tasksEnd (h : TasksPair ev₁ ev₂ it n parts R) :
    TasksEnd ev₁ it n parts (fun w => ∃ w', R w w') (fun _ _ => True) fun _ => False := by
  intro task part w₁ hpart husable
  obtain ⟨w₂, hw⟩ := husable
  obtain ⟨w₁', w₂', part', hrun, -, hw', halike⟩ := h task part w₁ w₂ hpart hw
  exact .inl ⟨w₁', part', hrun, ⟨w₂', hw'⟩, halike, trivial⟩

theorem Paired.step (htasks : TasksPair ev₁ ev₂ it n parts R) (h : Paired threads parts R a b)
    (turn : Turn) :
    Paired threads parts R (PoolRun.step ev₁ it n a turn) (PoolRun.step ev₂ it n b turn) := by
  have hsound := h.sound.step htasks.tasksEnd turn
  by_cases hidle : ∀ worker, a.workers[turn.thread]? = some worker → worker.pending = []
  · have hidle' : ∀ worker, b.workers[turn.thread]? = some worker → worker.pending = [] := by
      intro worker hworker
      have hlt : turn.thread < a.workers.size := by
        rw [← h.size]
        exact (Array.getElem?_eq_some_iff.1 hworker).1
      obtain ⟨w, hw, -⟩ := h.workers _ _ (Array.getElem?_eq_getElem hlt)
      rw [hworker] at hw
      cases hw
      show a.workers[turn.thread].pending = []
      exact hidle _ (Array.getElem?_eq_getElem hlt)
    rw [step_idle hidle, step_idle hidle']
    exact h
  · push Not at hidle
    obtain ⟨⟨w₁, pending⟩, hworker, hpending⟩ := hidle
    obtain ⟨task, rest, rfl⟩ := List.exists_cons_of_ne_nil hpending
    obtain ⟨w₂, hworker', hw⟩ := h.workers _ _ hworker
    obtain ⟨part, hown, hpart, -, -⟩ := h.sound.next_task hworker
    obtain ⟨w₁', w₂', part', hrun₁, hrun₂, hw', -⟩ := htasks task part w₁ w₂ hown hw
    have hi : turn.thread < a.workers.size := (Array.getElem?_eq_some_iff.1 hworker).1
    rw [step_done hworker h.sound.failure?_eq_none hpart hrun₁] at hsound ⊢
    rw [step_done hworker' h.failure (by rw [h.parts]; exact hpart) hrun₂]
    refine ⟨hsound, by rw [h.parts], rfl, by simp [h.size], fun i worker hi' => ?_⟩
    rcases workers_of_setIfInBounds hi' with ⟨rfl, rfl⟩ | ⟨hne, hi'⟩
    · exact ⟨w₂', by simp [h.size, hi], hw'⟩
    · obtain ⟨w, hother, hR⟩ := h.workers i worker hi'
      refine ⟨w, ?_, hR⟩
      rw [Array.getElem?_setIfInBounds, if_neg (Ne.symm hne)]
      exact hother

theorem Paired.follow (htasks : TasksPair ev₁ ev₂ it n parts R) (h : Paired threads parts R a b)
    (schedule : List Turn) :
    Paired threads parts R (PoolRun.follow ev₁ it n a schedule)
      (PoolRun.follow ev₂ it n b schedule) := by
  induction schedule generalizing a b with
  | nil => exact h
  | cons turn schedule ih => exact ih (h.step htasks turn)

theorem paired_start (out : Column) (n : Nat) (hthreads : 0 < buffers.length)
    (hbuffers : ∀ w ∈ buffers, R w w) :
    Paired buffers.length (out.chunks n) R (PoolRun.start buffers out n)
      (PoolRun.start buffers out n) :=
  ⟨sound_start out n hthreads fun w hw => ⟨w, hbuffers w hw⟩, rfl, rfl, rfl,
    fun _ worker hworker => ⟨worker.workspace, hworker,
      hbuffers _ (List.mem_of_getElem? (worker_start hworker).1)⟩⟩

end PoolRun

end Lanewise
