import Lanewise.Proofs.Schedules
import Mathlib.Tactic.Ring

/-!
# Task sizes in 64 bits

Which task sizes a machine can count. A configuration that an engine accepts bounds
the threads and nothing else of the product that the length is divided by
(`EngineConfig.taskSize?_of_validate`, `EngineConfig.not_taskSize?_of_validate`).
Where the numbers fit, the tasks are whole blocks and no more than were asked for.
-/

namespace Lanewise

variable {length block threads tasksPerThread n k : Nat}

/-- The pieces of a length that is cut from the front are the fewest that hold it. -/
theorem pieces_le_iff (hn : 0 < n) : (length + n - 1) / n ≤ k ↔ length ≤ k * n := by
  rw [Nat.div_le_iff_le_mul_add_pred hn, Nat.mul_comm]
  omega

/-- As many tasks as there are turns are enough. -/
theorem length_le_tasks (hblock : 0 < block) (hthreads : 0 < threads)
    (htasks : 0 < tasksPerThread) :
    let perRound := tasksPerThread * block * threads
    length ≤ tasksPerThread * threads * (max ((length + perRound - 1) / perRound) 1 * block) := by
  intro perRound
  let rounds := (length + perRound - 1) / perRound
  have hperRound : 0 < perRound := Nat.mul_pos (Nat.mul_pos htasks hblock) hthreads
  calc length ≤ rounds * perRound := (pieces_le_iff hperRound).1 le_rfl
    _ ≤ max rounds 1 * perRound := Nat.mul_le_mul_right _ (Nat.le_max_left ..)
    _ = tasksPerThread * threads * (max rounds 1 * block) := by simp only [perRound]; ring

theorem Column.length_chunks_le {c : Column} (hn : 0 < n) (h : c.size ≤ k * n) :
    (c.chunks n).length ≤ k := by
  simpa [chunks, Nat.max_eq_left hn] using (pieces_le_iff hn).2 h

/-- With two turns or more a task is shorter than twice the length or one block, so only the
product can be too large. With a single turn the length itself is rounded up to blocks. -/
theorem taskLength_lt_iff (hblock : 0 < block) (hthreads : 0 < threads)
    (htasks : 0 < tasksPerThread) (hlength : length < UInt64.size)
    (hround : tasksPerThread * block * threads < UInt64.size) :
    let perRound := tasksPerThread * block * threads
    max ((length + perRound - 1) / perRound) 1 * block < UInt64.size ↔
      (tasksPerThread * threads = 1 →
        ∃ blocks, length ≤ blocks * block ∧ blocks * block < UInt64.size) := by
  have hturns : 0 < tasksPerThread * threads := Nat.mul_pos htasks hthreads
  have hperRound : tasksPerThread * block * threads = tasksPerThread * threads * block := by ring
  simp only [hperRound] at hround ⊢
  generalize tasksPerThread * threads = turns at hround hturns ⊢
  let rounds := (length + turns * block - 1) / (turns * block)
  have hrounds {m : Nat} : rounds ≤ m ↔ length ≤ m * (turns * block) :=
    pieces_le_iff (Nat.mul_pos hturns hblock)
  have hone : block ≤ turns * block := Nat.le_mul_of_pos_left _ hturns
  change max rounds 1 * block < UInt64.size ↔ _
  rcases Nat.lt_or_ge 1 turns with htwo | hsingle
  · refine iff_of_true ?_ (fun h => absurd h htwo.ne')
    rcases Nat.lt_or_ge 1 rounds with hmany | hfew
    · -- the rounds before the last one do not hold the length
      have hshort : (rounds - 1) * (turns * block) < length := by
        by_contra hlong
        have := hrounds.2 (Nat.le_of_not_lt hlong)
        omega
      calc max rounds 1 * block = rounds * block := by rw [Nat.max_eq_left hmany.le]
        _ ≤ (rounds - 1) * 2 * block := Nat.mul_le_mul_right _ (by omega)
        _ ≤ (rounds - 1) * turns * block :=
          Nat.mul_le_mul_right _ (Nat.mul_le_mul_left _ htwo)
        _ = (rounds - 1) * (turns * block) := Nat.mul_assoc ..
        _ < UInt64.size := hshort.trans hlength
    · rw [Nat.max_eq_right hfew, Nat.one_mul]
      exact hone.trans_lt hround
  · obtain rfl : turns = 1 := by omega
    rw [Nat.one_mul] at hround
    simp only [Nat.one_mul] at hrounds
    refine ⟨fun h _ => ⟨rounds, hrounds.1 le_rfl, ?_⟩, fun h => ?_⟩
    · exact (Nat.mul_le_mul_right _ (Nat.le_max_left ..)).trans_lt h
    · obtain ⟨blocks, hholds, hfits⟩ := h rfl
      rcases Nat.eq_zero_or_pos rounds with hzero | hpos
      · rwa [hzero, Nat.max_eq_right (Nat.zero_le 1), Nat.one_mul]
      · rw [Nat.max_eq_left hpos]
        exact (Nat.mul_le_mul_right _ (hrounds.2 hholds)).trans_lt hfits

namespace EngineConfig

variable {config : EngineConfig}

/-- When the task size can be counted under a configuration that an engine accepts: the product
of the three settings has to fit 64 bits, and with a single turn for everything the blocks that
hold the length have to. Then the divisor is not 0, the size is a positive number of whole blocks,
and no output of that length is cut into more tasks than the threads were to have. -/
theorem taskSize?_of_validate (hvalid : config.validate = .ok ()) (hthreads : 0 < threads)
    (hlength : length < UInt64.size) :
    let turns := config.tasksPerThread * threads
    let perRound := config.tasksPerThread * config.blockSize * threads
    ((∃ n, taskSize? length config.blockSize threads config.tasksPerThread = some n) ↔
      perRound < UInt64.size ∧
        (turns = 1 →
          ∃ blocks, length ≤ blocks * config.blockSize ∧
            blocks * config.blockSize < UInt64.size)) ∧
      0 < perRound ∧
      ∀ n, taskSize? length config.blockSize threads config.tasksPerThread = some n →
        n = max ((length + perRound - 1) / perRound) 1 * config.blockSize ∧
          0 < n ∧ config.blockSize ∣ n ∧
          ∀ out : Column, out.size = length →
            out.Tiled config.blockSize n ∧ (out.chunks n).length ≤ turns := by
  intro turns perRound
  obtain ⟨-, -, hblock, htasks⟩ := pos_of_validate hvalid
  have hsome (n : Nat) :=
    @taskSize?_eq_some_iff length _ _ _ n hblock hthreads htasks
  refine ⟨⟨?_, ?_⟩, Nat.mul_pos (Nat.mul_pos htasks hblock) hthreads, fun n hn => ?_⟩
  · rintro ⟨n, hn⟩
    obtain ⟨hround, hfits, rfl⟩ := (hsome n).1 hn
    exact ⟨hround, (taskLength_lt_iff hblock hthreads htasks hlength hround).1 hfits⟩
  · rintro ⟨hround, hblocks⟩
    exact ⟨_, (hsome _).2
      ⟨hround, (taskLength_lt_iff hblock hthreads htasks hlength hround).2 hblocks, rfl⟩⟩
  · obtain ⟨-, -, hlen⟩ := (hsome n).1 hn
    have hpos := taskSize?_pos hn
    have hdvd := dvd_of_taskSize? hblock hn
    refine ⟨hlen.symm, hpos, hdvd, fun out hout => ⟨Column.tiled hpos hdvd, ?_⟩⟩
    refine Column.length_chunks_le hpos (hout ▸ ?_)
    rw [← hlen]
    exact length_le_tasks hblock hthreads htasks

/-- Five elements in blocks of two, for two threads with a task each: two tasks, of four elements
and of one. -/
theorem taskSize?_of_validate_five :
    let config : EngineConfig := { serial with threads := 2, blockSize := 2, tasksPerThread := 1 }
    config.validate = .ok () ∧ taskSize? 5 2 2 1 = some 4 ∧
      ((Column.fresh .bool 5).chunks 4).length ≤ 2 := by
  intro config
  have hvalid : config.validate = .ok () := rfl
  have hsize : taskSize? 5 2 2 1 = some 4 := rfl
  have hthreads : 0 < 2 := by decide
  have hlength : 5 < UInt64.size := by decide
  obtain ⟨-, -, hall⟩ := taskSize?_of_validate hvalid hthreads hlength
  exact ⟨hvalid, hsize, ((hall 4 hsize).2.2.2 (Column.fresh .bool 5) rfl).2⟩

/-- Blocks of `2 ^ 32` elements and as many tasks for each thread are accepted, and their product
is `2 ^ 64`. -/
theorem not_taskSize?_of_validate :
    ¬ ∀ (config : EngineConfig) (threads length : Nat), config.validate = .ok () →
      config.blockSize < UInt64.size → config.tasksPerThread < UInt64.size →
      1 ≤ threads → threads ≤ config.threads → length < UInt64.size →
      ∃ n, taskSize? length config.blockSize threads config.tasksPerThread = some n := by
  intro h
  obtain ⟨n, hn⟩ := h { serial with blockSize := 2 ^ 32, tasksPerThread := 2 ^ 32 } 1 10 rfl
    (by decide) (by decide) (by decide) (by decide) (by decide)
  have hnone : taskSize? 10 (2 ^ 32) 1 (2 ^ 32) = none := by decide +kernel
  rw [hnone] at hn
  cases hn

end EngineConfig

end Lanewise
