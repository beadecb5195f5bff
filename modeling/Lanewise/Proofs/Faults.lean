import Lanewise.Proofs.InPlace
import Lanewise.Proofs.Walk

/-!
# Faults of a block

A block that ends with a fault has done what the instructions in front of the
fault do, and nothing else (`Prepared.runBlock_of_fault`): they are a program of
their own (`predecodeFrom_take`), which runs without a fault and leaves the same
columns. The check of all registers in front of an instruction finds nothing that
its execution does not find as well, where the registers can be counted
(`Prepared.runBlock_boundsCheck`). Where they cannot, only the check has to count them
(`Prepared.not_runBlock_boundsCheck`).
-/

namespace Lanewise

/-! ## Programs cut off at a step -/

/-- Where a step stands in the program. -/
def Step.pc : Step → Nat
  | .execute inst => inst.pc
  | .invalid pc | .truncated pc => pc

/-- An instruction is decoded from its own bytes, whatever comes behind them. -/
theorem Instruction.decodeHead_take {pc : Nat} {bytes : List UInt8} {inst : Instruction}
    (h : decodeHead pc bytes = .ok inst) {m : Nat} (hm : inst.width ≤ m) :
    decodeHead pc (bytes.take m) = .ok inst := by
  unfold decodeHead at h
  split at h
  · next op a b c rest =>
    split at h
    · cases h
    · next opcode hop =>
      split at h
      · next hdouble =>
        split at h
        · cases h
          obtain ⟨m, rfl⟩ : ∃ k, m = k + 8 := Nat.exists_eq_add_of_le' (by
            simpa [width, operation, hdouble, slotWidth] using hm)
          simp only [List.take_succ_cons, decodeHead, hop, hdouble, if_true]
        · cases h
      · next hdouble =>
        cases h
        obtain ⟨m, rfl⟩ : ∃ k, m = k + 4 := Nat.exists_eq_add_of_le' (by
          simpa [width, operation, hdouble, slotWidth] using hm)
        simp only [List.take_succ_cons, decodeHead, hop, hdouble, if_false, Bool.false_eq_true]
  · cases h

theorem Instruction.decodeAt_take {code : List UInt8} {pc stop : Nat} {inst : Instruction}
    (h : decodeAt code pc = .ok inst) (hstop : pc + inst.width ≤ stop) :
    decodeAt (code.take stop) pc = .ok inst := by
  rw [decodeAt, List.drop_take]
  exact decodeHead_take h (by omega)

theorem le_pc_of_mem_predecodeFrom {code : List UInt8} {start : Nat} {step : Step}
    (h : step ∈ predecodeFrom code start) : start ≤ step.pc := by
  fun_induction predecodeFrom code start with
  | case1 start hlt hnoop ih => exact Nat.le_of_add_right_le (ih h)
  | case2 start hlt hnoop inst hdecode ih =>
    rcases List.mem_cons.1 h with rfl | h
    · exact Nat.le_of_eq (Instruction.pc_of_decodeHead hdecode).symm
    · exact Nat.le_of_add_right_le (ih h)
  | case3 start hlt hnoop at' byte hdecode =>
    obtain rfl := List.mem_singleton.1 h
    rcases Instruction.error_of_decodeHead hdecode with ⟨_, heq⟩ | heq <;> cases heq
    exact Nat.le_refl start
  | case4 start hlt hnoop =>
    obtain rfl := List.mem_singleton.1 h
    exact Nat.le_refl start
  | case5 => cases h

theorem predecodeFrom_take_self (code : List UInt8) (start : Nat) :
    predecodeFrom (code.take start) start = [] := by
  have hend : ¬ start < (code.take start).length :=
    Nat.not_lt.2 (List.length_take_le start code)
  rw [predecodeFrom, if_neg hend]

/-- The bytes in front of a step are the steps in front of it. -/
theorem predecodeFrom_take {code : List UInt8} {start : Nat} {front rest : List Step}
    {step : Step} (h : predecodeFrom code start = front ++ step :: rest) :
    predecodeFrom (code.take step.pc) start = front := by
  have hinside {pc : Nat} (hpc : pc < step.pc) (hlt : pc < code.length) :
      pc < (code.take step.pc).length := by
    rw [List.length_take]
    exact Nat.lt_min.2 ⟨hpc, hlt⟩
  fun_induction predecodeFrom code start generalizing front with
  | case1 start hlt hnoop ih =>
    have hle : start + slotWidth ≤ step.pc := le_pc_of_mem_predecodeFrom (by rw [h]; simp)
    have hpos : start < step.pc := Nat.lt_of_lt_of_le (Nat.lt_add_of_pos_right (by decide)) hle
    rw [predecodeFrom, if_pos (hinside hpos hlt), List.getElem?_take_of_lt hpos, if_pos hnoop]
    exact ih h
  | case2 start hlt hnoop inst hdecode ih =>
    cases front with
    | nil =>
      cases h
      rw [← Instruction.pc_of_decodeHead hdecode]
      exact predecodeFrom_take_self code inst.pc
    | cons first front =>
      obtain ⟨hfirst, hrest⟩ := List.cons.inj h
      have hle : start + inst.width ≤ step.pc :=
        le_pc_of_mem_predecodeFrom (by rw [hrest]; simp)
      have hpos : start < step.pc :=
        Nat.lt_of_lt_of_le (Nat.lt_add_of_pos_right inst.width_pos) hle
      rw [predecodeFrom, if_pos (hinside hpos hlt), List.getElem?_take_of_lt hpos, if_neg hnoop,
        Instruction.decodeAt_take hdecode hle, ← hfirst]
      exact congrArg _ (ih hrest)
  | case3 start hlt hnoop at' byte hdecode =>
    rcases Instruction.error_of_decodeHead hdecode with ⟨_, heq⟩ | heq <;> cases heq
    rcases List.singleton_eq_append_iff.1 h with ⟨rfl, hstep⟩ | ⟨-, hstep⟩ <;> cases hstep
    exact predecodeFrom_take_self code start
  | case4 start hlt hnoop =>
    rcases List.singleton_eq_append_iff.1 h with ⟨rfl, hstep⟩ | ⟨-, hstep⟩ <;> cases hstep
    exact predecodeFrom_take_self code start
  | case5 => simp at h

/-! ## Where a block ends -/

/-- An error that a block reports at an instruction. -/
def EvalError.FaultAt (e : EvalError) (pc : Nat) : Prop :=
  e = .badArgument pc ∨ e = .badOpcode pc

/-- A kernel with the bytes of its program in front of an offset. -/
def Kernel.upTo (k : Kernel) (pc : Nat) : Kernel :=
  { k with program := ⟨k.program.code.take pc⟩ }

namespace Prepared

variable {p : Prepared} {mode? : Option Accumulation} {n : Nat} {isLast : Bool}
  {frame final : Frame} {steps : List Step} {step : Step} {e : EvalError}

/-- A step that fails reports where it stands, unless it breaks off. -/
theorem faultAt_of_step (h : p.step mode? n isLast frame step = .error e) (hcrash : ¬ e.IsCrash) :
    e.FaultAt step.pc := by
  cases step with
  | invalid pc | truncated pc =>
    cases h
    exact .inr rfl
  | execute inst =>
    simp only [Prepared.step] at h
    split at h
    · cases h
      exact absurd trivial hcrash
    split at h
    · cases h
      exact .inl rfl
    split at h
    · cases h
      exact .inr rfl
    split at h
    · cases h
      exact absurd trivial hcrash
    split at h <;> cases h
    exact .inl rfl

/-- What can be executed in front of others can be executed as the last step. -/
theorem step_of_not_last (h : p.step mode? n false frame step = .ok final) :
    p.step mode? n isLast frame step = .ok final := by
  obtain ⟨inst, rfl, hbounds, hplaced, hexecute⟩ := step_eq_ok_iff.1 h
  refine step_eq_ok_iff.2 ⟨inst, rfl, hbounds, fun hred => ?_, hexecute⟩
  cases (hplaced hred).1

/-- A run that fails does so at one of its steps, and has executed the steps in front
of it. -/
theorem exists_step_of_runSteps (h : p.runSteps mode? n steps frame = (.error e, final)) :
    ∃ front step rest, steps = front ++ step :: rest ∧
      p.runSteps mode? n front frame = (.ok (), final) ∧
      p.step mode? n rest.isEmpty final step = .error e := by
  induction steps generalizing frame with
  | nil => cases h
  | cons first steps ih =>
    rw [runSteps] at h
    split at h
    · next next hfirst =>
      obtain ⟨front, step, rest, rfl, hfront, hstep⟩ := ih h
      have hnotlast : (front ++ step :: rest).isEmpty = false := by simp
      rw [hnotlast] at hfirst
      refine ⟨first :: front, step, rest, rfl, ?_, hstep⟩
      rw [runSteps, step_of_not_last hfirst]
      exact hfront
    · next hfirst =>
      cases h
      exact ⟨[], first, steps, rfl, rfl, hfirst⟩

/-- In place a block ends as it does on frames. -/
theorem runBlock_eq_run (p : Prepared) (mode? : Option Accumulation) (n : Nat) (m : Memory) :
    (p.runBlock mode? n m).1 = (p.run mode? n m.frame).1 ∧
      (p.runBlock mode? n m).2.frame = (p.run mode? n m.frame).2 :=
  p.runStepsInPlace_eq .counted mode? n p.steps m

/-- Of a kernel, only the steps depend on its program. -/
theorem runSteps_upTo (k : Kernel) (pc blockSize : Nat) (boundsCheck : Bool)
    (inputWidths : List Nat) (steps : List Step) (frame : Frame) :
    ((k.upTo pc).prepare blockSize boundsCheck inputWidths).runSteps mode? n steps frame
      = (k.prepare blockSize boundsCheck inputWidths).runSteps mode? n steps frame := by
  have hstep : ∀ isLast frame step,
      ((k.upTo pc).prepare blockSize boundsCheck inputWidths).step mode? n isLast frame step
        = (k.prepare blockSize boundsCheck inputWidths).step mode? n isLast frame step := by
    intro isLast frame step
    cases step <;> rfl
  induction steps generalizing frame with
  | nil => rfl
  | cons step rest ih => simp only [runSteps, hstep, ih]

/-- A block that faults stops in front of the instruction at fault. The bytes before it
are a program whose instructions are those in front of it. That program runs without a
fault, and leaves the same output and the same registers. -/
theorem runBlock_of_fault (k : Kernel) (blockSize : Nat) (boundsCheck : Bool)
    (inputWidths : List Nat) (mode? : Option Accumulation) (n : Nat) {before after : Memory}
    {e : EvalError} {pc : Nat} (hfault : e.FaultAt pc)
    (h : (k.prepare blockSize boundsCheck inputWidths).runBlock mode? n before
      = (.error e, after)) :
    (∃ step rest, step.pc = pc ∧
        predecode k.program.code = predecode (k.upTo pc).program.code ++ step :: rest) ∧
      ∃ done : Memory,
        ((k.upTo pc).prepare blockSize boundsCheck inputWidths).runBlock mode? n before
          = (.ok (), done) ∧ done.frame = after.frame := by
  let p := k.prepare blockSize boundsCheck inputWidths
  let cut := (k.upTo pc).prepare blockSize boundsCheck inputWidths
  have hrun : p.run mode? n before.frame = (.error e, after.frame) := by
    obtain ⟨hresult, hframe⟩ := p.runBlock_eq_run mode? n before
    rw [h] at hresult hframe
    exact (Prod.ext hresult hframe).symm
  obtain ⟨front, step, rest, hsteps, hfront, hstep⟩ := exists_step_of_runSteps hrun
  obtain rfl : step.pc = pc := by
    rcases hfault with rfl | rfl <;>
      rcases faultAt_of_step hstep id with hpc | hpc <;> cases hpc <;> rfl
  have hcut : cut.steps = front := predecodeFrom_take hsteps
  have hdone : cut.run mode? n before.frame = (.ok (), after.frame) := by
    rw [run, hcut]
    exact (runSteps_upTo ..).trans hfront
  obtain ⟨hresult, hframe⟩ := cut.runBlock_eq_run mode? n before
  rw [hdone] at hresult hframe
  exact ⟨⟨step, rest, rfl, hsteps.trans (congrArg (· ++ step :: rest) hcut.symm)⟩,
    (cut.runBlock mode? n before).2, Prod.ext hresult rfl, hframe⟩

/-- Adds longs and then adds from a register that there is not:
`add_lll r0, r1, r1; add_lll r0, r0, r9`. -/
def strayRegister : Kernel :=
  ⟨⟨[42, 0, 1, 1, 42, 0, 0, 9]⟩, [.long, .long], [.long], [], 0⟩

/-- The first sum is left in the output. -/
theorem runBlock_of_fault_strayRegister :
    let longs (a b : Int64) : Column := ⟨.long, (#[a, b] : Array Int64)⟩
    let before : Memory :=
      ⟨⟨⟨strayRegister.layout, #[.empty, .empty], 2⟩, [longs 3 4], longs 0 0⟩, .empty⟩
    let after := ((strayRegister.prepare 2 false []).runBlock none 2 before).2
    (strayRegister.prepare 2 false []).runBlock none 2 before
        = (.error (.badArgument 4), after) ∧
      after.frame.output = longs 6 8 ∧
      ∃ done : Memory,
        ((strayRegister.upTo 4).prepare 2 false []).runBlock none 2 before = (.ok (), done) ∧
          done.frame = after.frame := by
  intro longs before after
  have hresult : ((strayRegister.prepare 2 false []).runBlock none 2 before).1
      = .error (.badArgument 4) := by decide +kernel
  have hfault : (strayRegister.prepare 2 false []).runBlock none 2 before
      = (.error (.badArgument 4), after) := Prod.ext hresult rfl
  have hsum : after.frame.output = longs 6 8 := by decide +kernel
  exact ⟨hfault, hsum, (runBlock_of_fault strayRegister 2 false [] none 2 (.inl rfl) hfault).2⟩

end Prepared

/-! ## The check of registers -/

namespace Frame

variable {frame frame' : Frame} {mode : Accumulation} {n : Nat} {inst : Instruction}

/-- An instruction that names a register there is not cannot be executed. -/
theorem execute?_of_size_le (hnoop : inst.operation ≠ .noop) {reg : UInt8}
    (hreg : reg ∈ inst.dest :: inst.sources)
    (hsize : frame.registers.layout.size ≤ reg.toNat) : frame.execute? mode n inst = none := by
  have hrole := RegisterLayout.role?_eq_none_iff.2 hsize
  refine Option.eq_none_iff_forall_ne_some.2 fun frame' h => ?_
  obtain ⟨hw, sources, _, _, _, hsources, -⟩ := (execute?_eq_some_iff hnoop).1 h
  rcases List.mem_cons.1 hreg with rfl | hreg
  · rw [isWritable, RegisterLayout.isWritable, hrole] at hw
    cases hw
  · obtain ⟨c, -, hc⟩ := exists_of_mem_of_forall₂ (mapM_eq_some_iff.1 hsources).flip hreg
    rw [register?, hrole] at hc
    cases hc

end Frame

/-- A reduction that cannot be executed where it stands, and that names a register
there is not. -/
structure Instruction.Stray (inst : Instruction) (layout : RegisterLayout)
    (mode? : Option Accumulation) (rest : List Step) : Prop where
  reduction : inst.operation.isReduction = true
  misplaced : rest ≠ [] ∨ mode? = none
  register : ∃ reg ∈ inst.dest :: inst.sources, layout.size ≤ reg.toNat

namespace Prepared

variable {mode? : Option Accumulation} {n : Nat} {frame frame' : Frame}

/-- The same program with or without the check of registers. -/
def withCheck (p : Prepared) (boundsCheck : Bool) : Prepared :=
  { p with boundsCheck }

@[simp]
theorem boundsCheck_withCheck (p : Prepared) (check : Bool) :
    (p.withCheck check).boundsCheck = check := rfl

@[simp]
theorem layout_withCheck (p : Prepared) (check : Bool) : (p.withCheck check).layout = p.layout :=
  rfl

@[simp]
theorem inBounds_withCheck (p : Prepared) (check : Bool) (inst : Instruction) :
    (p.withCheck check).inBounds inst = p.inBounds inst := rfl

theorem inBounds_eq_false_iff {p : Prepared} {inst : Instruction} :
    p.inBounds inst = false ↔ ∃ reg ∈ inst.dest :: inst.sources, p.layout.size ≤ reg.toNat := by
  rw [inBounds, List.all_eq_false]
  simp only [decide_eq_true_eq, Nat.not_lt]

/-- Steps leave the layout of the registers alone. -/
theorem layout_of_step {p : Prepared} {isLast : Bool} {step : Step}
    (h : p.step mode? n isLast frame step = .ok frame') :
    frame'.registers.layout = frame.registers.layout := by
  obtain ⟨inst, -, -, -, -, hexecute⟩ := step_eq_ok_iff.1 h
  exact Frame.layout_execute? hexecute

/-- A step ends the same without the check, except that a stray reduction is at fault
for its register with it, and for its place without. -/
theorem step_withCheck (p : Prepared) (mode? : Option Accumulation) (n : Nat) {step : Step}
    (rest : List Step) (hcount : p.layout.count?.isSome)
    (hlayout : frame.registers.layout = p.layout)
    (hnoop : ∀ inst, step = .execute inst → inst.operation ≠ .noop) :
    (p.withCheck true).step mode? n rest.isEmpty frame step
        = (p.withCheck false).step mode? n rest.isEmpty frame step ∨
      ∃ inst, step = .execute inst ∧ inst.Stray p.layout mode? rest ∧
        (p.withCheck true).step mode? n rest.isEmpty frame step
          = .error (.badArgument inst.pc) ∧
        (p.withCheck false).step mode? n rest.isEmpty frame step
          = .error (.badOpcode inst.pc) := by
  cases step with
  | invalid pc | truncated pc => exact .inl rfl
  | execute inst =>
    have hmiscounts := Frame.miscounts_eq_false (hlayout ▸ hcount) inst
    have hcounted : p.layout.count?.isNone = false := Option.isNone_eq_false_iff.2 hcount
    simp only [Prepared.step, boundsCheck_withCheck, inBounds_withCheck, layout_withCheck, hcounted,
      hmiscounts, Bool.true_and, Bool.false_and, Bool.false_eq_true, if_false]
    cases hin : p.inBounds inst with
    | true => exact .inl (if_neg Bool.false_ne_true)
    | false =>
      -- without the check such an instruction is at fault when it is executed
      obtain ⟨reg, hreg, hsize⟩ := inBounds_eq_false_iff.1 hin
      have hfault : frame.execute? (mode?.getD .lanewise) n inst = none :=
        Frame.execute?_of_size_le (hnoop inst rfl) hreg (by rwa [hlayout])
      rw [hfault, Bool.not_false, if_pos rfl]
      split
      · next hstray =>
        rw [Bool.and_eq_true, Bool.not_eq_true', Bool.and_eq_false_iff] at hstray
        refine .inr ⟨inst, rfl, ⟨hstray.1, ?_, reg, hreg, hsize⟩, rfl, rfl⟩
        simpa using hstray.2
      · exact .inl rfl

/-- A run ends the same without the check, up to the reason why a stray reduction is at
fault. -/
theorem runSteps_withCheck (p : Prepared) (mode? : Option Accumulation) (n : Nat)
    (steps : List Step) (hcount : p.layout.count?.isSome)
    (hlayout : frame.registers.layout = p.layout)
    (hnoop : ∀ inst, .execute inst ∈ steps → inst.operation ≠ .noop) :
    (p.withCheck true).runSteps mode? n steps frame
        = (p.withCheck false).runSteps mode? n steps frame ∨
      ∃ front inst rest final, steps = front ++ .execute inst :: rest ∧
        inst.Stray p.layout mode? rest ∧
        (p.withCheck true).runSteps mode? n steps frame = (.error (.badArgument inst.pc), final) ∧
        (p.withCheck false).runSteps mode? n steps frame
          = (.error (.badOpcode inst.pc), final) := by
  induction steps generalizing frame with
  | nil => exact .inl rfl
  | cons step rest ih =>
    simp only [runSteps]
    rcases p.step_withCheck mode? n rest hcount hlayout
        fun inst heq => hnoop inst (heq ▸ .head _) with
      hsame | ⟨inst, rfl, hstray, hwith, hwithout⟩
    · rw [hsame]
      cases hnext : (p.withCheck false).step mode? n rest.isEmpty frame step with
      | error e => exact .inl rfl
      | ok next =>
        rcases ih ((layout_of_step hnext).trans hlayout) fun inst hi => hnoop inst (.tail _ hi) with
          hsame | ⟨front, inst, rest, final, rfl, hstray, hwith, hwithout⟩
        · exact .inl hsame
        · exact .inr ⟨step :: front, inst, rest, final, rfl, hstray, hwith, hwithout⟩
    · rw [hwith, hwithout]
      exact .inr ⟨[], inst, rest, frame, rfl, hstray, rfl, rfl⟩

/-- The check of registers in front of an instruction is not needed where the registers
can be counted. Whatever is in the registers and in the columns of a block, with the
check it ends as without it: with the same output and the same registers, and both times
well or both times at the same instruction. Only the reason can be another one, where a
reduction names a register that there is not and stands where no reduction can be
executed. -/
theorem runBlock_boundsCheck (k : Kernel) (hcount : k.layout.size < UInt64.size)
    (blockSize : Nat) (inputWidths : List Nat) (mode? : Option Accumulation) (n : Nat)
    (columns : Array Column) (held : Nat) (inputs : List Column) (output shadow : Column) :
    let before : Memory := ⟨⟨⟨k.layout, columns, held⟩, inputs, output⟩, shadow⟩
    let checked := (k.prepare blockSize true inputWidths).runBlock mode? n before
    let unchecked := (k.prepare blockSize false inputWidths).runBlock mode? n before
    checked.2.frame = unchecked.2.frame ∧
      ((checked.1 = .ok () ∧ unchecked.1 = .ok ()) ∨
        (∃ e pc, e.FaultAt pc ∧ checked.1 = .error e ∧ unchecked.1 = .error e) ∨
        ∃ front inst rest, predecode k.program.code = front ++ .execute inst :: rest ∧
          inst.Stray k.layout mode? rest ∧ checked.1 = .error (.badArgument inst.pc) ∧
          unchecked.1 = .error (.badOpcode inst.pc)) := by
  intro before checked unchecked
  let p := k.prepare blockSize true inputWidths
  have hnoop : ∀ inst, .execute inst ∈ p.steps → inst.operation ≠ .noop :=
    fun inst => operation_ne_noop_of_mem_predecode
  have hends (check : Bool) :
      ((p.withCheck check).runBlock mode? n before).1
          = ((p.withCheck check).runSteps mode? n p.steps before.frame).1 ∧
        ((p.withCheck check).runBlock mode? n before).2.frame
          = ((p.withCheck check).runSteps mode? n p.steps before.frame).2 :=
    (p.withCheck check).runBlock_eq_run mode? n before
  obtain ⟨hchecked, hframe⟩ := hends true
  obtain ⟨hunchecked, hframe'⟩ := hends false
  have hlayout : before.frame.registers.layout = p.layout := rfl
  have hcounted : p.layout.count?.isSome :=
    Option.isSome_iff_exists.2 ⟨_, RegisterLayout.count?_eq_some_iff.2 ⟨hcount, rfl⟩⟩
  rcases p.runSteps_withCheck mode? n p.steps hcounted hlayout hnoop with
    hsame | ⟨front, inst, rest, final, hsteps, hstray, hwith, hwithout⟩
  · rw [hsame] at hchecked hframe
    have hresult : checked.1 = unchecked.1 := hchecked.trans hunchecked.symm
    refine ⟨hframe.trans hframe'.symm, ?_⟩
    cases hend : unchecked.1 with
    | ok => exact .inl ⟨hresult.trans hend, rfl⟩
    | error e =>
      have hrun : (p.withCheck false).runSteps mode? n p.steps before.frame
          = (.error e, unchecked.2.frame) := Prod.ext (hunchecked.symm.trans hend) hframe'.symm
      obtain ⟨_, step, _, -, -, hstep⟩ := exists_step_of_runSteps hrun
      have hfault := faultAt_of_step hstep
        (not_isCrash_of_runSteps (p := p.withCheck false) hcounted hlayout hrun)
      exact .inr (.inl ⟨e, step.pc, hfault, hresult.trans hend, rfl⟩)
  · rw [hwith] at hchecked hframe
    rw [hwithout] at hunchecked hframe'
    exact ⟨hframe.trans hframe'.symm,
      .inr (.inr ⟨front, inst, rest, hsteps, hstray, hchecked, hunchecked⟩)⟩

/-- A register that there is not is found when it is read, after the first sum. -/
theorem runBlock_boundsCheck_strayRegister :
    let longs (a b : Int64) : Column := ⟨.long, (#[a, b] : Array Int64)⟩
    let before : Memory :=
      ⟨⟨⟨strayRegister.layout, #[.empty, .empty], 2⟩, [longs 3 4], longs 0 0⟩, .empty⟩
    let checked := (strayRegister.prepare 2 true []).runBlock none 2 before
    let unchecked := (strayRegister.prepare 2 false []).runBlock none 2 before
    strayRegister.layout.size < UInt64.size ∧ checked.2.frame = unchecked.2.frame ∧
      unchecked.2.frame.output = longs 6 8 ∧ checked.1 = .error (.badArgument 4) ∧
      unchecked.1 = .error (.badArgument 4) := by
  intro longs before checked unchecked
  have hcount : strayRegister.layout.size < UInt64.size := by decide
  have hframe := (runBlock_boundsCheck strayRegister hcount 2 [] none 2 #[.empty, .empty] 2
    [longs 3 4] (longs 0 0) .empty).1
  exact ⟨hcount, hframe, by decide +kernel, by decide +kernel, by decide +kernel⟩

/-- A reduction of a register that there is not, where no reduction can be executed. -/
example :
    let straySum : Kernel := ⟨⟨[101, 0, 9, 255]⟩, [.long, .long], [.long], [], 0⟩
    let before : Memory :=
      ⟨⟨⟨straySum.layout, #[.empty, .empty], 2⟩, [.fresh .long 2], .fresh .long 2⟩, .empty⟩
    ((straySum.prepare 2 true []).runBlock none 2 before).1 = .error (.badArgument 0) ∧
      ((straySum.prepare 2 false []).runBlock none 2 before).1 = .error (.badOpcode 0) := by
  intro straySum before
  exact ⟨by decide +kernel, by decide +kernel⟩

/-- `copy_ll r0, r1`, with as many temporaries as 64 bits can count -/
def countlessTemporaries : Kernel :=
  ⟨⟨[39, 0, 1, 0]⟩, [.long, .long], [.long], [], 0xFFFFFFFFFFFFFFFF⟩

/-- One more output and input are too many to count. The check counts the registers first
and breaks off; without it the input is copied. -/
theorem not_runBlock_boundsCheck :
    ¬ ∀ (k : Kernel) (blockSize : Nat) (inputWidths : List Nat) (mode? : Option Accumulation)
        (n : Nat) (before : Memory), k.temporaries < UInt64.size →
      before.frame.registers.layout = k.layout →
      let checked := (k.prepare blockSize true inputWidths).runBlock mode? n before
      let unchecked := (k.prepare blockSize false inputWidths).runBlock mode? n before
      checked.2.frame = unchecked.2.frame ∧ (checked.1 = .ok () ↔ unchecked.1 = .ok ()) := by
  intro h
  let longs (a b : Int64) : Column := ⟨.long, (#[a, b] : Array Int64)⟩
  let before : Memory :=
    ⟨⟨⟨countlessTemporaries.layout, #[.empty, .empty], 2⟩, [longs 3 4], longs 0 0⟩, .empty⟩
  obtain ⟨-, hends⟩ := h countlessTemporaries 2 [] none 2 before (by decide) rfl
  have hunchecked : ((countlessTemporaries.prepare 2 false []).runBlock none 2 before).1
      = .ok () := by decide +kernel
  have hchecked : ((countlessTemporaries.prepare 2 true []).runBlock none 2 before).1
      = .error (.crash .overflow) := by decide +kernel
  rw [hchecked] at hends
  cases hends.2 hunchecked

end Prepared

end Lanewise
