import Lanewise.Block.Arena
import Lanewise.Proofs.InPlace

/-!
# What blocks leave of the registers

Whatever blocks a thread runs, validated or not, failing or not, its registers stay
laid out as they were: a block replaces elements of temporaries and nothing else
(`RegisterFile.Used`). So a clone that is made between two blocks goes on like the
original (`Arena.performAll_keeps`): the shadow, which is not cloned, is never read
before it is written.
-/

namespace Lanewise

/-! ## One block -/

namespace RegisterFile

/-- `new` is `old` after any number of blocks. -/
structure Used (old new : RegisterFile) : Prop where
  after : old.After (List.range' old.layout.firstTemporary old.layout.temporaries) new
  blockSize : new.blockSize = old.blockSize

variable {a b c : RegisterFile}

theorem Used.refl (regs : RegisterFile) : regs.Used regs :=
  ⟨.refl _ _, rfl⟩

theorem Used.trans (hab : a.Used b) (hbc : b.Used c) : a.Used c := by
  have hbc' := hbc.after
  rw [hab.after.layout] at hbc'
  exact ⟨hab.after.trans hbc', hbc.blockSize.trans hab.blockSize⟩

end RegisterFile

theorem RegisterLayout.mem_temporaries_iff {layout : RegisterLayout} {reg : Nat} :
    reg ∈ List.range' layout.firstTemporary layout.temporaries ↔
      layout.role? reg = some .temporary := by
  rw [List.mem_range'_1]
  unfold role? size firstTemporary firstConstant
  grind

/-- An instruction that is executed replaces the output or a temporary. One that asks for
another destination is not executed. -/
theorem Frame.used_of_execute? {frame frame' : Frame} {mode : Accumulation} {n : Nat}
    {inst : Instruction} (h : frame.execute? mode n inst = some frame') :
    frame.registers.Used frame'.registers := by
  by_cases hnoop : inst.operation = .noop
  · rw [execute?, if_pos hnoop] at h
    cases h
    exact .refl _
  obtain ⟨hw, sources, rule, target, new, -, -, htarget, hnew, rfl⟩ :=
    (execute?_eq_some_iff hnoop).1 h
  have hafter := After.set hw htarget
    ⟨Rule.storage_of_onColumns? hnew, Rule.size_of_onColumns? hnew⟩
  by_cases hdest : inst.dest.toNat = 0
  · simp only [Frame.set, if_pos hdest]
    exact .refl _
  · rw [isWritable, Bool.and_eq_true] at hw
    have htemporary := RegisterLayout.role?_of_isWritable hw.1 hdest
    refine ⟨hafter.registers.mono fun reg hreg => ?_, ?_⟩
    · rw [List.mem_singleton.1 hreg]
      exact RegisterLayout.mem_temporaries_iff.2 htemporary
    · simp only [Frame.set, if_neg hdest, RegisterFile.set]

/-- A run leaves the registers in use, however it ends. -/
theorem Prepared.used_runSteps (p : Prepared) (mode? : Option Accumulation) (n : Nat)
    (steps : List Step) (frame : Frame) :
    frame.registers.Used (p.runSteps mode? n steps frame).2.registers := by
  induction steps generalizing frame with
  | nil => exact .refl _
  | cons step rest ih =>
    rw [runSteps]
    cases hstep : p.step mode? n rest.isEmpty frame step with
    | error e => exact .refl _
    | ok frame' =>
      obtain ⟨inst, -, -, -, -, hexecute⟩ := step_eq_ok_iff.1 hstep
      exact (Frame.used_of_execute? hexecute).trans (ih frame')

namespace Arena

variable {k : Kernel}

/-! ## Blocks in a row -/

/-- A block does to the registers what a run does, and its answer is that of the run. The
shadow plays no part in either. -/
theorem perform_eq (k : Kernel) (arena : Arena) (call : BlockCall) :
    let p := k.prepare call.fullBlock call.boundsCheck call.inputWidths
    let ran := p.run call.mode? call.lanes ⟨arena.registers, call.inputs, call.output⟩
    (arena.perform k call).1 = ⟨ran.1, ran.2.output⟩ ∧
      (arena.perform k call).2.registers = ran.2.registers := by
  intro p ran
  let m : Memory := ⟨⟨arena.registers, call.inputs, call.output⟩, arena.shadow⟩
  have hrun : (if call.isFixed then p.runBlockFixed else p.runBlock) call.mode? call.lanes m
      = p.runBlock call.mode? call.lanes m := by
    split
    · exact p.runBlockFixed_eq_runBlock _ _ m
    · rfl
  obtain ⟨hresult, hframe⟩ := p.runStepsInPlace_eq .counted call.mode? call.lanes p.steps m
  simp only [perform]
  rw [hrun, Prepared.runBlock, hresult, hframe]
  exact ⟨rfl, rfl⟩

theorem used_perform (arena : Arena) (call : BlockCall) :
    arena.registers.Used (arena.perform k call).2.registers := by
  let frame : Frame := ⟨arena.registers, call.inputs, call.output⟩
  rw [(perform_eq k arena call).2]
  exact Prepared.used_runSteps _ _ _ _ frame

theorem used_performAll (arena : Arena) (calls : List BlockCall) :
    arena.registers.Used (arena.performAll k calls).2.registers := by
  induction calls generalizing arena with
  | nil => exact .refl _
  | cons call rest ih => exact (used_perform arena call).trans (ih _)

/-- The same registers give the same answers, and the same registers afterwards. -/
theorem performAll_eq_of_registers {a b : Arena} (h : a.registers = b.registers)
    (calls : List BlockCall) :
    (a.performAll k calls).1 = (b.performAll k calls).1 ∧
      (a.performAll k calls).2.registers = (b.performAll k calls).2.registers := by
  induction calls generalizing a b with
  | nil => exact ⟨rfl, h⟩
  | cons call rest ih =>
    obtain ⟨hanswer, hregisters⟩ := perform_eq k a call
    obtain ⟨hanswer', hregisters'⟩ := perform_eq k b call
    rw [← h] at hanswer' hregisters'
    obtain ⟨hanswers, hrest⟩ := ih (hregisters.trans hregisters'.symm)
    refine ⟨?_, hrest⟩
    simp only [performAll]
    rw [hanswer, hanswer', hanswers]

end Arena

/-! ## Clones -/

section Room

variable [Allocator]

/-- A column is cloned as what it holds, so one that blocks have used is cloned where the first
one was. -/
theorem Column.tryClone_of_alike {old new : Column} (halike : old.Alike new)
    (h : old.tryClone = .ok old) : new.tryClone = .ok new := by
  obtain ⟨room, hroom, -⟩ := bind_eq_ok_iff.1 h
  refine bind_eq_ok_iff.2 ⟨room, ?_, rfl⟩
  rw [elementType, stringWidth, halike.storage, halike.size]
  exact hroom

namespace RegisterFile

variable {k : Kernel} {widths : List Nat} {blockSize : Nat} {regs : RegisterFile}

/-- The output and the inputs have no column of their own. -/
theorem initialColumn_eq_empty {reg : Nat} {t : ElementType} {width : Nat}
    (h : k.layout.role? reg = some .output ∨ k.layout.role? reg = some .input) :
    initialColumn k blockSize reg t width = .ok .empty := by
  rcases h with h | h <;> simp [initialColumn, h]

theorem reserveTable_mono {a b : Nat} (hle : a ≤ b) (h : reserveTable b = .ok ()) :
    reserveTable a = .ok () := by
  refine reserveTable_eq_ok (Nat.le_trans (Nat.mul_le_mul_right slotSize hle) ?_)
  by_contra hlimit
  rw [reserveTable, if_neg hlimit] at h
  obtain ⟨_, -, hthrow⟩ := bind_eq_ok_iff.1 h
  cases hthrow

/-- What blocks leave of registers that were laid out for a kernel. -/
structure Kept (k : Kernel) (first regs : RegisterFile) : Prop where
  layout : regs.layout = k.layout
  blockSize : regs.blockSize = first.blockSize
  size : regs.size = first.size
  column : ∀ (reg : Nat) (c : Column), first.columns[reg]? = some c →
    ∃ c', regs.columns[reg]? = some c' ∧ c.Alike c'
  constant : ∀ reg : Nat, k.layout.role? reg = some .constant →
    regs.columns[reg]? = first.columns[reg]?
  slot : ∀ (reg : Nat) (c : Column), k.layout.role? reg = some .output ∨
    k.layout.role? reg = some .input → regs.columns[reg]? = some c → c = .empty

theorem Used.kept {first : RegisterFile} (hfirst : ofKernel k widths blockSize = .ok first)
    (h : first.Used regs) : Kept k first regs := by
  have hlayout : first.layout = k.layout := (initial_of_ofKernel hfirst).layout
  have hunwritten {reg : Nat} (hrole : k.layout.role? reg ≠ some .temporary) :
      regs.columns[reg]? = first.columns[reg]? :=
    h.after.unwritten reg fun hmem =>
      hrole (hlayout ▸ RegisterLayout.mem_temporaries_iff.1 hmem)
  refine ⟨h.after.layout.trans hlayout, h.blockSize, h.after.size, h.after.column,
    fun reg hrole => hunwritten (by simp [hrole]), fun reg c hrole hc => ?_⟩
  rw [hunwritten (by rcases hrole with hrole | hrole <;> simp [hrole])] at hc
  obtain ⟨t, hinitial⟩ := exists_initialColumn_of_ofKernel hfirst hc
  rw [initialColumn_eq_empty hrole] at hinitial
  exact (Except.ok.inj hinitial).symm

end RegisterFile

/-! ## Any blocks -/

/-- Columns that blocks have used can be cloned like those that were laid out first. -/
theorem Arena.tryClone_eq {k : Kernel} {widths : List Nat} {blockSize : Nat} {first : RegisterFile}
    (hfirst : RegisterFile.ofKernel k widths blockSize = .ok first) {arena : Arena}
    (h : first.Used arena.registers) :
    arena.tryClone = RegisterFile.reserveTable arena.registers.size >>=
      fun _ => .ok ⟨arena.registers, .empty⟩ := by
  have hcolumn (reg : Nat) (c : Column) (hc : arena.registers.columns[reg]? = some c) :
      c.tryClone = .ok c := by
    have hlt : reg < first.columns.size :=
      Nat.lt_of_lt_of_eq (Array.getElem?_eq_some_iff.1 hc).1 h.after.size
    have hold := Array.getElem?_eq_getElem hlt
    obtain ⟨t, hinitial⟩ := RegisterFile.exists_initialColumn_of_ofKernel hfirst hold
    obtain ⟨c', hc', halike⟩ := h.after.column reg _ hold
    obtain rfl : c' = c := Option.some.inj (hc'.symm.trans hc)
    exact Column.tryClone_of_alike halike (RegisterFile.tryClone_of_initialColumn hinitial)
  rw [tryClone, RegisterFile.tryClone_eq hcolumn]
  cases RegisterFile.reserveTable arena.registers.size <;> rfl

/-- The registers of a kernel, valid or not, stay laid out whatever blocks are run on them, and a
clone that is made after any of them goes on like the original. There is room for the clone, since
there was for the original; only the table can be too large for it, when the signature names more
registers than the layout has. -/
theorem Arena.performAll_keeps {k : Kernel} {widths : List Nat} {blockSize : Nat} {start : Arena}
    (hstart : ofKernel k widths blockSize = .ok start) (calls : List BlockCall) :
    let now := (start.performAll k calls).2
    RegisterFile.Kept k start.registers now.registers ∧
      (k.fullSignature.length ≤ k.layout.size → ∃ clone, now.tryClone = .ok clone) ∧
      ∀ clone, now.tryClone = .ok clone → clone.registers = now.registers ∧
        ∀ later : List BlockCall,
          (clone.performAll k later).1 = (now.performAll k later).1 ∧
            (clone.performAll k later).2.registers = (now.performAll k later).2.registers := by
  intro now
  obtain ⟨first, hfirst, heq⟩ := bind_eq_ok_iff.1 hstart
  cases heq
  have hused : first.Used now.registers := used_performAll ⟨first, .empty⟩ calls
  have hclone := tryClone_eq hfirst hused
  refine ⟨hused.kept hfirst, fun hlength => ⟨⟨now.registers, .empty⟩, ?_⟩, fun clone hok => ?_⟩
  · have hsize : now.registers.size = k.fullSignature.length :=
      hused.after.size.trans (RegisterFile.initial_of_ofKernel hfirst).size
    obtain ⟨count, hcount, htable⟩ := bind_eq_ok_iff.1 hfirst
    obtain ⟨_, htable, -⟩ := bind_eq_ok_iff.1 htable
    obtain ⟨-, rfl⟩ := RegisterLayout.count?_eq_some_iff.1 (counted_eq_ok_iff.1 hcount)
    rw [hclone, hsize, RegisterFile.reserveTable_mono hlength htable]
    rfl
  · rw [hclone] at hok
    obtain ⟨_, -, hcopy⟩ := bind_eq_ok_iff.1 hok
    cases hcopy
    exact ⟨rfl, performAll_eq_of_registers rfl⟩

end Room

attribute [local instance] Allocator.roomy

/-- A program that fills its temporary, and then asks for a constant as a destination: the block
fails, the constant stays, and a clone runs the next block like the original. -/
theorem Arena.performAll_keeps_constant :
    let k : Kernel :=
      ⟨⟨[39, 3, 1, 0, 39, 2, 1, 0]⟩, [.long, .long, .long, .long], [.long], [.long 7], 1⟩
    let block : BlockCall :=
      { fullBlock := 2, boundsCheck := true, inputWidths := [0], mode? := none, lanes := 2
        isFixed := false, inputs := [⟨.long, (#[5, 6] : Array Int64)⟩], output := .fresh .long 2 }
    ∃ start clone, ofKernel k [] 2 = .ok start ∧
      let now := (start.performAll k [block]).2
      now.registers.columns[2]? = some ⟨.long, (#[7, 7] : Array Int64)⟩ ∧
        now.tryClone = .ok clone ∧
        (clone.performAll k [block]).1 = (now.performAll k [block]).1 := by
  intro k block
  obtain ⟨start, hstart⟩ : ∃ start, ofKernel k [] 2 = .ok start := ⟨_, rfl⟩
  obtain ⟨hkept, hroom, hlater⟩ := performAll_keeps hstart [block]
  obtain ⟨clone, hclone⟩ := hroom (by decide)
  refine ⟨start, clone, hstart, ?_, hclone, ((hlater clone hclone).2 [block]).1⟩
  rw [hkept.constant 2 (by decide)]
  cases hstart
  rfl

end Lanewise
