import Mathlib.Data.List.Basic
import Lanewise.Program

/-!
# Walks over a program: positions

What the slots of a walk tell about the other readings of a program
(`instructions_eq`, `instructions_cases`), and where its instructions stand. They follow
each other without overlap (`pairwise_instructions`), so an instruction in the
last slot is the last one, and the queries that look at the last four bytes find
it there (`finalOpcode?_of_last`).
-/

namespace Lanewise

/-! ## One slot -/

namespace Instruction

/-- The bytes an instruction was decoded from. -/
theorem bytes_of_decodeHead {pc : Nat} {bytes : List UInt8} {inst : Instruction}
    (h : decodeHead pc bytes = .ok inst) :
    inst.pc = pc ∧ inst.width ≤ bytes.length ∧ bytes.head? = some inst.opcode.byte ∧
      (inst.operation.isDoubleWidth = false → bytes[3]? = inst.operands.toList[2]?) := by
  unfold decodeHead at h
  split at h
  · next op a b c rest =>
    split at h
    · cases h
    · next opcode hop =>
      have hbyte := Opcode.byte_of_ofByte? hop
      split at h
      · next hdouble =>
        split at h
        · cases h
          simp [width, operation, hdouble, slotWidth, hbyte]
        · cases h
      · next hdouble =>
        cases h
        simp [width, operation, hdouble, slotWidth, hbyte]
  · cases h

/-- What keeps bytes from being decoded. -/
theorem error_of_decodeHead {pc : Nat} {bytes : List UInt8} {cause : KernelError}
    (h : decodeHead pc bytes = .error cause) :
    (∃ byte, cause = .unknownOpcode pc byte) ∨ cause = .truncated pc := by
  unfold decodeHead at h
  repeat' split at h
  all_goals cases h
  · exact .inl ⟨_, rfl⟩
  all_goals exact .inr rfl

end Instruction

namespace Slot

/-- Where a slot stands. -/
def pc : Slot → Nat
  | noop pc | fault pc _ => pc
  | instruction inst => inst.pc

theorem pc_read (start : Nat) (bytes : List UInt8) : (read start bytes).pc = start := by
  unfold read
  split
  · rfl
  · split
    · next hdecode => exact Instruction.pc_of_decodeHead hdecode
    · rfl

theorem width_mod (slot : Slot) : slot.width % slotWidth = 0 := by
  cases slot with
  | noop pc => simp [width]
  | fault pc cause => simp [width]
  | instruction inst =>
    show inst.width % slotWidth = 0
    by_cases hdouble : inst.operation.isDoubleWidth = true
    · simp [Instruction.width, hdouble]
    · simp [Instruction.width, hdouble]

/-- What stands in a slot that is read as an instruction. -/
theorem decodeHead_of_read {pc : Nat} {bytes : List UInt8} {inst : Instruction}
    (h : read pc bytes = .instruction inst) :
    Instruction.decodeHead pc bytes = .ok inst ∧ bytes.head? ≠ some Opcode.noop.byte := by
  unfold read at h
  split at h
  · cases h
  · next hhead =>
    split at h
    · next hdecode =>
      cases h
      exact ⟨hdecode, hhead⟩
    · cases h

end Slot

/-- A slot of a walk was read at some position of the bytes. -/
theorem exists_read_of_mem_walkFrom {slot : Slot} {pc : Nat} {bytes : List UInt8}
    (h : slot ∈ walkFrom pc bytes) :
    ∃ k, slot = Slot.read (pc + k) (bytes.drop k) := by
  fun_induction walkFrom pc bytes with
  | case1 => cases h
  | case2 pc b rest head ih =>
    rcases List.mem_cons.1 h with rfl | h
    · exact ⟨0, rfl⟩
    · obtain ⟨k, hk⟩ := ih h
      refine ⟨head.width + k, ?_⟩
      rw [hk, List.drop_drop, Nat.add_assoc]

/-! ## The instructions of a walk -/

/-- The instructions of a walk up to its first fault, and that fault. -/
def instructionsOfSlots : List Slot → List Instruction × Option KernelError
  | [] => ([], none)
  | .noop _ :: rest => instructionsOfSlots rest
  | .instruction inst :: rest =>
    let (insts, fault?) := instructionsOfSlots rest
    (inst :: insts, fault?)
  | .fault _ cause :: _ => ([], some cause)

theorem instruction_mem_of_mem {slots : List Slot} {inst : Instruction}
    (h : inst ∈ (instructionsOfSlots slots).1) : .instruction inst ∈ slots := by
  induction slots with
  | nil => cases h
  | cons slot rest ih =>
    cases slot with
    | noop pc => exact .tail _ (ih h)
    | fault pc cause => cases h
    | instruction first =>
      rcases List.mem_cons.1 h with rfl | h
      · exact .head _
      · exact .tail _ (ih h)

/-! ## The other loops -/

namespace Cursor

variable {code : List UInt8} {pc : Nat}

theorem items_of_none {c : Cursor} (h : c.next? = none) : c.items = [] := by
  rw [items]
  split
  · rfl
  · next hnext => cases h.symm.trans hnext

theorem items_of_some {c rest : Cursor} {item : Except KernelError Instruction}
    (h : c.next? = some (item, rest)) : c.items = item :: rest.items := by
  rw [items]
  split
  · next hnext => cases h.symm.trans hnext
  · next hnext =>
    cases h.symm.trans hnext
    rfl

theorem items_of_end (h : ¬ pc < code.length) : items ⟨code, pc, false⟩ = [] := by
  refine items_of_none ?_
  rw [next?, if_neg fun hmore => h hmore.2]

theorem items_of_noop (h : pc < code.length) (hnoop : code[pc]? = some Opcode.noop.byte) :
    items ⟨code, pc, false⟩ = items ⟨code, pc + slotWidth, false⟩ := by
  have hnext : next? ⟨code, pc, false⟩ = next? ⟨code, pc + slotWidth, false⟩ := by
    rw [next?, if_pos ⟨rfl, h⟩, if_pos hnoop]
  cases hbehind : next? ⟨code, pc + slotWidth, false⟩ with
  | none => rw [items_of_none hbehind, items_of_none (hnext.trans hbehind)]
  | some next => rw [items_of_some hbehind, items_of_some (hnext.trans hbehind)]

theorem items_of_ok (h : pc < code.length) (hnoop : code[pc]? ≠ some Opcode.noop.byte)
    {inst : Instruction} (hdecode : Instruction.decodeAt code pc = .ok inst) :
    items ⟨code, pc, false⟩ = .ok inst :: items ⟨code, pc + inst.width, false⟩ := by
  refine items_of_some ?_
  rw [next?, if_pos ⟨rfl, h⟩, if_neg hnoop, hdecode]

/-- Nothing comes behind a fault. -/
theorem items_of_error (h : pc < code.length) (hnoop : code[pc]? ≠ some Opcode.noop.byte)
    {cause : KernelError} (hdecode : Instruction.decodeAt code pc = .error cause) :
    items ⟨code, pc, false⟩ = [.error cause] := by
  have hnext : next? ⟨code, pc, false⟩ = some (.error cause, ⟨code, pc, true⟩) := by
    rw [next?, if_pos ⟨rfl, h⟩, if_neg hnoop, hdecode]
  have hend : next? ⟨code, pc, true⟩ = none := by
    rw [next?, if_neg (by simp)]
  rw [items_of_some hnext, items_of_none hend]

/-- What comes is what a walk meets up to its first fault. -/
theorem go_items (code : List UInt8) (pc : Nat) :
    instructions.go (items ⟨code, pc, false⟩)
      = instructionsOfSlots (walkFrom pc (code.drop pc)) := by
  generalize hbytes : code.drop pc = bytes
  fun_induction walkFrom pc bytes with
  | case1 pc =>
    rw [items_of_end (Nat.not_lt.2 (List.drop_eq_nil_iff.1 hbytes))]
    rfl
  | case2 pc b rest slot ih =>
    have hlt : pc < code.length := by
      by_contra hend
      rw [List.drop_eq_nil_of_le (Nat.le_of_not_lt hend)] at hbytes
      cases hbytes
    have hrest := ih (by rw [← hbytes, List.drop_drop])
    have hslot : slot = Slot.read pc (code.drop pc) := by rw [hbytes]
    rw [Slot.read, List.head?_drop] at hslot
    by_cases hnoop : code[pc]? = some Opcode.noop.byte
    · rw [if_pos hnoop] at hslot
      rw [hslot] at hrest ⊢
      rw [items_of_noop hlt hnoop]
      exact hrest
    · rw [if_neg hnoop] at hslot
      cases hdecode : Instruction.decodeHead pc (code.drop pc) with
      | ok inst =>
        rw [hdecode] at hslot
        rw [hslot] at hrest ⊢
        rw [items_of_ok hlt hnoop hdecode, instructions.go, instructionsOfSlots]
        exact congrArg (fun r => (inst :: r.1, r.2)) hrest
      | error cause =>
        rw [hdecode] at hslot
        rw [hslot, items_of_error hlt hnoop hdecode]
        rfl

end Cursor

theorem instructions_eq (code : List UInt8) :
    instructions code = instructionsOfSlots (walk code) :=
  Cursor.go_items code 0

/-- What stands in a prepared program in place of a fault. -/
inductive Step.StandsFor : Step → KernelError → Prop
  | invalid (pc : Nat) (byte : UInt8) : StandsFor (.invalid pc) (.unknownOpcode pc byte)
  | truncated (pc : Nat) : StandsFor (.truncated pc) (.truncated pc)

theorem instructions_go_append (insts : List Instruction)
    (rest : List (Except KernelError Instruction)) :
    instructions.go (insts.map .ok ++ rest)
      = (insts ++ (instructions.go rest).1, (instructions.go rest).2) := by
  induction insts with
  | nil => rfl
  | cons inst insts ih =>
    rw [List.map_cons, List.cons_append, instructions.go, ih]
    rfl

/-- From everywhere a cursor yields the instructions that are prepared, and a fault
behind them if there is a mark. -/
theorem predecodeFrom_items (code : List UInt8) (pc : Nat) :
    ∃ insts : List Instruction, (Cursor.items ⟨code, pc, false⟩ = insts.map .ok ∧
        predecodeFrom code pc = insts.map .execute) ∨
      ∃ cause step, Cursor.items ⟨code, pc, false⟩ = insts.map .ok ++ [.error cause] ∧
        predecodeFrom code pc = insts.map .execute ++ [step] ∧ step.StandsFor cause := by
  fun_induction predecodeFrom code pc with
  | case1 pc hlt hnoop ih =>
    rw [Cursor.items_of_noop hlt hnoop]
    exact ih
  | case2 pc hlt hnoop inst hdecode ih =>
    obtain ⟨insts, ih⟩ := ih
    rw [Cursor.items_of_ok hlt hnoop hdecode]
    refine ⟨inst :: insts, ?_⟩
    rcases ih with ⟨hitems, hsteps⟩ | ⟨cause, step, hitems, hsteps, hstep⟩
    · exact .inl ⟨by rw [hitems]; rfl, by rw [hsteps]; rfl⟩
    · exact .inr ⟨cause, step, by rw [hitems]; rfl, by rw [hsteps]; rfl, hstep⟩
  | case3 pc hlt hnoop at' byte hdecode =>
    rw [Cursor.items_of_error hlt hnoop hdecode]
    exact ⟨[], .inr ⟨_, _, rfl, rfl, .invalid _ _⟩⟩
  | case4 pc hlt hnoop cause hknown hdecode =>
    rw [Cursor.items_of_error hlt hnoop hdecode]
    rcases Instruction.error_of_decodeHead hdecode with ⟨byte, rfl⟩ | rfl
    · exact absurd rfl (hknown pc byte)
    · exact ⟨[], .inr ⟨_, _, rfl, rfl, .truncated _⟩⟩
  | case5 pc hend =>
    rw [Cursor.items_of_end hend]
    exact ⟨[], .inl ⟨rfl, rfl⟩⟩

/-- A program without faults, or with one. -/
theorem instructions_cases (code : List UInt8) :
    ((instructions code).2 = none ∧
      (Cursor.start code).items = (instructions code).1.map .ok ∧
      predecode code = (instructions code).1.map .execute) ∨
    ∃ cause step, (instructions code).2 = some cause ∧ step.StandsFor cause ∧
      (Cursor.start code).items = (instructions code).1.map .ok ++ [.error cause] ∧
      predecode code = (instructions code).1.map .execute ++ [step] := by
  obtain ⟨insts, ⟨hitems, hsteps⟩ | ⟨cause, step, hitems, hsteps, hstep⟩⟩ :=
    predecodeFrom_items code 0
  · have hgo : instructions code = (insts, none) := by
      rw [instructions, Cursor.start, hitems, ← List.append_nil (insts.map _),
        instructions_go_append]
      simp [instructions.go]
    rw [hgo]
    exact .inl ⟨rfl, hitems, hsteps⟩
  · have hgo : instructions code = (insts, some cause) := by
      rw [instructions, Cursor.start, hitems, instructions_go_append]
      simp [instructions.go]
    rw [hgo]
    exact .inr ⟨cause, step, rfl, hstep, hitems, hsteps⟩

theorem decodeProgram_eq_ok_iff {code : List UInt8} {insts : List Instruction} :
    decodeProgram code = .ok insts ↔
      code.length % slotWidth = 0 ∧ instructions code = (insts, none) := by
  unfold decodeProgram
  split
  · next h => simp [h]
  · next h =>
    rw [Decidable.not_not] at h
    split <;> simp [*]

/-- A program is prepared as its instructions, and its first fault behind them. -/
theorem exists_predecode_eq (code : List UInt8) :
    ∃ faults, predecode code = (instructions code).1.map .execute ++ faults ∧
      ((instructions code).2 = none → faults = []) ∧
      ∀ step ∈ faults, ∀ inst, step ≠ .execute inst := by
  rcases instructions_cases code with ⟨-, -, hsteps⟩ | ⟨cause, step, hfault, hstep, -, hsteps⟩
  · exact ⟨[], hsteps.trans (List.append_nil _).symm, fun _ => rfl, nofun⟩
  · refine ⟨[step], hsteps, fun hnone => ?_, ?_⟩
    · rw [hnone] at hfault
      cases hfault
    · cases hstep <;> simp

/-- A program without faults is prepared as its instructions. -/
theorem predecode_of_no_fault {code : List UInt8} (h : (instructions code).2 = none) :
    predecode code = (instructions code).1.map .execute := by
  obtain ⟨faults, heq, hnone, -⟩ := exists_predecode_eq code
  rw [heq, hnone h, List.append_nil]

/-- Where an instruction of a walk was decoded. -/
theorem decodeAt_of_mem {code : List UInt8} {inst : Instruction}
    (h : inst ∈ (instructions code).1) :
    Instruction.decodeAt code inst.pc = .ok inst ∧
      (code.drop inst.pc).head? ≠ some Opcode.noop.byte := by
  rw [instructions_eq] at h
  obtain ⟨k, hk⟩ := exists_read_of_mem_walkFrom (instruction_mem_of_mem h)
  obtain ⟨hdecode, hhead⟩ := Slot.decodeHead_of_read hk.symm
  obtain rfl : inst.pc = k := by
    rw [(Instruction.bytes_of_decodeHead hdecode).1, Nat.zero_add]
  exact ⟨by rw [Instruction.decodeAt, ← hdecode, Nat.zero_add], hhead⟩

theorem operation_ne_noop_of_mem {code : List UInt8} {inst : Instruction}
    (h : inst ∈ (instructions code).1) : inst.operation ≠ .noop := by
  obtain ⟨hdecode, hhead⟩ := decodeAt_of_mem h
  rw [(Instruction.bytes_of_decodeHead hdecode).2.2.1] at hhead
  intro hnoop
  have hbyte : ∀ n, (hn : n < instructionSet.size) → instructionSet[n] = .noop → n = 0 := by decide
  have := hbyte _ inst.opcode.isDefined hnoop
  exact hhead (congrArg some (UInt8.toNat_inj.1 this))

/-- Slots to skip are left out where a program is prepared. -/
theorem operation_ne_noop_of_mem_predecode {code : List UInt8} {inst : Instruction}
    (h : .execute inst ∈ predecode code) : inst.operation ≠ .noop := by
  obtain ⟨faults, hsteps, -, hfaults⟩ := exists_predecode_eq code
  rw [hsteps, List.mem_append, List.mem_map] at h
  rcases h with ⟨_, hinst, ⟨⟩⟩ | hfault
  · exact operation_ne_noop_of_mem hinst
  · exact absurd rfl (hfaults _ hfault inst)

/-- An instruction lies within its program. -/
theorem pc_add_width_le_of_mem {code : List UInt8} {inst : Instruction}
    (h : inst ∈ (instructions code).1) : inst.pc + inst.width ≤ code.length := by
  have := (Instruction.bytes_of_decodeHead (decodeAt_of_mem h).1).2.1
  have := inst.width_pos
  rw [List.length_drop] at *
  omega

/-- Each instruction stands behind those before it. -/
theorem pairwise_instructions (code : List UInt8) :
    (instructions code).1.Pairwise fun a b => a.pc + a.width ≤ b.pc := by
  rw [instructions_eq]
  suffices ∀ pc bytes, (∀ inst ∈ (instructionsOfSlots (walkFrom pc bytes)).1, pc ≤ inst.pc) ∧
      (instructionsOfSlots (walkFrom pc bytes)).1.Pairwise fun a b => a.pc + a.width ≤ b.pc from
    (this 0 code).2
  intro pc bytes
  fun_induction walkFrom pc bytes with
  | case1 => simp [instructionsOfSlots]
  | case2 pc b rest head ih =>
    have hrest : ∀ inst ∈ (instructionsOfSlots (walkFrom (pc + head.width)
        ((b :: rest).drop head.width))).1, pc ≤ inst.pc := fun inst h =>
      Nat.le_trans (Nat.le_add_right _ _) (ih.1 inst h)
    cases hslot : head with
    | noop _ => exact ⟨by rwa [hslot] at hrest, by rw [hslot] at ih; exact ih.2⟩
    | fault _ _ => simp [instructionsOfSlots]
    | instruction inst =>
      have hpc : inst.pc = pc :=
        (Instruction.bytes_of_decodeHead (Slot.decodeHead_of_read hslot).1).1
      rw [hslot] at hrest ih
      refine ⟨?_, List.pairwise_cons.2 ⟨?_, ih.2⟩⟩
      · intro i hi
        rcases List.mem_cons.1 hi with rfl | hi
        · exact Nat.le_of_eq hpc.symm
        · exact hrest i hi
      · intro i hi
        rw [hpc]
        exact ih.1 i hi

/-- An instruction in the last slot is the last one. -/
theorem eq_nil_of_last_slot {code : List UInt8} {before after : List Instruction}
    {inst : Instruction} (h : (instructions code).1 = before ++ inst :: after)
    (hpc : inst.pc + slotWidth = code.length) : after = [] := by
  cases after with
  | nil => rfl
  | cons next after =>
    have hpair := pairwise_instructions code
    rw [h, List.pairwise_append, List.pairwise_cons] at hpair
    have hnext := hpair.2.1.1 next (by simp)
    have hmem : next ∈ (instructions code).1 := by
      rw [h]
      simp
    have hend := pc_add_width_le_of_mem hmem
    have := inst.width_pos
    have := next.width_pos
    have hwidth : slotWidth ≤ inst.width ∧ slotWidth ≤ next.width := by
      unfold Instruction.width
      constructor <;> split <;> omega
    simp only [slotWidth] at hwidth hpc
    omega

/-! ## The last slot -/

/-- What the queries of a program say when a single-width instruction stands in
its last slot. -/
theorem finalOpcode?_of_last {code : List UInt8} {inst : Instruction}
    (h : inst ∈ (instructions code).1) (hpc : inst.pc + slotWidth = code.length)
    (hsingle : inst.operation.isDoubleWidth = false) :
    (Program.mk code).finalOpcode? = some inst.opcode ∧
      code.getLast? = inst.operands.toList[2]? := by
  obtain ⟨-, -, hhead, hlast⟩ := Instruction.bytes_of_decodeHead (decodeAt_of_mem h).1
  simp only [slotWidth] at hpc
  constructor
  · have hlen : ¬ code.length < slotWidth := by simp only [slotWidth]; omega
    have hstart : code.length - slotWidth = inst.pc := by simp only [slotWidth]; omega
    rw [List.head?_drop] at hhead
    simp [Program.finalOpcode?, Program.length, hlen, hstart, hhead, Opcode.ofByte?_byte]
  · have := hlast hsingle
    rw [List.getElem?_drop] at this
    rw [List.getLast?_eq_getElem?, ← this]
    congr 1
    omega

end Lanewise
