import Lanewise.Proofs.Valid

/-!
# Well-formed kernels

The rules of a kernel without the order in which validation checks them:
`Kernel.WellFormed` says when all of them hold and `Kernel.FaultAt` where a
program breaks the first one. Validation accepts the well-formed kernels and no
others, and its errors point at that place (`Kernel.validate_exact`).
-/

namespace Lanewise

/-! ## Rules -/

/-- The rules for one instruction of a kernel. -/
structure Instruction.WellFormed (k : Kernel) (inst : Instruction) : Prop where
  /-- Register operands exist and have types that the operation takes. -/
  registers : ∀ t reg, (.register t, reg) ∈ inst.operandsWithKinds →
    ∃ found, k.fullSignature[reg.toNat]? = some found ∧ found.accepts t = true
  /-- The result goes to the output or to a temporary. -/
  dest : k.layout.role? inst.dest.toNat = some .output ∨
    k.layout.role? inst.dest.toNat = some .temporary
  /-- A called function is in the table of its own family. -/
  function : ∀ family index, inst.function? = some (family, index) → index.toNat < family.size
  /-- A reduction stands in the last slot. -/
  last : inst.operation.isReduction = true → inst.pc + slotWidth = k.program.length

namespace Slot

/-- A slot is empty or holds an instruction that follows the rules. -/
def WellFormed (k : Kernel) : Slot → Prop
  | noop _ => True
  | instruction inst => inst.WellFormed k
  | fault _ _ => False

end Slot

namespace Kernel

/-- Signatures, counts and constants that fit each other. -/
structure WellFormedRegisters (k : Kernel) : Prop where
  few : k.fullSignature.length ≤ 255
  /-- The full signature goes on with the inputs behind the output. -/
  inputs : ∃ output rest, k.fullSignature = output :: (k.inputSignature ++ rest)
  counts : 1 + k.inputSignature.length + k.constants.length + k.temporaries =
    k.fullSignature.length
  constants : ∀ i c t, k.constants[i]? = some c →
    k.fullSignature[1 + k.inputSignature.length + i]? = some t → c.elementType.accepts t = true

/-- The rules for a whole kernel. -/
structure WellFormed (k : Kernel) : Prop extends k.WellFormedRegisters where
  aligned : k.program.length % slotWidth = 0
  program : ∃ insts, decodeProgram k.program.code = .ok insts ∧ insts ≠ [] ∧
    ∀ inst ∈ insts, inst.WellFormed k

/-- The first slot of the program that breaks a rule stands at `pc`. -/
def FaultAt (k : Kernel) (pc : Nat) : Prop :=
  ∃ before slot after, walk k.program.code = before ++ slot :: after ∧
    (∀ s ∈ before, s.WellFormed k) ∧ ¬ slot.WellFormed k ∧ slot.pc = pc

end Kernel

/-! ## Operands -/

namespace Operation

/-- Only the last operand can be an index. -/
theorem of_operandKinds_index {op : Operation} {i : Nat}
    (h : op.operandKinds[i]? = some .index) :
    op.hasIndex = true ∧ i = op.arguments.length + 1 := by
  have hnoop : op ≠ .noop := by
    rintro rfl
    cases h
  obtain ⟨t, ht⟩ := exists_result? hnoop
  rw [operandKinds_eq ht] at h
  cases i with
  | zero => cases h
  | succ i =>
    rw [List.getElem?_cons_succ, List.getElem?_append, List.length_map] at h
    split at h
    · simp [List.getElem?_map] at h
    · split at h
      · next hindex =>
        have := (List.getElem?_eq_some_iff.1 h).1
        rw [List.length_singleton] at this
        exact ⟨hindex, by omega⟩
      · cases h

end Operation

namespace Instruction

/-- The rule for one operand. Reduction axes have none. -/
def OperandFits (sig : Signature) (inst : Instruction) : OperandKind × UInt8 → Prop
  | (.register t, reg) => ∃ found, sig[reg.toNat]? = some found ∧ found.accepts t = true
  | (.index, index) =>
    ∀ family, inst.operation.family? = some family → index.toNat < family.size

theorem operation_ne_noop_of_hasIndex {inst : Instruction} (h : inst.operation.hasIndex = true) :
    inst.operation ≠ .noop := by
  intro hnoop
  rw [hnoop] at h
  cases h

/-- The index operand is the immediate. -/
theorem index_mem_operandsWithKinds_iff {inst : Instruction} {index : UInt8} :
    (.index, index) ∈ inst.operandsWithKinds ↔ inst.immediate? = some index := by
  rw [operandsWithKinds, List.mem_iff_getElem?]
  simp only [List.getElem?_zip_eq_some]
  constructor
  · rintro ⟨i, hkind, hoperand⟩
    obtain ⟨hindex, rfl⟩ := Operation.of_operandKinds_index hkind
    rw [immediate?_eq (operation_ne_noop_of_hasIndex hindex) hindex, hoperand]
  · intro h
    by_cases hindex : inst.operation.hasIndex = true
    · have hnoop := operation_ne_noop_of_hasIndex hindex
      rw [immediate?_eq hnoop hindex] at h
      exact ⟨_, Operation.operandKinds_index hnoop hindex, h⟩
    · rw [immediate?, if_neg hindex] at h
      cases h

theorem function?_eq_some_iff {inst : Instruction} {family : FunctionFamily} {index : UInt8} :
    inst.function? = some (family, index) ↔
      inst.operation.family? = some family ∧ inst.immediate? = some index := by
  simp [function?, Option.bind_eq_some_iff]

end Instruction

namespace Validation

variable {sig : Signature} {inst : Instruction} {position : Nat} {e : ValidationError}

theorem checkOperand_eq_ok_iff {operand : OperandKind × UInt8} :
    checkOperand sig inst position operand = .ok () ↔ inst.OperandFits sig operand := by
  obtain ⟨kind, byte⟩ := operand
  cases kind with
  | register t =>
    simp only [checkOperand, Instruction.OperandFits]
    cases sig[byte.toNat]? with
    | none => simp
    | some found => simp
  | index =>
    simp only [checkOperand, Instruction.OperandFits]
    cases inst.operation.family? with
    | none => simp
    | some family => simp

theorem pc_of_checkOperand {operand : OperandKind × UInt8}
    (h : checkOperand sig inst position operand = .error e) : e.pc? = some inst.pc := by
  unfold checkOperand at h
  repeat' split at h
  all_goals cases h
  all_goals rfl

theorem checkOperands_eq_ok_iff {operands : List (OperandKind × UInt8)} :
    checkOperands sig inst position operands = .ok () ↔
      ∀ operand ∈ operands, inst.OperandFits sig operand := by
  induction operands generalizing position with
  | nil => simp [checkOperands]
  | cons operand rest ih =>
    rw [checkOperands, check_bind_eq_ok_iff, checkOperand_eq_ok_iff, ih, List.forall_mem_cons]

theorem pc_of_checkOperands {operands : List (OperandKind × UInt8)}
    (h : checkOperands sig inst position operands = .error e) : e.pc? = some inst.pc := by
  induction operands generalizing position with
  | nil => cases h
  | cons operand rest ih =>
    rcases bind_eq_error_iff.1 h with h | ⟨_, _, h⟩
    · exact pc_of_checkOperand h
    · exact ih h

end Validation

/-! ## Instructions -/

namespace Validation

variable {k : Kernel} {inst : Instruction} {e : ValidationError}

theorem isWritable_iff {layout : RegisterLayout} {reg : Nat} :
    layout.isWritable reg = true ↔
      layout.role? reg = some .output ∨ layout.role? reg = some .temporary := by
  unfold RegisterLayout.isWritable
  cases layout.role? reg with
  | none => simp
  | some role => cases role <;> simp [RegisterRole.isWritable]

theorem checkInstruction_eq_ok_iff :
    checkInstruction k.program.length k.fullSignature (some k.layout) inst = .ok () ↔
      inst.WellFormed k := by
  unfold checkInstruction
  by_cases hplace : inst.operation.isReduction ∧ inst.pc + slotWidth ≠ k.program.length
  · rw [if_pos hplace]
    exact iff_of_false (fun h => by cases h) fun h => hplace.2 (h.last hplace.1)
  have hlast : inst.operation.isReduction = true → inst.pc + slotWidth = k.program.length := by
    simpa using hplace
  have hdest : checkDestination (some k.layout) inst = .ok () ↔
      k.layout.isWritable inst.dest.toNat = true := by
    simp [checkDestination]
  rw [if_neg hplace, check_bind_eq_ok_iff, checkOperands_eq_ok_iff, hdest, isWritable_iff]
  constructor
  · rintro ⟨hoperands, hwritable⟩
    refine ⟨fun t reg h => hoperands _ h, hwritable, fun family index h => ?_, hlast⟩
    obtain ⟨hfamily, hindex⟩ := Instruction.function?_eq_some_iff.1 h
    exact hoperands _ (Instruction.index_mem_operandsWithKinds_iff.2 hindex) family hfamily
  · rintro h
    refine ⟨?_, h.dest⟩
    rintro ⟨_ | _, byte⟩ hmem
    · exact h.registers _ _ hmem
    · have hindex := Instruction.index_mem_operandsWithKinds_iff.1 hmem
      exact fun family hfamily =>
        h.function _ _ (Instruction.function?_eq_some_iff.2 ⟨hfamily, hindex⟩)

theorem pc_of_checkInstruction {length : Nat} {sig : Signature} {layout? : Option RegisterLayout}
    (h : checkInstruction length sig layout? inst = .error e) : e.pc? = some inst.pc := by
  unfold checkInstruction at h
  split at h
  · cases h
    rfl
  · rcases bind_eq_error_iff.1 h with h | ⟨_, _, h⟩
    · exact pc_of_checkOperands h
    · unfold checkDestination at h
      repeat' split at h
      all_goals cases h
      all_goals rfl

end Validation

/-! ## Programs -/

section Programs

variable {k : Kernel} {slot : Slot} {e : ValidationError}

/-- What cannot be decoded is blamed where it stands. -/
theorem Instruction.pc_of_decodeHead_error {pc : Nat} {bytes : List UInt8} {cause : KernelError}
    (h : decodeHead pc bytes = .error cause) : cause.pc? = some pc := by
  rcases error_of_decodeHead h with ⟨byte, rfl⟩ | rfl
  · rfl
  · rfl

theorem Slot.pc_of_read {start pc : Nat} {bytes : List UInt8} {cause : KernelError}
    (h : read start bytes = .fault pc cause) : cause.pc? = some pc := by
  unfold read at h
  split at h
  · cases h
  · split at h
    · cases h
    · next hdecode =>
      cases h
      exact Instruction.pc_of_decodeHead_error hdecode

namespace Validation

theorem checkSlot_eq_ok_iff : checkSlot k.program.code k.program.length k.fullSignature
    (some k.layout) slot = .ok () ↔ slot.WellFormed k := by
  cases slot with
  | noop pc => exact iff_of_true rfl trivial
  | instruction inst => exact checkInstruction_eq_ok_iff
  | fault pc cause => exact iff_of_false (by cases cause <;> nofun) id

theorem pc_of_checkSlot (hmem : slot ∈ walk k.program.code)
    (h : checkSlot k.program.code k.program.length k.fullSignature (some k.layout) slot =
      .error e) : e.pc? = some slot.pc := by
  cases slot with
  | noop pc => cases h
  | instruction inst => exact pc_of_checkInstruction h
  | fault pc cause =>
    obtain ⟨start, hread⟩ := exists_read_of_mem_walkFrom hmem
    have hpc := Slot.pc_of_read hread.symm
    cases cause <;> cases h <;> first | exact hpc | rfl

end Validation

theorem instructionsOfSlots_wellFormed_iff {slots : List Slot} :
    (∀ slot ∈ slots, slot.WellFormed k) ↔
      (instructionsOfSlots slots).2 = none ∧
        ∀ inst ∈ (instructionsOfSlots slots).1, inst.WellFormed k := by
  induction slots with
  | nil => simp [instructionsOfSlots]
  | cons slot rest ih =>
    rw [List.forall_mem_cons, ih]
    cases slot with
    | noop pc => simp [instructionsOfSlots, Slot.WellFormed]
    | instruction inst =>
      simp [instructionsOfSlots, Slot.WellFormed]
      tauto
    | fault pc cause => simp [instructionsOfSlots, Slot.WellFormed]

namespace Validation

theorem checkProgram_eq_ok_iff_forM {code : List UInt8} {sig : Signature}
    {layout? : Option RegisterLayout} :
    checkProgram code sig layout? = .ok () ↔
      code.length % slotWidth = 0 ∧
        (walk code).forM (checkSlot code code.length sig layout?) = .ok () ∧
        (instructions code).1 ≠ [] := by
  refine ⟨fun h => ?_, fun ⟨haligned, hslots, hne⟩ => ?_⟩
  · obtain ⟨haligned, hne, hslots⟩ := whole_of_checkProgram h
    exact ⟨haligned, hslots, hne⟩
  · have hempty : ¬ (instructions code).1.isEmpty = true := by rwa [List.isEmpty_iff]
    rw [checkProgram, if_neg (not_not_intro haligned)]
    exact check_bind_eq_ok_iff.2 ⟨hslots, if_neg hempty⟩

/-- Only slots are blamed by their offset. -/
theorem checkProgram_eq_error_iff_forM {code : List UInt8} {sig : Signature}
    {layout? : Option RegisterLayout} {pc : Nat} (he : e.pc? = some pc) :
    checkProgram code sig layout? = .error e ↔
      code.length % slotWidth = 0 ∧
        (walk code).forM (checkSlot code code.length sig layout?) = .error e := by
  unfold checkProgram
  by_cases hragged : code.length % slotWidth ≠ 0
  · rw [if_pos hragged]
    refine iff_of_false (fun h => ?_) fun h => hragged h.1
    cases h
    cases he
  rw [if_neg hragged, bind_eq_error_iff, and_iff_right (Decidable.not_not.1 hragged)]
  refine or_iff_left ?_
  rintro ⟨_, _, hempty⟩
  split at hempty <;> cases hempty
  cases he

/-- The program of a kernel passes when it decodes into instructions that
follow the rules. -/
theorem checkProgram_eq_ok_iff :
    checkProgram k.program.code k.fullSignature (some k.layout) = .ok () ↔
      k.program.length % slotWidth = 0 ∧
        ∃ insts, decodeProgram k.program.code = .ok insts ∧ insts ≠ [] ∧
          ∀ inst ∈ insts, inst.WellFormed k := by
  have hslots : (walk k.program.code).forM (checkSlot k.program.code k.program.code.length
      k.fullSignature (some k.layout)) = .ok () ↔
      (instructions k.program.code).2 = none ∧
        ∀ inst ∈ (instructions k.program.code).1, inst.WellFormed k := by
    rw [forM_eq_ok_iff, instructions_eq, ← instructionsOfSlots_wellFormed_iff]
    exact forall₂_congr fun slot _ => checkSlot_eq_ok_iff
  rw [checkProgram_eq_ok_iff_forM, hslots]
  constructor
  · rintro ⟨haligned, ⟨hfault, hinsts⟩, hne⟩
    exact ⟨haligned, _, decodeProgram_eq_ok_iff.2 ⟨haligned, Prod.ext rfl hfault⟩, hne, hinsts⟩
  · rintro ⟨haligned, insts, hdecode, hne, hinsts⟩
    have heq := (decodeProgram_eq_ok_iff.1 hdecode).2
    rw [heq]
    exact ⟨haligned, ⟨rfl, hinsts⟩, hne⟩

/-- The program of a kernel is blamed at the first slot that breaks a rule. -/
theorem checkProgram_eq_error_iff {pc : Nat} :
    (∃ e, checkProgram k.program.code k.fullSignature (some k.layout) = .error e ∧
      e.pc? = some pc) ↔ k.program.length % slotWidth = 0 ∧ k.FaultAt pc := by
  constructor
  · rintro ⟨e, h, he⟩
    obtain ⟨haligned, hslots⟩ := (checkProgram_eq_error_iff_forM he).1 h
    obtain ⟨before, slot, after, hwalk, hbefore, hslot⟩ := forM_eq_error_iff.1 hslots
    have hpc := pc_of_checkSlot (hwalk ▸ by simp) hslot
    refine ⟨haligned, before, slot, after, hwalk,
      fun s hs => checkSlot_eq_ok_iff.1 (hbefore s hs), fun hok => ?_, ?_⟩
    · have := checkSlot_eq_ok_iff.2 hok
      exact absurd (hslot.symm.trans this) nofun
    · exact Option.some.inj (hpc.symm.trans he)
  · rintro ⟨haligned, before, slot, after, hwalk, hbefore, hslot, rfl⟩
    cases hcheck : checkSlot k.program.code k.program.length k.fullSignature (some k.layout)
      slot with
    | ok _ => exact absurd (checkSlot_eq_ok_iff.1 hcheck) hslot
    | error e =>
      have hpc := pc_of_checkSlot (hwalk ▸ by simp) hcheck
      have hslots := forM_eq_error_iff.2 ⟨before, slot, after, hwalk,
        fun s hs => checkSlot_eq_ok_iff.2 (hbefore s hs), hcheck⟩
      exact ⟨e, (checkProgram_eq_error_iff_forM hpc).2 ⟨haligned, hslots⟩, hpc⟩

theorem ne_uncountable_of_checkProgram
    (h : checkProgram k.program.code k.fullSignature (some k.layout) = .error e) :
    e ≠ .uncountable := by
  rintro rfl
  unfold checkProgram at h
  by_cases hragged : k.program.code.length % slotWidth ≠ 0
  · simp only [if_pos hragged] at h
    cases h
  simp only [if_neg hragged] at h
  rcases bind_eq_error_iff.1 h with hslots | ⟨_, -, h⟩
  · obtain ⟨before, slot, after, hwalk, -, hslot⟩ := forM_eq_error_iff.1 hslots
    cases pc_of_checkSlot (hwalk ▸ by simp) hslot
  · split at h <;> cases h

end Validation

end Programs

/-! ## Kernels -/

namespace Validation

theorem checkSignatures_eq_ok_iff {full inputs : Signature} :
    checkSignatures full inputs = .ok () ↔
      full.length ≤ 255 ∧ ∃ output rest, full = output :: (inputs ++ rest) := by
  constructor
  · intro h
    obtain ⟨hfew, hlength, hinputs⟩ := of_checkSignatures h
    cases full with
    | nil => cases hlength
    | cons output registers =>
      refine ⟨hfew, output, registers.drop inputs.length, ?_⟩
      rw [List.drop_succ_cons, List.drop_zero] at hinputs
      have hsplit := List.take_append_drop inputs.length registers
      rw [hinputs] at hsplit
      rw [hsplit]
  · rintro ⟨hfew, output, rest, rfl⟩
    have hfits : ¬ maxRegisters < (output :: (inputs ++ rest)).length := Nat.not_lt.2 hfew
    have hless : inputs.length < (output :: (inputs ++ rest)).length := by
      rw [List.length_cons, List.length_append]
      omega
    rw [checkSignatures, if_neg hfits, if_pos ⟨hless, List.take_left⟩]

theorem pc_of_checkSignatures {full inputs : Signature} {e : ValidationError}
    (h : checkSignatures full inputs = .error e) : e.pc? = none := by
  unfold checkSignatures at h
  repeat' split at h
  all_goals cases h
  all_goals rfl

theorem pc_of_checkConstants {constants : List Constant} {registers : Signature} {index : Nat}
    {e : ValidationError} (h : checkConstants index constants registers = .error e) :
    e.pc? = none := by
  fun_induction checkConstants index constants registers with
  | case1 index c constants expected registers _ ih => exact ih h
  | case2 =>
    cases h
    rfl
  | case3 => cases h

theorem ne_uncountable_of_checkConstants {constants : List Constant} {registers : Signature}
    {index : Nat} {e : ValidationError} (h : checkConstants index constants registers = .error e) :
    e ≠ .uncountable := by
  fun_induction checkConstants index constants registers with
  | case1 index c constants expected registers _ ih => exact ih h
  | case2 =>
    cases h
    exact nofun
  | case3 => cases h

theorem checkConstants_eq_ok_iff {constants : List Constant} {registers : Signature}
    {index : Nat} :
    checkConstants index constants registers = .ok () ↔
      ∀ (i : Nat) c t, constants[i]? = some c → registers[i]? = some t →
        c.elementType.accepts t = true := by
  refine ⟨fun h i c t hc ht => of_checkConstants h hc ht, fun h => ?_⟩
  induction constants generalizing registers index with
  | nil => rfl
  | cons first constants ih =>
    cases registers with
    | nil => rfl
    | cons expected registers =>
      rw [checkConstants, if_pos (h 0 first expected rfl rfl)]
      exact ih fun i => h (i + 1)

end Validation

namespace Kernel

open Validation

variable {k : Kernel}

/-- The checks before the program. -/
theorem checks_iff_wellFormedRegisters :
    (checkSignatures k.fullSignature k.inputSignature = .ok () ∧
      k.layout.size = k.registerCount ∧
      checkConstants 0 k.constants (k.fullSignature.drop k.layout.firstConstant) = .ok ()) ↔
      k.WellFormedRegisters := by
  rw [checkSignatures_eq_ok_iff, checkConstants_eq_ok_iff]
  simp only [List.getElem?_drop]
  constructor
  · rintro ⟨⟨hfew, hinputs⟩, hcounts, hconstants⟩
    exact ⟨hfew, hinputs, hcounts, hconstants⟩
  · rintro ⟨hfew, hinputs, hcounts, hconstants⟩
    exact ⟨⟨hfew, hinputs⟩, hcounts, hconstants⟩

/-- The registers that a valid kernel has can be counted. -/
theorem WellFormedRegisters.count? (h : k.WellFormedRegisters) :
    k.layout.count? = some k.layout.size := by
  have hcounts : k.layout.size = k.fullSignature.length := h.counts
  refine RegisterLayout.count?_eq_some ?_
  rw [hcounts]
  exact Nat.lt_of_le_of_lt h.few (by decide)

theorem validate_eq_ok_iff :
    k.validate = .ok () ↔ k.WellFormedRegisters ∧
      checkProgram k.program.code k.fullSignature (some k.layout) = .ok () := by
  constructor
  · intro h
    obtain ⟨hsig, hcounts, hconstants, hprogram⟩ := checks_of_validate h
    exact ⟨checks_iff_wellFormedRegisters.1 ⟨hsig, hcounts, hconstants⟩, hprogram⟩
  · rintro ⟨hregisters, hprogram⟩
    have hcount := hregisters.count?
    obtain ⟨hsig, hcounts, hconstants⟩ := checks_iff_wellFormedRegisters.2 hregisters
    rw [validate, check_bind_eq_ok_iff]
    simp only [hcount, if_neg (not_not_intro hcounts)]
    exact ⟨hsig, check_bind_eq_ok_iff.2 ⟨hconstants, hprogram⟩⟩

/-- Nothing but the count of its registers makes a kernel uncountable. -/
theorem count?_of_validate (h : k.validate = .error .uncountable) : k.layout.count? = none := by
  rw [Option.eq_none_iff_forall_ne_some]
  intro count hcount
  unfold validate at h
  rcases bind_eq_error_iff.1 h with hsig | ⟨_, -, h⟩
  · unfold checkSignatures at hsig
    repeat' split at hsig
    all_goals cases hsig
  simp only [hcount] at h
  split at h
  · cases h
  rcases bind_eq_error_iff.1 h with hconstants | ⟨_, -, hprogram⟩
  · exact ne_uncountable_of_checkConstants hconstants rfl
  · exact ne_uncountable_of_checkProgram hprogram rfl

/-- Only the program is blamed by offset. -/
theorem validate_eq_error_iff {e : ValidationError} {pc : Nat} (he : e.pc? = some pc) :
    k.validate = .error e ↔ k.WellFormedRegisters ∧
      checkProgram k.program.code k.fullSignature (some k.layout) = .error e := by
  constructor
  · intro h
    rcases bind_eq_error_iff.1 h with hsig | ⟨_, hsig, h⟩
    · cases (pc_of_checkSignatures hsig).symm.trans he
    cases hcount : k.layout.count? with
    | none =>
      simp only [hcount] at h
      cases h
      cases he
    | some count =>
      obtain ⟨-, rfl⟩ := RegisterLayout.count?_eq_some_iff.1 hcount
      simp only [hcount] at h
      by_cases hcounts : k.layout.size ≠ k.registerCount
      · rw [if_pos hcounts] at h
        cases h
        cases he
      rw [if_neg hcounts] at h
      rcases bind_eq_error_iff.1 h with hconstants | ⟨_, hconstants, hprogram⟩
      · cases (pc_of_checkConstants hconstants).symm.trans he
      · exact ⟨checks_iff_wellFormedRegisters.1 ⟨hsig, Decidable.not_not.1 hcounts, hconstants⟩,
          hprogram⟩
  · rintro ⟨hregisters, hprogram⟩
    have hcount := hregisters.count?
    obtain ⟨hsig, hcounts, hconstants⟩ := checks_iff_wellFormedRegisters.2 hregisters
    refine bind_eq_error_iff.2 (.inr ⟨_, hsig, ?_⟩)
    simp only [hcount, if_neg (not_not_intro hcounts)]
    exact bind_eq_error_iff.2 (.inr ⟨_, hconstants, hprogram⟩)

/-- Validation accepts exactly the well-formed kernels, and the errors that
point into the program point at the first slot that breaks a rule. -/
theorem validate_exact (k : Kernel) :
    (k.validate = .ok () ↔ k.WellFormed) ∧
      ∀ pc, (∃ e, k.validate = .error e ∧ e.pc? = some pc) ↔
        k.WellFormedRegisters ∧ k.program.length % slotWidth = 0 ∧ k.FaultAt pc := by
  refine ⟨?_, fun pc => ?_⟩
  · rw [validate_eq_ok_iff, checkProgram_eq_ok_iff]
    exact ⟨fun ⟨hregisters, haligned, hprogram⟩ => ⟨hregisters, haligned, hprogram⟩,
      fun h => ⟨h.toWellFormedRegisters, h.aligned, h.program⟩⟩
  · rw [← checkProgram_eq_error_iff]
    constructor
    · rintro ⟨e, h, he⟩
      obtain ⟨hregisters, hprogram⟩ := (validate_eq_error_iff he).1 h
      exact ⟨hregisters, e, hprogram, he⟩
    · rintro ⟨hregisters, e, hprogram, he⟩
      exact ⟨e, (validate_eq_error_iff he).2 ⟨hregisters, hprogram⟩, he⟩

end Kernel

end Lanewise
