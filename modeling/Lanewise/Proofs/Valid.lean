import Mathlib.Data.List.Forall2
import Lanewise.Validation
import Lanewise.Proofs.Lane
import Lanewise.Proofs.Walk
import Lanewise.Proofs.Sequences

/-!
# Valid kernels

What a kernel that passes validation is like, as facts about its signature and
its instructions. Nothing behind this module looks at the checks again.
-/

namespace Lanewise

/-! ## Rules of operations -/

namespace Rule

/-- Types that the rule reads. -/
def arguments : Rule → List ElementType
  | .map arguments _ _ => arguments
  | .fold t _ => [t]

/-- Type that the rule writes. -/
def result : Rule → ElementType
  | .map _ result _ => result
  | .fold t _ => t

def isFold : Rule → Bool
  | .map _ _ _ => false
  | .fold _ _ => true

end Rule

theorem FunctionFamily.rule?_shape {family : FunctionFamily} {index : UInt8} {rule : Rule}
    (h : family.rule? index = some rule) :
    rule.arguments = List.replicate family.arity family.elementType ∧
      rule.result = family.elementType ∧ rule.isFold = false := by
  cases family <;>
  · simp only [FunctionFamily.rule?, Option.map_eq_some_iff] at h
    obtain ⟨_, _, rfl⟩ := h
    exact ⟨rfl, rfl, rfl⟩

theorem Operation.rule?_shape {op : Operation} {index : UInt8} {rule : Rule}
    (h : op.rule? index = some rule) :
    rule.arguments = op.arguments ∧ op.result? = some rule.result ∧
      rule.isFold = op.isReduction := by
  cases op with
  | noop => cases h
  | call family =>
    obtain ⟨harguments, hresult, hfold⟩ := FunctionFamily.rule?_shape h
    exact ⟨harguments, congrArg some hresult.symm, hfold⟩
  | copy | invert | and | or | select | real | imag | complex =>
    cases h
    exact ⟨rfl, rfl, rfl⟩
  | compare | cast | onesLike | neg | arithmetic | sqrt | reduce =>
    obtain ⟨_, _, rfl⟩ := Option.map_eq_some_iff.1 h
    exact ⟨rfl, rfl, rfl⟩

theorem Opcode.isSome_rule? (op : Opcode) (index : UInt8) (hnoop : op.operation ≠ .noop)
    (hindex : ∀ family, op.operation.family? = some family → index.toNat < family.size) :
    (op.operation.rule? index).isSome := by
  cases hop : op.operation with
  | call family =>
    rw [Operation.rule?, FunctionFamily.isSome_rule?, decide_eq_true_iff]
    exact hindex family (by rw [hop]; rfl)
  | _ =>
    have hall : ∀ n (hn : n < instructionSet.size), instructionSet[n].family? = none →
        instructionSet[n] ≠ .noop → (instructionSet[n].rule? 0).isSome := by decide
    have := hall _ op.isDefined (by exact (congrArg Operation.family? hop)) hnoop
    change (op.operation.rule? 0).isSome at this
    rw [hop] at this
    exact this

/-! ## Instructions -/

namespace Instruction

/-- What validation says about an instruction: it has a rule, its sources and
its destination have types that the rule takes, and it may write there. -/
structure WellTyped (sig : Signature) (layout : RegisterLayout) (inst : Instruction) : Prop where
  rule : inst.rule?.isSome
  sources : List.Forall₂
    (fun reg t => ∃ found, sig[reg.toNat]? = some found ∧ found.accepts t = true)
    inst.sources inst.operation.arguments
  dest : ∀ t, inst.operation.result? = some t →
    ∃ found, sig[inst.dest.toNat]? = some found ∧ found.accepts t = true
  writable : layout.isWritable inst.dest.toNat = true

end Instruction

namespace Validation

theorem checkOperand_of_mem {sig : Signature} {inst : Instruction} {position : Nat}
    {operands : List (OperandKind × UInt8)} (h : checkOperands sig inst position operands = .ok ())
    {operand : OperandKind × UInt8} (hmem : operand ∈ operands) :
    ∃ p, checkOperand sig inst p operand = .ok () := by
  induction operands generalizing position with
  | nil => cases hmem
  | cons first rest ih =>
    rw [checkOperands] at h
    obtain ⟨_, hfirst, hrest⟩ := bind_eq_ok_iff.1 h
    rcases List.mem_cons.1 hmem with rfl | hmem
    · exact ⟨position, hfirst⟩
    · exact ih hrest hmem

theorem register_of_checkOperand {sig : Signature} {inst : Instruction} {position : Nat}
    {t : ElementType} {reg : UInt8}
    (h : checkOperand sig inst position (.register t, reg) = .ok ()) :
    ∃ found, sig[reg.toNat]? = some found ∧ found.accepts t = true := by
  simp only [checkOperand] at h
  split at h
  · cases h
  · next found hfound =>
    split at h
    · next haccepts => exact ⟨found, hfound, haccepts⟩
    · cases h

theorem index_of_checkOperand {sig : Signature} {inst : Instruction} {position : Nat}
    {index : UInt8} (h : checkOperand sig inst position (.index, index) = .ok ())
    {family : FunctionFamily} (hfamily : inst.operation.family? = some family) :
    index.toNat < family.size := by
  simp only [checkOperand, hfamily] at h
  split at h
  · assumption
  · cases h

/-- The parts of the check of one instruction. -/
theorem of_checkInstruction {length : Nat} {sig : Signature} {layout : RegisterLayout}
    {inst : Instruction} (h : checkInstruction length sig (some layout) inst = .ok ()) :
    (inst.operation.isReduction = true → inst.pc + slotWidth = length) ∧
      checkOperands sig inst 0 inst.operandsWithKinds = .ok () ∧
      layout.isWritable inst.dest.toNat = true := by
  unfold checkInstruction at h
  by_cases hplace : inst.operation.isReduction ∧ inst.pc + slotWidth ≠ length
  · rw [if_pos hplace] at h
    cases h
  rw [if_neg hplace] at h
  obtain ⟨_, hoperands, hdest⟩ := bind_eq_ok_iff.1 h
  refine ⟨fun hred => ?_, hoperands, ?_⟩
  · by_contra hpc
    exact hplace ⟨hred, hpc⟩
  · simp only [checkDestination] at hdest
    split at hdest
    · assumption
    · cases hdest

end Validation

namespace Operation

theorem exists_result? {op : Operation} (hnoop : op ≠ .noop) : ∃ t, op.result? = some t := by
  cases op <;> first | exact absurd rfl hnoop | exact ⟨_, rfl⟩

theorem hasIndex_of_family? {op : Operation} {family : FunctionFamily}
    (h : op.family? = some family) : op.hasIndex = true := by
  cases op <;> first | rfl | cases h

/-- The destination, the sources and the index, in encoding order. -/
theorem operandKinds_eq {op : Operation} {t : ElementType} (h : op.result? = some t) :
    op.operandKinds = .register t ::
      (op.arguments.map .register ++ if op.hasIndex then [.index] else []) := by
  simp [operandKinds, h]

theorem operandKinds_source {op : Operation} (hnoop : op ≠ .noop) {i : Nat}
    (h : i < op.arguments.length) : op.operandKinds[i + 1]? = some (.register op.arguments[i]) := by
  obtain ⟨t, ht⟩ := exists_result? hnoop
  rw [operandKinds_eq ht, List.getElem?_cons_succ, List.getElem?_append_left (by simpa using h)]
  simp [h]

theorem operandKinds_index {op : Operation} (hnoop : op ≠ .noop) (h : op.hasIndex = true) :
    op.operandKinds[op.arguments.length + 1]? = some .index := by
  obtain ⟨t, ht⟩ := exists_result? hnoop
  simp [operandKinds_eq ht, h]

theorem operandCount_eq {op : Operation} (hnoop : op ≠ .noop) :
    op.operandCount = op.arguments.length + 1 + if op.hasIndex then 1 else 0 := by
  obtain ⟨t, ht⟩ := exists_result? hnoop
  rw [operandCount, operandKinds_eq ht]
  split <;> simp

end Operation

namespace Instruction

theorem immediate?_eq {inst : Instruction} (hnoop : inst.operation ≠ .noop)
    (h : inst.operation.hasIndex = true) :
    inst.immediate? = inst.operands.toList[inst.operation.arguments.length + 1]? := by
  have hcount := inst.operation.operandCount_le
  rw [Operation.operandCount_eq hnoop, if_pos h] at hcount
  rw [immediate?, if_pos h, usedOperands, List.getLast?_eq_getElem?, List.length_take,
    Operation.operandCount_eq hnoop, if_pos h]
  have : min (inst.operation.arguments.length + 1 + 1) inst.operands.toList.length - 1
      = inst.operation.arguments.length + 1 := by
    rw [Vector.length_toList]
    omega
  rw [this, List.getElem?_take, if_pos (by omega)]

open Validation in
/-- The check of the operand at a position. -/
theorem checkOperand_of_kind {sig : Signature} {inst : Instruction}
    (h : checkOperands sig inst 0 inst.operandsWithKinds = .ok ()) {i : Nat} {kind : OperandKind}
    {operand : UInt8} (hkind : inst.operation.operandKinds[i]? = some kind)
    (hoperand : inst.operands.toList[i]? = some operand) :
    ∃ p, checkOperand sig inst p (kind, operand) = .ok () := by
  apply checkOperand_of_mem h
  rw [operandsWithKinds, List.mem_iff_getElem?]
  exact ⟨i, by rw [List.getElem?_zip_eq_some]; exact ⟨hkind, hoperand⟩⟩

open Validation in
theorem wellTyped_of_check {length : Nat} {sig : Signature} {layout : RegisterLayout}
    {inst : Instruction} (hnoop : inst.operation ≠ .noop)
    (h : checkInstruction length sig (some layout) inst = .ok ()) : inst.WellTyped sig layout := by
  obtain ⟨-, hoperands, hwritable⟩ := of_checkInstruction h
  have hcount := inst.operation.operandCount_le
  rw [Operation.operandCount_eq hnoop] at hcount
  refine ⟨?_, ?_, ?_, hwritable⟩
  · refine Opcode.isSome_rule? _ _ hnoop fun family hfamily => ?_
    have hindex : inst.operation.hasIndex = true := Operation.hasIndex_of_family? hfamily
    rw [if_pos hindex] at hcount
    have hlt : inst.operation.arguments.length + 1 < inst.operands.toList.length := by
      rw [Vector.length_toList]
      omega
    have hsome := List.getElem?_eq_getElem hlt
    obtain ⟨p, hp⟩ := checkOperand_of_kind hoperands
      (Operation.operandKinds_index hnoop hindex) hsome
    rw [immediate?_eq hnoop hindex, hsome]
    exact index_of_checkOperand hp hfamily
  · rw [List.forall₂_iff_get]
    have hlen : inst.sources.length = inst.operation.arguments.length := by
      rw [sources, List.length_take, List.length_drop, Vector.length_toList]
      omega
    refine ⟨hlen, fun i hi hi' => ?_⟩
    have hsource : inst.operands.toList[i + 1]? = some (inst.sources.get ⟨i, hi⟩) := by
      simp only [sources, List.get_eq_getElem, List.getElem_take, List.getElem_drop]
      rw [List.getElem?_eq_getElem (by rw [Vector.length_toList]; omega)]
      simp only [Nat.add_comm]
    obtain ⟨p, hp⟩ := checkOperand_of_kind hoperands (Operation.operandKinds_source hnoop hi')
      hsource
    exact register_of_checkOperand hp
  · intro t ht
    have hdest : inst.operands.toList[0]? = some inst.dest := by simp [dest]
    obtain ⟨p, hp⟩ := checkOperand_of_kind hoperands (by rw [Operation.operandKinds_eq ht]; rfl)
      hdest
    exact register_of_checkOperand hp

end Instruction

/-! ## Kernels -/

namespace Validation

theorem of_checkSignatures {full inputs : Signature} (h : checkSignatures full inputs = .ok ()) :
    full.length ≤ maxRegisters ∧ inputs.length < full.length ∧
      (full.drop 1).take inputs.length = inputs := by
  unfold checkSignatures at h
  split at h
  · cases h
  · next hcount =>
    split at h
    · next hinputs => exact ⟨Nat.not_lt.1 hcount, hinputs⟩
    · cases h

theorem of_checkConstants {constants : List Constant} {registers : Signature} {index : Nat}
    (h : checkConstants index constants registers = .ok ()) {i : Nat} {c : Constant}
    {t : ElementType} (hc : constants[i]? = some c) (ht : registers[i]? = some t) :
    c.elementType.accepts t = true := by
  induction constants generalizing registers index i with
  | nil => cases hc
  | cons first constants ih =>
    cases registers with
    | nil => cases ht
    | cons expected registers =>
      unfold checkConstants at h
      split at h
      · next haccepts =>
        cases i with
        | zero =>
          cases hc
          cases ht
          exact haccepts
        | succ i => exact ih h hc ht
      · cases h

theorem checkSlot_of_forM {slots : List Slot} {f : Slot → Except ValidationError Unit}
    (h : slots.forM f = .ok ()) {slot : Slot} (hmem : slot ∈ slots) : f slot = .ok () := by
  induction slots with
  | nil => cases hmem
  | cons first rest ih =>
    rw [List.forM_eq_forM, List.forM_cons] at h
    obtain ⟨_, hfirst, hrest⟩ := bind_eq_ok_iff.1 h
    rcases List.mem_cons.1 hmem with rfl | hmem
    · exact hfirst
    · exact ih hrest hmem

/-- A program that passes consists of whole slots and has instructions. -/
theorem whole_of_checkProgram {code : List UInt8} {sig : Signature}
    {layout? : Option RegisterLayout} (h : checkProgram code sig layout? = .ok ()) :
    code.length % slotWidth = 0 ∧ (instructions code).1 ≠ [] ∧
      (walk code).forM (checkSlot code code.length sig layout?) = .ok () := by
  unfold checkProgram at h
  by_cases hragged : code.length % slotWidth ≠ 0
  · rw [if_pos hragged] at h
    cases h
  rw [if_neg hragged] at h
  obtain ⟨_, hslots, hempty⟩ := bind_eq_ok_iff.1 h
  refine ⟨Decidable.not_not.1 hragged, fun hnil => ?_, hslots⟩
  rw [hnil] at hempty
  cases hempty

/-- A program that passes has no faults, and each of its instructions passes. -/
theorem of_checkProgram {code : List UInt8} {sig : Signature} {layout : RegisterLayout}
    (h : checkProgram code sig (some layout) = .ok ()) :
    (instructions code).2 = none ∧
      ∀ inst ∈ (instructions code).1,
        checkInstruction code.length sig (some layout) inst = .ok () := by
  obtain ⟨-, -, hslots⟩ := whole_of_checkProgram h
  rw [instructions_eq]
  refine ⟨?_, fun inst hinst => checkSlot_of_forM hslots (instruction_mem_of_mem hinst)⟩
  have hall := fun slot (hslot : slot ∈ walk code) => checkSlot_of_forM hslots hslot
  generalize walk code = slots at hall
  induction slots with
  | nil => rfl
  | cons slot rest ih =>
    have hrest := ih fun slot hmem => hall slot (.tail _ hmem)
    cases slot with
    | noop pc => exact hrest
    | instruction inst => exact hrest
    | fault pc cause =>
      have := hall _ (.head _)
      cases cause <;> cases this

end Validation

namespace Kernel

/-- What validation says about a kernel. -/
structure Valid (k : Kernel) : Prop where
  registers : k.fullSignature.length ≤ maxRegisters
  layout : k.layout.size = k.fullSignature.length
  input : ∀ i t, k.inputSignature[i]? = some t → k.fullSignature[i + 1]? = some t
  constant : ∀ i c t, k.constants[i]? = some c →
    k.fullSignature[k.layout.firstConstant + i]? = some t → c.elementType.accepts t = true
  steps : predecode k.program.code = k.instructions.map .execute
  wellTyped : ∀ inst ∈ k.instructions, inst.WellTyped k.fullSignature k.layout
  last : ∀ inst ∈ k.instructions, inst.operation.isReduction = true →
    inst.pc + slotWidth = k.program.code.length

open Validation in
/-- The parts of the check of a kernel. -/
theorem checks_of_validate {k : Kernel} (h : k.validate = .ok ()) :
    checkSignatures k.fullSignature k.inputSignature = .ok () ∧
      k.layout.size = k.registerCount ∧
      checkConstants 0 k.constants (k.fullSignature.drop k.layout.firstConstant) = .ok () ∧
      checkProgram k.program.code k.fullSignature (some k.layout) = .ok () := by
  unfold validate at h
  obtain ⟨_, hsig, h⟩ := bind_eq_ok_iff.1 h
  cases hcount : k.layout.count? with
  | none =>
    rw [hcount] at h
    cases h
  | some count =>
    obtain ⟨-, rfl⟩ := RegisterLayout.count?_eq_some_iff.1 hcount
    simp only [hcount] at h
    by_cases hlayout : k.layout.size ≠ k.registerCount
    · rw [if_pos hlayout] at h
      cases h
    rw [if_neg hlayout] at h
    obtain ⟨_, hconst, hprogram⟩ := bind_eq_ok_iff.1 h
    exact ⟨hsig, Decidable.not_not.1 hlayout, hconst, hprogram⟩

/-- The registers of a valid kernel can be counted. -/
theorem Valid.count? {k : Kernel} (hk : k.Valid) : k.layout.count? = some k.layout.size := by
  refine RegisterLayout.count?_eq_some ?_
  have h := hk.registers
  rw [← hk.layout] at h
  exact Nat.lt_of_le_of_lt h (by decide)

theorem valid_of_validate {k : Kernel} (h : k.validate = .ok ()) : k.Valid := by
  obtain ⟨hsig, hlayout, hconst, hprogram⟩ := checks_of_validate h
  obtain ⟨hregisters, hinputs, hprefix⟩ := Validation.of_checkSignatures hsig
  obtain ⟨hfault, hinsts⟩ := Validation.of_checkProgram hprogram
  refine ⟨hregisters, hlayout, ?_, ?_, predecode_of_no_fault hfault, ?_, ?_⟩
  · intro i t ht
    rw [← hprefix, List.getElem?_take] at ht
    split at ht
    · rwa [List.getElem?_drop, Nat.add_comm] at ht
    · cases ht
  · intro i c t hc ht
    exact Validation.of_checkConstants hconst hc (by rwa [List.getElem?_drop])
  · exact fun inst hinst =>
      Instruction.wellTyped_of_check (operation_ne_noop_of_mem hinst) (hinsts inst hinst)
  · exact fun inst hinst => (Validation.of_checkInstruction (hinsts inst hinst)).1

end Kernel

end Lanewise
