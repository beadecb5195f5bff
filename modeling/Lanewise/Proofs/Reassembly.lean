import Lanewise.Proofs.Spelling

/-!
# Instructions read back

The text of an instruction is parsed and resolved to the instruction itself,
whatever its operand bytes are, with one exception: the axis byte 32 is a second
spelling of axis 0, and comes back as the first one (`Instruction.parse_assembly`).
-/

namespace Lanewise

open Assembly

namespace Instruction

/-- The instruction that a text stands for at an offset. -/
def ofAssembly (text : String) (pc : Nat) : Except AssemblyError Instruction := do
  resolve (← parseInstruction text) pc

/-- The instruction with a single spelling of axis 0. -/
def singleAxis (inst : Instruction) : Instruction :=
  if inst.operation.isReduction = true ∧ inst.operands[2] = 32 then
    { inst with operands := inst.operands.set 2 0 }
  else inst

variable {inst : Instruction}

/-- The operand kinds of a reduction. -/
theorem operandsWithKinds_reduce {reducer : Reducer} {t : ElementType}
    (h : inst.operation = .reduce reducer t) :
    inst.operandsWithKinds =
      [(.register t, inst.dest), (.register t, inst.operands[1]), (.index, inst.operands[2])] := by
  have hbytes : inst.operands.toList =
      [inst.dest, inst.operands[1], inst.operands[2], inst.operands[3]] := by
    conv => lhs; rw [inst.operands_eq]
    rfl
  rw [operandsWithKinds, h, hbytes]
  rfl

/-- An operand that is neither a register nor a function is the axis of a
reduction. -/
theorem axis_of_mem {byte : UInt8} (hmem : (.index, byte) ∈ inst.operandsWithKinds)
    (hfamily : inst.operation.family? = none) :
    inst.operation.isReduction = true ∧ byte = inst.operands[2] := by
  have hindex : OperandKind.index ∈ inst.operation.operandKinds :=
    (List.of_mem_zip hmem).1
  cases hop : inst.operation with
  | reduce reducer t =>
    rw [operandsWithKinds_reduce hop] at hmem
    simp at hmem
    exact ⟨rfl, hmem⟩
  | call family =>
    rw [hop] at hfamily
    cases hfamily
  | _ =>
    rw [hop] at hindex
    simp [Operation.operandKinds, Operation.hasIndex] at hindex

theorem singleAxis_operation : inst.singleAxis.operation = inst.operation := by
  unfold singleAxis
  split <;> rfl

theorem singleAxis_pc : inst.singleAxis.pc = inst.pc := by
  unfold singleAxis
  split <;> rfl

theorem singleAxis_operands_ne (h : inst.operation.isReduction = true) :
    inst.singleAxis.operands[2] ≠ 32 := by
  unfold singleAxis
  by_cases haxis : inst.operands[2] = 32
  · rw [if_pos ⟨h, haxis⟩]
    show (inst.operands.set 2 0)[2] ≠ 32
    rw [Vector.getElem_set_self]
    decide
  · rwa [if_neg fun hboth => haxis hboth.2]

/-- The bytes of axis 0 have the same text. -/
theorem singleAxis_assembly : inst.singleAxis.assembly = inst.assembly := by
  unfold singleAxis
  split
  · next h =>
    obtain ⟨hreduction, haxis⟩ := h
    obtain ⟨reducer, t, hop⟩ : ∃ reducer t, inst.operation = .reduce reducer t := by
      cases hop : inst.operation with
      | reduce reducer t => exact ⟨reducer, t, rfl⟩
      | _ =>
        rw [hop] at hreduction
        cases hreduction
    have hsame := @operandsWithKinds_reduce { inst with operands := inst.operands.set 2 0 }
      reducer t hop
    have hset (i : Nat) (hi : i < 4) (hne : 2 ≠ i) :
        (inst.operands.set 2 0)[i] = inst.operands[i] := Vector.getElem_set_ne (by decide) hi hne
    unfold assembly
    rw [hsame, operandsWithKinds_reduce hop]
    simp only [dest, hset 0 (by decide) (by decide), hset 1 (by decide) (by decide),
      Vector.getElem_set_self, haxis]
    have hoperation : ({ inst with operands := inst.operands.set 2 0 } : Instruction).operation =
        .reduce reducer t := hop
    rw [hoperation, hop]
    rfl
  · rfl

theorem canonical_singleAxis (h : inst.Padded) : inst.singleAxis.Canonical := by
  constructor
  · intro i hi hunused
    rw [singleAxis_operation] at hunused
    unfold singleAxis
    split
    · show (inst.operands.set 2 0)[i] = 0
      by_cases haxis : 2 = i
      · subst haxis
        exact Vector.getElem_set_self (by decide)
      · rw [Vector.getElem_set_ne (by decide) hi haxis]
        exact h i hi hunused
    · exact h i hi hunused
  · intro byte hmem hfamily
    obtain ⟨hreduction, rfl⟩ := axis_of_mem hmem hfamily
    rw [singleAxis_operation] at hreduction
    exact singleAxis_operands_ne hreduction

/-- The text of an instruction in canonical form stands for the instruction. -/
theorem ofAssembly_assembly (h : inst.Canonical) :
    ofAssembly inst.assembly inst.pc = .ok inst := by
  obtain ⟨operands, tokens, -, hlexes, hdenotes, hresolve⟩ := exists_lexes_assembly h
  have hlower : inst.mnemonic.toLower = inst.mnemonic := inst.opcode.toLower_mnemonic
  have hparse : parseInstruction inst.assembly = .ok ⟨1, inst.mnemonic, operands⟩ := by
    have hline := @parseLine_instruction _ _ 1 _ _ hlexes hdenotes
    rw [String.ofList_toList, hlower] at hline
    rw [parseInstruction, hline]
    rfl
  rw [ofAssembly, hparse]
  exact hresolve 1

/-- An instruction whose unused operand bytes are zero is read back from its text,
with any registers, function index and axis, apart from the second spelling of
axis 0. -/
theorem parse_assembly (inst : Instruction) (h : inst.Padded) :
    ofAssembly inst.assembly inst.pc =
      .ok (if inst.operation.isReduction = true ∧ inst.operands[2] = 32 then
        { inst with operands := inst.operands.set 2 0 } else inst) := by
  have hback := ofAssembly_assembly (canonical_singleAxis h)
  rw [singleAxis_assembly, singleAxis_pc] at hback
  exact hback

/-- A function index outside its family, and the lowest axis that can be written. -/
theorem parse_assembly_extremes :
    let call : Instruction := ⟨8, ⟨62, by decide⟩, #v[255, 0, 200, 0]⟩
    let sum : Instruction := ⟨12, ⟨100, by decide⟩, #v[0, 255, 254, 0]⟩
    (call.Padded ∧ ofAssembly call.assembly 8 = .ok call) ∧
      sum.Padded ∧ ofAssembly sum.assembly 12 = .ok sum := by
  intro call sum
  have hcall : call.Padded := by
    unfold Padded
    decide
  have hsum : sum.Padded := by
    unfold Padded
    decide
  exact ⟨⟨hcall, parse_assembly call hcall⟩, hsum, parse_assembly sum hsum⟩

/-- A program whose only instruction is a sum over axis 0 in its second spelling. The
text names the axis, so the first spelling comes back. -/
theorem not_parse_assembly :
    ¬ ∀ (code : List UInt8) (pc : Nat) (inst : Instruction), decodeAt code pc = .ok inst →
      inst.Padded → ofAssembly inst.assembly inst.pc = .ok inst := by
  intro h
  let sum : Instruction := ⟨0, ⟨100, by decide⟩, #v[0, 1, 32, 0]⟩
  have hdecode : decodeAt [100, 0, 1, 32] 0 = .ok sum := by decide
  have hpadded : sum.Padded := by
    unfold Padded
    decide
  have hback : ofAssembly sum.assembly 0 = .ok ⟨0, ⟨100, by decide⟩, #v[0, 1, 0, 0]⟩ := by
    decide +kernel
  have hsame := hback.symm.trans (h [100, 0, 1, 32] 0 sum hdecode hpadded)
  revert hsame
  decide

end Instruction

end Lanewise
