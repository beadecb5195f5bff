import Lanewise.Proofs.Walk

/-!
# Encoded programs

An encoded instruction is decoded again whatever stands behind it, so the walk
over the bytes of encoded instructions meets these instructions
(`walkFrom_encode`).
-/

namespace Lanewise

namespace Instruction

variable {inst : Instruction}

/-- The operand bytes that the operation does not use are zero. -/
def Padded (inst : Instruction) : Prop :=
  ∀ i (h : i < 4), inst.operation.operandCount ≤ i → inst.operands[i] = 0

theorem getD_usedOperands (h : inst.Padded) {i : Nat} (hi : i < 4) :
    inst.usedOperands.getD i 0 = inst.operands[i] := by
  rw [usedOperands, List.getD_eq_getElem?_getD, List.getElem?_take]
  split
  · simp [hi]
  · next hge => exact (h i hi (Nat.not_lt.1 hge)).symm

theorem operands_eq (inst : Instruction) : inst.operands =
    #v[inst.operands.get 0, inst.operands.get 1, inst.operands.get 2, inst.operands.get 3] := by
  ext i hi
  match i, hi with
  | 0, _ | 1, _ | 2, _ | 3, _ => rfl

theorem encode_eq (h : inst.Padded) : inst.encode =
    inst.opcode.byte :: inst.operands.get 0 :: inst.operands.get 1 :: inst.operands.get 2 ::
      if inst.operation.isDoubleWidth then [Opcode.noop.byte, inst.operands.get 3, 0, 0]
      else [] := by
  simp only [encode, encodeSlots, getD_usedOperands h (show 0 < 4 by decide),
    getD_usedOperands h (show 1 < 4 by decide), getD_usedOperands h (show 2 < 4 by decide),
    getD_usedOperands h (show 3 < 4 by decide)]
  rfl

/-- An encoded instruction is decoded again, whatever stands behind it. -/
theorem decodeHead_encode (h : inst.Padded) (rest : List UInt8) :
    decodeHead inst.pc (inst.encode ++ rest) = .ok inst := by
  have hoperands := inst.operands_eq
  rw [encode_eq h]
  by_cases hdouble : inst.operation.isDoubleWidth = true
  · have hdouble' : inst.opcode.operation.isDoubleWidth = true := hdouble
    simp [decodeHead, Opcode.ofByte?_byte, hdouble, hdouble', ← hoperands]
  · have hdouble' : ¬ inst.opcode.operation.isDoubleWidth = true := hdouble
    have hlast : inst.operands.get 3 = 0 := by
      refine h 3 (by decide) ?_
      simpa [Operation.isDoubleWidth] using hdouble
    rw [hlast] at hoperands
    simp [decodeHead, Opcode.ofByte?_byte, hdouble, hdouble', ← hoperands]

/-! ## Slots -/

/-- The slot an instruction makes in a program. -/
def slot (inst : Instruction) : Slot :=
  if inst.opcode = Opcode.noop then .noop inst.pc else .instruction inst

theorem width_slot (inst : Instruction) : inst.slot.width = inst.width := by
  unfold slot
  split
  · next h =>
    unfold width operation
    rw [h]
    rfl
  · rfl

theorem read_encode (h : inst.Padded) (rest : List UInt8) :
    Slot.read inst.pc (inst.encode ++ rest) = inst.slot := by
  have hhead : (inst.encode ++ rest).head? = some inst.opcode.byte := by
    rw [encode_eq h]
    rfl
  have hnoop : inst.opcode.byte = Opcode.noop.byte ↔ inst.opcode = Opcode.noop := by
    rw [Opcode.mk.injEq]
  rw [Slot.read, slot, hhead, decodeHead_encode h]
  simp only [Option.some.injEq, hnoop]

end Instruction

/-! ## Programs -/

/-- The instructions stand one behind the other from `pc` on. -/
def Placed (pc : Nat) : List Instruction → Prop
  | [] => True
  | inst :: rest => inst.pc = pc ∧ Placed (pc + inst.width) rest

theorem walkFrom_of_ne_nil {pc : Nat} {bytes : List UInt8} (h : bytes ≠ []) :
    walkFrom pc bytes =
      let slot := Slot.read pc bytes
      slot :: walkFrom (pc + slot.width) (bytes.drop slot.width) := by
  cases bytes with
  | nil => exact absurd rfl h
  | cons b rest => rw [walkFrom]

/-- A walk over encoded instructions meets each of them. -/
theorem walkFrom_encode {pc : Nat} {insts : List Instruction} (hplaced : Placed pc insts)
    (hpadded : ∀ inst ∈ insts, inst.Padded) :
    walkFrom pc (insts.flatMap Instruction.encode) = insts.map Instruction.slot := by
  induction insts generalizing pc with
  | nil =>
    rw [List.flatMap_nil, walkFrom]
    rfl
  | cons inst insts ih =>
    obtain ⟨rfl, hplaced⟩ := hplaced
    obtain ⟨hinst, hinsts⟩ := List.forall_mem_cons.1 hpadded
    have hread := Instruction.read_encode hinst (insts.flatMap Instruction.encode)
    have hdrop : (inst.encode ++ insts.flatMap Instruction.encode).drop inst.width =
        insts.flatMap Instruction.encode := by
      rw [← inst.length_encode, List.drop_left]
    have hne : inst.encode ++ insts.flatMap Instruction.encode ≠ [] := by
      rw [Instruction.encode_eq hinst]
      exact List.cons_ne_nil _ _
    rw [List.flatMap_cons, List.map_cons, walkFrom_of_ne_nil hne]
    simp only [hread, inst.width_slot, hdrop, ih hplaced hinsts]

end Lanewise
