import Lanewise.Proofs.Encoding

/-!
# Programs with empty slots

Instructions that are encoded one behind the other, with any number of empty
slots around them, are decoded again (`decodeProgram_encodeSpaced`): the empty
slots only move the instructions behind them.
-/

namespace Lanewise

/-- The bytes of empty slots. -/
def emptySlots (count : Nat) : List UInt8 :=
  List.replicate (count * slotWidth) 0

/-- The bytes of instructions, each with a number of empty slots in front. -/
def encodeSpaced (spaced : List (Nat × Instruction)) : List UInt8 :=
  spaced.flatMap fun (gap, inst) => emptySlots gap ++ inst.encode

/-- The instructions where they stand in a program, of which these bytes start at
offset `pc`. -/
def standing (pc : Nat) : List (Nat × Instruction) → List Instruction
  | [] => []
  | (gap, inst) :: rest =>
    let start := pc + gap * slotWidth
    { inst with pc := start } :: standing (start + inst.width) rest

@[simp] theorem length_emptySlots (count : Nat) :
    (emptySlots count).length = count * slotWidth := by
  simp [emptySlots]

theorem length_encodeSpaced_cons (gap : Nat) (inst : Instruction)
    (rest : List (Nat × Instruction)) :
    (encodeSpaced ((gap, inst) :: rest)).length =
      gap * slotWidth + inst.width + (encodeSpaced rest).length := by
  simp [encodeSpaced, inst.length_encode, Nat.add_assoc]

/-! ## Walks -/

/-- An empty slot tells a walk nothing but where the next slot is. -/
theorem instructionsOfSlots_emptySlots (pc count : Nat) (rest : List UInt8) :
    instructionsOfSlots (walkFrom pc (emptySlots count ++ rest)) =
      instructionsOfSlots (walkFrom (pc + count * slotWidth) rest) := by
  induction count generalizing pc with
  | zero => simp [emptySlots]
  | succ count ih =>
    have hbytes : emptySlots (count + 1) ++ rest =
        0 :: 0 :: 0 :: 0 :: (emptySlots count ++ rest) := by
      simp [emptySlots, slotWidth, Nat.add_mul, List.replicate_succ]
    have hread : Slot.read pc (0 :: 0 :: 0 :: 0 :: (emptySlots count ++ rest)) = .noop pc := rfl
    rw [hbytes, walkFrom]
    simp only [hread, Slot.width, instructionsOfSlots]
    show instructionsOfSlots (walkFrom (pc + slotWidth) (emptySlots count ++ rest)) = _
    rw [ih]
    congr 2
    rw [Nat.succ_mul]
    omega

/-- A walk takes an encoded instruction off the front and stands behind it. -/
theorem instructionsOfSlots_encode {inst : Instruction} (hnoop : inst.opcode ≠ Opcode.noop)
    (hpadded : inst.Padded) (pc : Nat) (rest : List UInt8) :
    instructionsOfSlots (walkFrom pc (inst.encode ++ rest)) =
      let behind := instructionsOfSlots (walkFrom (pc + inst.width) rest)
      ({ inst with pc := pc } :: behind.1, behind.2) := by
  have hne : inst.encode ++ rest ≠ [] := by
    rw [Instruction.encode_eq hpadded]
    exact List.cons_ne_nil _ _
  have hread : Slot.read pc (inst.encode ++ rest) = .instruction { inst with pc := pc } := by
    have hslot := @Instruction.read_encode { inst with pc := pc } hpadded rest
    rw [Instruction.slot, if_neg hnoop] at hslot
    exact hslot
  have hwidth : ({ inst with pc := pc } : Instruction).width = inst.width := rfl
  rw [walkFrom_of_ne_nil hne]
  simp only [hread, Slot.width, hwidth, instructionsOfSlots]
  rw [← inst.length_encode, List.drop_left]

theorem instructionsOfSlots_encodeSpaced {spaced : List (Nat × Instruction)}
    (h : ∀ gap inst, (gap, inst) ∈ spaced → inst.opcode ≠ Opcode.noop ∧ inst.Padded)
    (last pc : Nat) :
    instructionsOfSlots (walkFrom pc (encodeSpaced spaced ++ emptySlots last)) =
      (standing pc spaced, none) := by
  induction spaced generalizing pc with
  | nil =>
    have hempty := instructionsOfSlots_emptySlots pc last []
    rw [List.append_nil] at hempty
    simp [encodeSpaced, standing, hempty, walkFrom, instructionsOfSlots]
  | cons first spaced ih =>
    obtain ⟨gap, inst⟩ := first
    obtain ⟨hnoop, hpadded⟩ := h gap inst (.head _)
    have hrest := ih fun gap inst hmem => h gap inst (.tail _ hmem)
    have hbytes : encodeSpaced ((gap, inst) :: spaced) ++ emptySlots last =
        emptySlots gap ++ (inst.encode ++ (encodeSpaced spaced ++ emptySlots last)) := by
      simp [encodeSpaced]
    rw [hbytes, instructionsOfSlots_emptySlots, instructionsOfSlots_encode hnoop hpadded, hrest]
    rfl

/-! ## Positions -/

theorem length_standing (pc : Nat) (spaced : List (Nat × Instruction)) :
    (standing pc spaced).length = spaced.length := by
  induction spaced generalizing pc with
  | nil => rfl
  | cons first spaced ih => simp [standing, ih]

/-- An instruction stands behind all bytes in front of it. -/
theorem getElem?_standing (pc : Nat) (before : List (Nat × Instruction)) (gap : Nat)
    (inst : Instruction) (after : List (Nat × Instruction)) :
    (standing pc (before ++ (gap, inst) :: after))[before.length]? =
      some { inst with pc := pc + (encodeSpaced before ++ emptySlots gap).length } := by
  induction before generalizing pc with
  | nil => simp [standing, encodeSpaced]
  | cons first before ih =>
    obtain ⟨gap', inst'⟩ := first
    have hlength := length_encodeSpaced_cons gap' inst' before
    simp only [List.cons_append, standing, List.length_cons, List.getElem?_cons_succ, ih,
      List.length_append, hlength, Option.some.injEq, Instruction.mk.injEq, and_true]
    omega

theorem slotWidth_dvd_length_encodeSpaced (spaced : List (Nat × Instruction)) :
    slotWidth ∣ (encodeSpaced spaced).length := by
  induction spaced with
  | nil => exact Nat.dvd_zero _
  | cons first spaced ih =>
    obtain ⟨gap, inst⟩ := first
    rw [length_encodeSpaced_cons]
    refine Nat.dvd_add (Nat.dvd_add (Nat.dvd_mul_left _ _) ?_) ih
    unfold Instruction.width
    split <;> decide

/-! ## Programs -/

/-- Encoded instructions are decoded in their order, each with the number of bytes
in front of it, however many empty slots stand around them. The program is prepared
as the same instructions. -/
theorem decodeProgram_encodeSpaced (spaced : List (Nat × Instruction)) (last : Nat)
    (h : ∀ gap inst, (gap, inst) ∈ spaced → inst.opcode ≠ Opcode.noop ∧ inst.Padded) :
    let code := encodeSpaced spaced ++ emptySlots last
    ∃ insts, decodeProgram code = .ok insts ∧ predecode code = insts.map .execute ∧
      insts.length = spaced.length ∧
      ∀ before gap inst after, spaced = before ++ (gap, inst) :: after →
        insts[before.length]? =
          some { inst with pc := (encodeSpaced before ++ emptySlots gap).length } := by
  intro code
  have hinsts : instructions code = (standing 0 spaced, none) := by
    rw [instructions_eq, walk, instructionsOfSlots_encodeSpaced h]
  have hwhole : code.length % slotWidth = 0 := by
    apply Nat.mod_eq_zero_of_dvd
    rw [List.length_append, length_emptySlots]
    exact Nat.dvd_add (slotWidth_dvd_length_encodeSpaced spaced) (Nat.dvd_mul_left _ _)
  refine ⟨standing 0 spaced, decodeProgram_eq_ok_iff.2 ⟨hwhole, hinsts⟩, ?_,
    length_standing 0 spaced, ?_⟩
  · have hnone : (instructions code).2 = none := by rw [hinsts]
    have hsteps := predecode_of_no_fault hnone
    rw [hsteps, hinsts]
  · rintro before gap inst after rfl
    have hplace := getElem?_standing 0 before gap inst after
    rwa [Nat.zero_add] at hplace

/-- `where_ibii` behind an empty slot, `neg_ii` directly behind its second slot, and
a sum behind two empty slots; offsets that the instructions had before do not count. -/
def spacedChoice : List (Nat × Instruction) :=
  [(1, ⟨90, ⟨37, by decide⟩, #v[4, 1, 2, 3]⟩), (0, ⟨0, ⟨30, by decide⟩, #v[4, 4, 0, 0]⟩),
    (2, ⟨7, ⟨100, by decide⟩, #v[0, 4, 255, 0]⟩)]

theorem decodeProgram_encodeSpaced_choice :
    (∀ gap inst, (gap, inst) ∈ spacedChoice → inst.opcode ≠ Opcode.noop ∧ inst.Padded) ∧
    ∃ insts, decodeProgram (encodeSpaced spacedChoice ++ emptySlots 1) = .ok insts ∧
      insts.map (·.pc) = [4, 12, 24] := by
  have hreal : ∀ gap inst, (gap, inst) ∈ spacedChoice →
      inst.opcode ≠ Opcode.noop ∧ inst.Padded := by
    unfold Instruction.Padded
    intro gap inst hmem
    simp only [spacedChoice, List.mem_cons, List.not_mem_nil, or_false, Prod.mk.injEq] at hmem
    rcases hmem with ⟨-, rfl⟩ | ⟨-, rfl⟩ | ⟨-, rfl⟩ <;> decide
  obtain ⟨insts, hdecode, -, -, -⟩ := decodeProgram_encodeSpaced spacedChoice 1 hreal
  refine ⟨hreal, insts, hdecode, ?_⟩
  have hcomputed : (decodeProgram (encodeSpaced spacedChoice ++ emptySlots 1)).toOption.map
      (·.map (·.pc)) = some [4, 12, 24] := by decide +kernel
  rw [hdecode] at hcomputed
  exact Option.some.inj hcomputed

end Lanewise
