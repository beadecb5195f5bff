import Lanewise.Assembly.Listing
import Lanewise.Proofs.Walk

/-!
# Agreement of the walkers

A listing, a cursor and the preparation for execution go over the same bytes in
loops of their own, with their own rules for what is no instruction. Up to the first
fault they see the same instructions, on whatever bytes, and the strict decoder
accepts the programs in which they see nothing else (`walkers_agree`).
-/

namespace Lanewise

namespace Step

def instruction? : Step → Option Instruction
  | execute inst => some inst
  | invalid _ | truncated _ => none

@[simp] theorem filterMap_instruction?_map (insts : List Instruction) :
    (insts.map execute).filterMap instruction? = insts := by
  rw [List.filterMap_map]
  exact List.filterMap_some

theorem StandsFor.instruction?_eq {step : Step} {cause : KernelError} (h : step.StandsFor cause) :
    step.instruction? = none := by
  cases h with
  | invalid pc byte => rfl
  | truncated pc => rfl

end Step

namespace Slot

def instruction? : Slot → Option Instruction
  | instruction inst => some inst
  | noop _ | fault _ _ => none

def isFault : Slot → Bool
  | fault _ _ => true
  | noop _ | instruction _ => false

/-- The slots follow each other from `start` to `stop`, without gap or overlap. -/
def Tile (start stop : Nat) : List Slot → Prop
  | [] => start = stop
  | slot :: rest => slot.pc = start ∧ Tile (start + slot.width) stop rest

/-- A slot that is read from whole slots lies within them. -/
theorem width_read_le {pc : Nat} {bytes : List UInt8} (hne : bytes ≠ [])
    (hwhole : bytes.length % slotWidth = 0) : (read pc bytes).width ≤ bytes.length := by
  have hfirst : slotWidth ≤ bytes.length := by
    have := List.length_pos_iff.2 hne
    unfold slotWidth at *
    omega
  cases hslot : read pc bytes with
  | noop here => exact hfirst
  | fault here cause => exact hfirst
  | instruction inst =>
    exact (Instruction.bytes_of_decodeHead (decodeHead_of_read hslot).1).2.1

theorem tile_walkFrom (pc : Nat) (bytes : List UInt8) (hwhole : bytes.length % slotWidth = 0) :
    Tile pc (pc + bytes.length) (walkFrom pc bytes) := by
  fun_induction walkFrom pc bytes with
  | case1 pc => rfl
  | case2 pc b rest slot ih =>
    have hle : slot.width ≤ (b :: rest).length := width_read_le (by simp) hwhole
    have hmod := slot.width_mod
    have hbehind := ih (by
      rw [List.length_drop]
      unfold slotWidth at *
      omega)
    have hstop : pc + slot.width + ((b :: rest).drop slot.width).length
        = pc + (b :: rest).length := by
      rw [List.length_drop]
      omega
    rw [hstop] at hbehind
    exact ⟨pc_read _ _, hbehind⟩

/-- The instructions before the first fault. -/
theorem fst_instructionsOfSlots (slots : List Slot) :
    (instructionsOfSlots slots).1
      = (slots.takeWhile (! ·.isFault)).filterMap instruction? := by
  induction slots with
  | nil => rfl
  | cons slot rest ih =>
    cases slot with
    | noop pc => exact ih
    | instruction inst => exact congrArg (inst :: ·) ih
    | fault pc cause => rfl

end Slot

theorem fst_instructions_go (items : List (Except KernelError Instruction)) :
    (instructions.go items).1 = (items.takeWhile Except.isOk).filterMap Except.toOption := by
  induction items with
  | nil => rfl
  | cons item rest ih =>
    cases item with
    | ok inst => exact congrArg (inst :: ·) ih
    | error cause => rfl

theorem filterMap_instruction?_predecode (code : List UInt8) :
    (predecode code).filterMap Step.instruction? = (instructions code).1 := by
  rcases instructions_cases code with ⟨-, -, hsteps⟩ | ⟨cause, step, -, hstep, -, hsteps⟩
  · rw [hsteps, Step.filterMap_instruction?_map]
  · rw [hsteps, List.filterMap_append, Step.filterMap_instruction?_map]
    simp [hstep.instruction?_eq]

/-- A cursor ends with a fault where the prepared program ends with a mark. -/
theorem marks_of_items (code : List UInt8) :
    (∀ pc, (predecode code).getLast? = some (.invalid pc) ↔
      ∃ byte, (Cursor.start code).items.getLast? = some (.error (.unknownOpcode pc byte))) ∧
    (∀ pc, (predecode code).getLast? = some (.truncated pc) ↔
      (Cursor.start code).items.getLast? = some (.error (.truncated pc))) ∧
    ∀ cause, (Cursor.start code).items.getLast? = some (.error cause) →
      (∃ pc byte, cause = .unknownOpcode pc byte) ∨ ∃ pc, cause = .truncated pc := by
  rcases instructions_cases code with ⟨-, hitems, hsteps⟩ | ⟨cause, step, -, hstep, hitems, hsteps⟩
  · rw [hitems, hsteps]
    simp
  · rw [hitems, hsteps]
    cases hstep with
    | invalid pc byte => simp
    | truncated pc => simp

/-- A program without faults is one that is prepared without a mark. -/
theorem decodeProgram_eq_ok_iff_predecode {code : List UInt8} {insts : List Instruction}
    (hwhole : code.length % slotWidth = 0) :
    decodeProgram code = .ok insts ↔ predecode code = insts.map .execute := by
  rw [decodeProgram_eq_ok_iff, and_iff_right hwhole]
  rcases instructions_cases code with ⟨hfault, -, hsteps⟩ | ⟨cause, step, hfault, hstep, -, hsteps⟩
  · rw [hsteps, (List.map_injective_iff.2 fun _ _ => Step.execute.inj).eq_iff]
    exact ⟨fun h => congrArg Prod.fst h, fun h => Prod.ext h hfault⟩
  · constructor
    · intro h
      rw [h] at hfault
      cases hfault
    · intro h
      -- the mark would be an instruction
      have hmem : step ∈ insts.map .execute := by
        rw [← h, hsteps]
        simp
      obtain ⟨inst, -, rfl⟩ := List.mem_map.1 hmem
      cases hstep

/-- Whatever the bytes are, the walkers agree on the instructions before the first
fault, and on where that is. In whole slots, a listing leaves no byte out. -/
theorem walkers_agree (code : List UInt8) :
    let items := (Cursor.start code).items
    let steps := predecode code
    let executed := steps.filterMap Step.instruction?
    -- what is executed comes before the first fault
    executed = (items.takeWhile Except.isOk).filterMap Except.toOption ∧
    -- the mark at the end stands for a fault at the same place
    (∀ pc, steps.getLast? = some (.invalid pc) ↔
      ∃ byte, items.getLast? = some (.error (.unknownOpcode pc byte))) ∧
    (∀ pc, steps.getLast? = some (.truncated pc) ↔
      items.getLast? = some (.error (.truncated pc))) ∧
    (∀ cause, items.getLast? = some (.error cause) →
      (∃ pc byte, cause = .unknownOpcode pc byte) ∨ ∃ pc, cause = .truncated pc) ∧
    (code.length % slotWidth = 0 →
      (∀ insts, decodeProgram code = .ok insts ↔ steps = insts.map .execute) ∧
      ∃ slots, listSlots code = .ok slots ∧
        (slots.takeWhile (! ·.isFault)).filterMap Slot.instruction? = executed ∧
        Slot.Tile 0 code.length slots) := by
  intro items steps executed
  have hexecuted : executed = (instructions code).1 := filterMap_instruction?_predecode code
  obtain ⟨hinvalid, htruncated, hcauses⟩ := marks_of_items code
  refine ⟨hexecuted.trans (fst_instructions_go _), hinvalid, htruncated, hcauses, ?_⟩
  intro hwhole
  refine ⟨fun insts => decodeProgram_eq_ok_iff_predecode hwhole, walk code, ?_, ?_, ?_⟩
  · rw [listSlots, if_neg (by simp [hwhole])]
  · rw [hexecuted, instructions_eq, Slot.fst_instructionsOfSlots]
  · have htile := Slot.tile_walkFrom 0 code hwhole
    rwa [Nat.zero_add] at htile

/-- An empty slot, `invert_bb` and `where_ibii`, an unknown byte, and `where_ibii`
again without its second slot. -/
def garbled : List UInt8 :=
  [0, 0, 0, 0, 2, 0, 1, 0, 37, 0, 1, 2, 0, 3, 0, 0, 255, 0, 0, 0, 37, 0, 1, 2]

theorem walkers_agree_garbled :
    garbled.length % slotWidth = 0 ∧
    ((predecode garbled).filterMap Step.instruction?).map (·.pc) = [4, 8] ∧
    (∃ byte, (Cursor.start garbled).items.getLast? = some (.error (.unknownOpcode 16 byte))) ∧
    ∃ slots, listSlots garbled = .ok slots ∧ slots.map Slot.pc = [0, 4, 8, 16, 20] ∧
      Slot.Tile 0 24 slots := by
  have hwhole : garbled.length % slotWidth = 0 := by decide
  have hmark : (predecode garbled).getLast? = some (.invalid 16) := by decide +kernel
  obtain ⟨-, hinvalid, -, -, hslots⟩ := walkers_agree garbled
  obtain ⟨-, slots, hlist, -, htile⟩ := hslots hwhole
  have hwalk : slots = walk garbled := by
    rw [listSlots, if_neg (by simp [hwhole])] at hlist
    exact (Except.ok.inj hlist).symm
  refine ⟨hwhole, by decide +kernel, (hinvalid 16).1 hmark, slots, hlist, ?_, htile⟩
  rw [hwalk]
  decide +kernel

end Lanewise
