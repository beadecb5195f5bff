import Lanewise.Proofs.Listings
import Lanewise.Proofs.Walkers

/-!
# Slots of assembled programs

The instruction lines of a source text and the slots of its program correspond one
to one, in order (`listSlots_assemble`). A `noop` line makes an empty slot. Any other
line makes the instruction that it resolves to at the offset of its slot, and since
the slots lie side by side, that offset counts the bytes in front of it.
-/

namespace Lanewise

namespace Assembly

/-! ## Lines -/

/-- A text is parsed line by line, each with its number; the lines that say something
make the statements. -/
theorem exists_said_of_parseLines {line : Nat} {texts : List (List Char)}
    {statements : List Statement} (h : parseLines line texts = .ok statements) :
    ∃ said : List (Option Statement),
      List.Forall₂ (fun text said? => parseLine text.2 (String.ofList text.1) = .ok said?)
        (texts.zipIdx line) said ∧
      statements = said.filterMap id := by
  induction texts generalizing line statements with
  | nil =>
    cases h
    exact ⟨[], .nil, rfl⟩
  | cons text texts ih =>
    obtain ⟨said?, hline, h⟩ := bind_eq_ok_iff.1 h
    obtain ⟨more, hmore, h⟩ := bind_eq_ok_iff.1 h
    cases h
    obtain ⟨said, hsaid, rfl⟩ := ih hmore
    refine ⟨said? :: said, ?_, ?_⟩
    · rw [List.zipIdx_cons]
      exact .cons hline hsaid
    · cases said? <;> rfl

/-! ## Slots -/

/-- What the slot of an instruction line holds: nothing for `noop`, and for any other
line the instruction that it resolves to where the slot stands. -/
def Fills (line : InstructionLine) (slot : Slot) : Prop :=
  if line.mnemonic = "noop" then slot = .noop slot.pc
  else ∃ inst, slot = .instruction inst ∧ resolve line slot.pc = .ok inst

/-- Only the mnemonic `noop` stands for the empty slot. -/
theorem opcode_eq_noop_iff {line : InstructionLine} {pc : Nat} {inst : Instruction}
    (h : resolve line pc = .ok inst) : inst.opcode = Opcode.noop ↔ line.mnemonic = "noop" := by
  obtain ⟨opcode, bytes, hopcode, -, -, rfl⟩ := resolve_eq_ok_iff.1 h
  show opcode = Opcode.noop ↔ line.mnemonic = "noop"
  have hfound : Opcode.ofMnemonic? line.mnemonic = some opcode := by
    unfold opcodeOf at hopcode
    split at hopcode
    · split at hopcode
      · cases hopcode
      · cases hopcode
        assumption
    · cases hopcode
  constructor
  · intro hnoop
    have hname := List.find?_some hfound
    rw [beq_iff_eq, hnoop, Opcode.mnemonic_noop] at hname
    exact hname.symm
  · intro hname
    have hnoop := Opcode.ofMnemonic?_mnemonic Opcode.noop
    rw [Opcode.mnemonic_noop, ← hname, hfound] at hnoop
    exact Option.some.inj hnoop

theorem fills_slot {line : InstructionLine} {inst : Instruction}
    (h : resolve line inst.pc = .ok inst) : Fills line inst.slot := by
  unfold Fills Instruction.slot
  by_cases hnoop : inst.opcode = Opcode.noop
  · rw [if_pos hnoop, if_pos ((opcode_eq_noop_iff h).1 hnoop)]
    rfl
  · rw [if_neg hnoop, if_neg (mt (opcode_eq_noop_iff h).2 hnoop)]
    exact ⟨inst, rfl, h⟩

theorem Fills.isFault_eq {line : InstructionLine} {slot : Slot} (h : Fills line slot) :
    slot.isFault = false := by
  unfold Fills at h
  split at h
  · rw [h]
    rfl
  · obtain ⟨inst, rfl, -⟩ := h
    rfl

/-- The instructions among the slots belong to the lines other than `noop`. -/
theorem forall₂_instructions {lines : List InstructionLine} {slots : List Slot}
    (h : List.Forall₂ Fills lines slots) :
    List.Forall₂ (fun line inst => resolve line inst.pc = .ok inst)
      (lines.filter (·.mnemonic ≠ "noop")) (slots.filterMap Slot.instruction?) := by
  induction h with
  | nil => exact .nil
  | @cons line slot lines slots hfirst hrest ih =>
    unfold Fills at hfirst
    by_cases hnoop : line.mnemonic = "noop"
    · rw [if_pos hnoop] at hfirst
      rw [hfirst, List.filter_cons_of_neg (by simpa using hnoop)]
      exact ih
    · rw [if_neg hnoop] at hfirst
      obtain ⟨inst, rfl, hline⟩ := hfirst
      rw [List.filter_cons_of_pos (by simpa using hnoop)]
      exact .cons hline ih

end Assembly

open Assembly

/-! ## Programs -/

/-- The program of a source text is a whole number of slots without faults that lie
side by side. They correspond to the instruction lines of the text, in order, and so
do the instructions among them to the lines other than `noop`. -/
theorem listSlots_assemble {source : String} {p : Program} (h : assemble source = .ok p) :
    ∃ (said : List (Option Statement)) (slots : List Slot),
      -- what the lines of the text say, by number
      List.Forall₂ (fun text said? => parseLine text.2 (String.ofList text.1) = .ok said?)
        ((linesOf source.toList).zipIdx 1) said ∧
      p.length % slotWidth = 0 ∧
      listSlots p.code = .ok slots ∧
      (∀ slot ∈ slots, slot.isFault = false) ∧
      Slot.Tile 0 p.length slots ∧
      let lines := said.filterMap (·.bind Statement.instructionLine?)
      List.Forall₂ Fills lines slots ∧
        List.Forall₂ (fun line inst => resolve line inst.pc = .ok inst)
          (lines.filter (·.mnemonic ≠ "noop")) (slots.filterMap Slot.instruction?) := by
  obtain ⟨statements, hparse, h⟩ := bind_eq_ok_iff.1 h
  obtain ⟨code, hcode, h⟩ := bind_eq_ok_iff.1 h
  cases h
  obtain ⟨said, hsaid, rfl⟩ := exists_said_of_parseLines hparse
  obtain ⟨insts, rfl, hplaced, hresolved⟩ := exists_resolved_of_encodeStatements hcode
  have hpadded : ∀ inst ∈ insts, inst.Padded := by
    intro inst hmem
    obtain ⟨line, -, hline⟩ := exists_of_mem_of_forall₂ hresolved hmem
    exact (canonical_of_resolve hline).padded
  have hlist := listSlots_encode hplaced hpadded
  have hwhole : (insts.flatMap Instruction.encode).length % slotWidth = 0 :=
    Nat.mod_eq_zero_of_dvd (slotWidth_dvd_length_encode insts)
  have htile := Slot.tile_walkFrom 0 (insts.flatMap Instruction.encode) hwhole
  rw [walkFrom_encode hplaced hpadded, Nat.zero_add] at htile
  have hfills : List.Forall₂ Fills ((said.filterMap id).filterMap Statement.instructionLine?)
      (insts.map Instruction.slot) := by
    rw [List.forall₂_map_right_iff]
    exact hresolved.imp fun line inst => fills_slot
  rw [List.filterMap_filterMap] at hfills
  refine ⟨said, insts.map Instruction.slot, hsaid, hwhole, hlist, ?_, htile, hfills,
    forall₂_instructions hfills⟩
  intro slot hmem
  obtain ⟨line, -, hline⟩ := exists_of_mem_of_forall₂ hfills hmem
  exact hline.isFault_eq

/-- Blank lines and directives make no slot, and a line may hold any spelling of its
mnemonic. -/
theorem listSlots_assemble_choice :
    let source := ".temps il\n\nWHERE_ibii r4, r1, r2, r3 # two slots\nNoop\nsum_iin r0, r4, -1"
    ∃ p, assemble source = .ok p ∧
      ∃ slots, listSlots p.code = .ok slots ∧ slots.map Slot.pc = [0, 8, 12] ∧
        Slot.Tile 0 16 slots := by
  intro source
  have hassembled : assemble source =
      .ok ⟨[37, 4, 1, 2, 0, 3, 0, 0, 0, 0, 0, 0, 100, 0, 4, 33]⟩ := by decide +kernel
  obtain ⟨said, slots, -, -, hlist, -, htile, -⟩ := listSlots_assemble hassembled
  refine ⟨_, hassembled, slots, hlist, ?_, htile⟩
  have hcomputed : (listSlots [37, 4, 1, 2, 0, 3, 0, 0, 0, 0, 0, 0, 100, 0, 4, 33]).toOption.map
      (·.map Slot.pc) = some [0, 8, 12] := by decide +kernel
  rw [hlist] at hcomputed
  exact Option.some.inj hcomputed

end Lanewise
