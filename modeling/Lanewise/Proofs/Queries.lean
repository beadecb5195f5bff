import Lanewise.Proofs.Block

/-!
# Queries of a program

The queries look at the first bytes of the last slots, execution goes from
instruction to instruction. In a valid program both end up at the same
instruction, if the second slot of a double-width instruction at the end looks
empty. Encoding leaves that slot empty; validation does not look at its first byte.
-/

namespace Lanewise

/-! ## The heads of the slots -/

/-- Bytes that are a whole number of slots start with a slot, if there are any. -/
theorem eq_nil_or_exists_slot {bytes : List UInt8} (h : bytes.length % slotWidth = 0) :
    bytes = [] ∨ ∃ head a b c rest, bytes = head :: a :: b :: c :: rest := by
  rcases bytes with _ | ⟨head, _ | ⟨a, _ | ⟨b, _ | ⟨c, rest⟩⟩⟩⟩
  · exact .inl rfl
  · simp [slotWidth] at h
  · simp [slotWidth] at h
  · simp [slotWidth] at h
  · exact .inr ⟨head, a, b, c, rest, rfl⟩

namespace Program

/-- First byte of the last slot that does not look empty. -/
def lastHead? (code : List UInt8) : Option UInt8 :=
  (slotHeads code).reverse.find? (· != Opcode.noop.byte)

theorem lastOpcode?_eq (p : Program) : p.lastOpcode? = (lastHead? p.code).bind Opcode.ofByte? :=
  rfl

/-- What comes last is looked for behind the first slot first. -/
theorem lastHead?_cons (head a b c : UInt8) (rest : List UInt8) :
    lastHead? (head :: a :: b :: c :: rest)
      = (lastHead? rest).or (if head = Opcode.noop.byte then none else some head) := by
  unfold lastHead?
  rw [slotHeads, List.reverse_cons, List.find?_append]
  by_cases hhead : head = Opcode.noop.byte
  · simp [hhead]
  · simp [hhead]

/-- The last slot of a program of whole slots. -/
theorem getLast?_slotHeads {code : List UInt8} (h : code.length % slotWidth = 0) :
    (slotHeads code).getLast? = code[code.length - slotWidth]? := by
  induction code using slotHeads.induct with
  | case1 head a b c rest ih =>
    unfold slotWidth at *
    simp only [List.length_cons] at h ⊢
    specialize ih (by omega)
    rw [slotHeads, List.getLast?_cons, ih]
    by_cases hrest : rest = []
    · subst hrest
      rfl
    · have hlen : 0 < rest.length := List.length_pos_iff.2 hrest
      have hshift : rest.length + 1 + 1 + 1 + 1 - 4 = (rest.length - 4) + 4 := by omega
      rw [hshift, List.getElem?_eq_getElem (by omega : rest.length - 4 < rest.length)]
      simp
  | case2 bytes hshort =>
    rcases eq_nil_or_exists_slot h with rfl | ⟨head, a, b, c, rest, rfl⟩
    · rfl
    · exact absurd rfl (hshort head a b c rest)

theorem finalOpcode?_eq {p : Program} (h : p.code.length % slotWidth = 0) :
    p.finalOpcode? = (slotHeads p.code).getLast?.bind Opcode.ofByte? := by
  rw [getLast?_slotHeads h, finalOpcode?, length]
  split
  · next hshort =>
    have hnil : p.code = [] := List.eq_nil_of_length_eq_zero (by
      unfold slotWidth at *
      omega)
    simp [hnil]
  · rfl

theorem isReduction_eq {p : Program} (h : p.code.length % slotWidth = 0) :
    p.isReduction
      = ((slotHeads p.code).getLast?.bind Opcode.ofByte?).any (·.operation.isReduction) := by
  rw [isReduction, reduction?, finalOpcode?_eq h]
  cases (slotHeads p.code).getLast?.bind Opcode.ofByte? with
  | none => rfl
  | some op => cases hop : op.operation.isReduction <;> simp [hop]

/-- A last slot that does not look empty is the one found by going back. -/
theorem lastHead?_of_getLast? {code : List UInt8} {head : UInt8}
    (h : (slotHeads code).getLast? = some head) (hhead : head ≠ Opcode.noop.byte) :
    lastHead? code = some head := by
  obtain ⟨front, hfront⟩ := List.getLast?_eq_some_iff.1 h
  simp [lastHead?, hfront, hhead]

end Program

/-! ## The heads and the walk -/

namespace Slot

theorem head_of_read_noop {pc here : Nat} {bytes : List UInt8} (h : read pc bytes = .noop here) :
    bytes.head? = some Opcode.noop.byte := by
  by_contra hne
  rw [read, if_neg hne] at h
  split at h <;> cases h

end Slot

namespace Instruction

/-- The slots that an instruction was decoded from. -/
theorem slots_of_decodeHead {pc : Nat} {bytes : List UInt8} {inst : Instruction}
    (h : decodeHead pc bytes = .ok inst) :
    (inst.operation.isDoubleWidth = false ∧
      ∃ a b c, bytes = inst.opcode.byte :: a :: b :: c :: bytes.drop inst.width) ∨
    (inst.operation.isDoubleWidth = true ∧
      ∃ a b c second d e f, bytes = inst.opcode.byte :: a :: b :: c :: second :: d :: e :: f ::
        bytes.drop inst.width) := by
  unfold decodeHead at h
  split at h
  · next op a b c rest =>
    split at h
    · cases h
    · next opcode hop =>
      have hbyte := Opcode.byte_of_ofByte? hop
      split at h
      · next hdouble =>
        split at h
        · next second d e f rest =>
          cases h
          exact .inr ⟨hdouble, a, b, c, second, d, e, f,
            by simp [width, operation, hdouble, slotWidth, hbyte]⟩
        · cases h
      · next hdouble =>
        cases h
        exact .inl ⟨Bool.eq_false_iff.2 hdouble, a, b, c,
          by simp [width, operation, hdouble, slotWidth, hbyte]⟩
  · cases h

/-- The second slot of an instruction looks empty, if it has one. -/
def SecondSlotEmpty (code : List UInt8) (inst : Instruction) : Prop :=
  inst.operation.isDoubleWidth = true → code[inst.pc + slotWidth]? = some Opcode.noop.byte

/-- An instruction is found by going back, unless something behind it is. -/
theorem lastHead?_of_decodeHead {pc : Nat} {bytes : List UInt8} {inst : Instruction}
    (h : decodeHead pc bytes = .ok inst) (hhead : inst.opcode.byte ≠ Opcode.noop.byte)
    (hsecond : Program.lastHead? (bytes.drop inst.width) = none →
      inst.operation.isDoubleWidth = true → bytes[slotWidth]? = some Opcode.noop.byte) :
    Program.lastHead? bytes
      = (Program.lastHead? (bytes.drop inst.width)).or (some inst.opcode.byte) := by
  have hslots := slots_of_decodeHead h
  generalize bytes.drop inst.width = behind at *
  rcases hslots with ⟨-, a, b, c, rfl⟩ | ⟨hdouble, a, b, c, second, d, e, f, rfl⟩
  · rw [Program.lastHead?_cons, if_neg hhead]
  · rw [Program.lastHead?_cons, Program.lastHead?_cons, if_neg hhead]
    cases hbehind : Program.lastHead? behind with
    | some byte => rfl
    | none =>
      have hempty : second = Opcode.noop.byte := Option.some.inj (hsecond hbehind hdouble)
      rw [if_pos hempty]
      rfl

end Instruction

open Instruction Program in
/-- Going back over the slots that look empty ends at the last instruction of a
walk without faults. -/
theorem lastHead?_of_walkFrom {code : List UInt8} {pc : Nat} {bytes : List UInt8}
    (hbytes : bytes = code.drop pc) (hlen : bytes.length % slotWidth = 0)
    (hfault : (instructionsOfSlots (walkFrom pc bytes)).2 = none)
    (hsecond : ∀ last, (instructionsOfSlots (walkFrom pc bytes)).1.getLast? = some last →
      SecondSlotEmpty code last) :
    Program.lastHead? bytes
      = (instructionsOfSlots (walkFrom pc bytes)).1.getLast?.map (·.opcode.byte) := by
  fun_induction walkFrom pc bytes with
  | case1 => rfl
  | case2 pc first rest slot ih =>
    have hdrop : (first :: rest).drop slot.width = code.drop (pc + slot.width) := by
      rw [hbytes, List.drop_drop]
    have hbehind : ((first :: rest).drop slot.width).length % slotWidth = 0 := by
      have hwidth := slot.width_mod
      rw [List.length_drop]
      unfold slotWidth at *
      omega
    cases hslot : slot with
    | fault pc cause =>
      rw [hslot] at hfault
      cases hfault
    | noop here =>
      rw [hslot] at ih hfault hsecond hdrop hbehind
      have hhead : first = Opcode.noop.byte := Option.some.inj (Slot.head_of_read_noop hslot)
      rcases eq_nil_or_exists_slot hlen with hnil | ⟨head, a, b, c, behind, heq⟩
      · cases hnil
      obtain ⟨rfl, rfl⟩ := List.cons.inj heq
      rw [Program.lastHead?_cons, if_pos hhead, Option.or_none]
      exact ih hdrop hbehind hfault hsecond
    | instruction inst =>
      rw [hslot] at ih hfault hsecond hdrop hbehind
      obtain ⟨hdecode, hhead⟩ := Slot.decodeHead_of_read hslot
      obtain ⟨hpc, -, hfirst, -⟩ := bytes_of_decodeHead hdecode
      have hnoop : inst.opcode.byte ≠ Opcode.noop.byte := fun h => hhead (h ▸ hfirst)
      change lastHead? (first :: rest) = (inst :: _).getLast?.map _
      change ∀ last, (inst :: _).getLast? = some last → _ at hsecond
      -- The instructions behind this one decide whether it is the last.
      rw [List.getLast?_cons] at hsecond ⊢
      cases hlast : (instructionsOfSlots (walkFrom (pc + (Slot.instruction inst).width)
          ((first :: rest).drop (Slot.instruction inst).width))).1.getLast? with
      | some last =>
        rw [hlast] at ih hsecond
        have hfound := ih hdrop hbehind hfault fun _ h => hsecond _ h
        rw [lastHead?_of_decodeHead hdecode hnoop fun hnone => ?_]
        · exact (congrArg (Option.or · _) hfound).trans rfl
        · rw [show lastHead? (List.drop inst.width _) = _ from hfound] at hnone
          cases hnone
      | none =>
        rw [hlast] at ih hsecond
        have hfound := ih hdrop hbehind hfault fun _ h => by cases h
        have hempty := hsecond inst rfl
        rw [lastHead?_of_decodeHead hdecode hnoop fun _ hdouble => ?_]
        · exact (congrArg (Option.or · _) hfound).trans rfl
        · rw [hbytes, List.getElem?_drop, ← hpc]
          exact hempty hdouble

open Instruction in
/-- Going back over the slots that look empty ends at the last instruction of a
program without faults. -/
theorem lastHead?_of_instructions {code : List UInt8} (hlen : code.length % slotWidth = 0)
    (hfault : (instructions code).2 = none)
    (hsecond : ∀ last, (instructions code).1.getLast? = some last → SecondSlotEmpty code last) :
    Program.lastHead? code = (instructions code).1.getLast?.map (·.opcode.byte) := by
  rw [instructions_eq] at hfault hsecond ⊢
  exact lastHead?_of_walkFrom rfl hlen hfault hsecond

theorem decodeProgram_eq_ok {code : List UInt8} (hwhole : code.length % slotWidth = 0)
    (hfault : (instructions code).2 = none) : decodeProgram code = .ok (instructions code).1 := by
  rw [decodeProgram, if_neg (not_not.2 hwhole)]
  cases hinsts : instructions code with
  | mk insts fault? =>
    rw [hinsts] at hfault
    change fault? = none at hfault
    subst hfault
    rfl

/-! ## Valid kernels -/

namespace Kernel

variable {k : Kernel}

/-- The queries of a valid kernel speak about the last instruction of its program, if
the second slot of that instruction, where it has one, looks empty. -/
theorem queries_eq_last (h : k.validate = .ok ())
    (hsecond : ∀ last, k.instructions.getLast? = some last →
      last.SecondSlotEmpty k.program.code) :
    ∃ insts last, decodeProgram k.program.code = .ok insts ∧ insts.getLast? = some last ∧
      k.isReduction = last.operation.isReduction ∧
      (last.operation.isReduction = true → k.program.reduction? = some last.opcode ∧
        ∃ byte, last.immediate? = some byte ∧
          k.program.reductionAxis? = some (.ofByte byte)) ∧
      k.program.lastOpcode? = some last.opcode ∧
      k.program.returnType? = last.operation.result? := by
  have hvalid := valid_of_validate h
  have hprogram := (checks_of_validate h).2.2.2
  obtain ⟨hwhole, hnonempty, -⟩ := Validation.whole_of_checkProgram hprogram
  have hfault := (Validation.of_checkProgram hprogram).1
  obtain ⟨last, hlast⟩ : ∃ last, k.instructions.getLast? = some last :=
    ⟨_, List.getLast?_eq_some_getLast hnonempty⟩
  have hmem : last ∈ k.instructions := List.mem_of_getLast? hlast
  have hhead : Program.lastHead? k.program.code = some last.opcode.byte := by
    have hfound := lastHead?_of_instructions hwhole hfault hsecond
    exact hfound.trans (congrArg (Option.map _) hlast)
  have hopcode : k.program.lastOpcode? = some last.opcode := by
    rw [Program.lastOpcode?_eq, hhead, Option.bind_some, Opcode.ofByte?_byte]
  refine ⟨k.instructions, last, decodeProgram_eq_ok hwhole hfault, hlast, ?_,
    hvalid.reduction?_eq hmem, hopcode, ?_⟩
  · cases hred : last.operation.isReduction with
    | true =>
      rw [isReduction, Program.isReduction, (hvalid.reduction?_eq hmem hred).1]
      rfl
    | false =>
      -- The last slot looks empty, or it is the last instruction.
      rw [isReduction, Program.isReduction_eq hwhole]
      cases hfinal : (Program.slotHeads k.program.code).getLast? with
      | none => rfl
      | some head =>
        by_cases hnoop : head = Opcode.noop.byte
        · rw [hnoop, Option.bind_some, Opcode.ofByte?_byte]
          rfl
        · have hsame := (Program.lastHead?_of_getLast? hfinal hnoop).symm.trans hhead
          rw [hsame, Option.bind_some, Opcode.ofByte?_byte]
          exact hred
  · rw [Program.returnType?, hopcode]
    rfl

/-- A choice between two integers; its second slot starts with the given byte. -/
def choice (second : UInt8) : Kernel :=
  ⟨⟨[37, 0, 1, 2, second, 3, 0, 0]⟩, [.int, .bool, .int, .int], [.bool, .int, .int], [], 0⟩

/-- The queries of an encoded choice. -/
theorem queries_eq_last_choice : (choice 0).validate = .ok () ∧
    (∀ last, (choice 0).instructions.getLast? = some last →
      last.SecondSlotEmpty (choice 0).program.code) ∧
    ∃ insts last, decodeProgram (choice 0).program.code = .ok insts ∧
      insts.getLast? = some last ∧
      (choice 0).isReduction = last.operation.isReduction ∧
      (last.operation.isReduction = true →
        (choice 0).program.reduction? = some last.opcode ∧
          ∃ byte, last.immediate? = some byte ∧
            (choice 0).program.reductionAxis? = some (.ofByte byte)) ∧
      (choice 0).program.lastOpcode? = some last.opcode ∧
      (choice 0).program.returnType? = last.operation.result? := by
  have hvalid : (choice 0).validate = .ok () := by decide +kernel
  have hsecond : ∀ last, (choice 0).instructions.getLast? = some last →
      last.SecondSlotEmpty (choice 0).program.code := by
    intro last hlast _
    have hfirst : (choice 0).instructions.getLast?.map Instruction.pc = some 0 := by
      decide +kernel
    rw [hlast] at hfirst
    rw [Option.some.inj hfirst]
    rfl
  exact ⟨hvalid, hsecond, queries_eq_last hvalid hsecond⟩

/-- Validation does not look at the first byte of a second slot. Where that is the byte
of a sum, the queries take the choice for one. -/
theorem not_queries_eq_last : ¬ ∀ (k : Kernel) (insts : List Instruction) (last : Instruction),
    k.validate = .ok () → decodeProgram k.program.code = .ok insts → insts.getLast? = some last →
      k.isReduction = last.operation.isReduction ∧
      (last.operation.isReduction = true → k.program.reduction? = some last.opcode ∧
        ∃ byte, last.immediate? = some byte ∧
          k.program.reductionAxis? = some (.ofByte byte)) ∧
      k.program.lastOpcode? = some last.opcode ∧
      k.program.returnType? = last.operation.result? := by
  intro h
  have hdecode : ∃ insts last, decodeProgram (choice 100).program.code = .ok insts ∧
      insts.getLast? = some last ∧ last.operation.isReduction = false := by
    have hlast : ((decodeProgram (choice 100).program.code).toOption.bind List.getLast?).map
        (fun last => last.operation.isReduction) = some false := by decide +kernel
    cases hinsts : decodeProgram (choice 100).program.code with
    | error cause =>
      rw [hinsts] at hlast
      cases hlast
    | ok insts =>
      rw [hinsts] at hlast
      obtain ⟨last, hsome, hplain⟩ := Option.map_eq_some_iff.1 hlast
      exact ⟨insts, last, rfl, hsome, hplain⟩
  obtain ⟨insts, last, hinsts, hlast, hplain⟩ := hdecode
  have hqueries := (h (choice 100) insts last (by decide +kernel) hinsts hlast).1
  have hsum : (choice 100).isReduction = true := by decide +kernel
  rw [hsum, hplain] at hqueries
  cases hqueries

end Kernel

end Lanewise
