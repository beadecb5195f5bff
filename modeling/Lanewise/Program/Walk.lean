import Lanewise.Instruction

/-!
# Walks over a program

Four readings of the same bytes, each with a loop of its own or through another
one. All of them go slot by slot and take an instruction together with its second
slot; they differ in what they do at an empty slot and at a slot that is no
instruction. `walk` shows every slot and goes on, a `Cursor` ends with the first
fault, `decodeProgram` fails with it, and `predecode` leaves a mark.
-/

namespace Lanewise

/-- What a walk meets at one position. -/
inductive Slot where
  /-- An empty slot. -/
  | noop (pc : Nat)
  | instruction (inst : Instruction)
  | fault (pc : Nat) (cause : KernelError)
  deriving DecidableEq

namespace Slot

/-- Read the slot that starts `bytes`, which stand at offset `pc`. A `noop`
byte makes an empty slot even when the bytes end inside it. -/
def read (pc : Nat) (bytes : List UInt8) : Slot :=
  if bytes.head? = some Opcode.noop.byte then .noop pc
  else
    match Instruction.decodeHead pc bytes with
    | .ok inst => .instruction inst
    | .error cause => .fault pc cause

/-- Bytes the walk goes on by. -/
def width : Slot → Nat
  | noop _ | fault _ _ => slotWidth
  | instruction inst => inst.width

theorem width_pos (s : Slot) : 0 < s.width := by
  cases s with
  | noop pc => exact Nat.zero_lt_succ 3
  | instruction inst => exact inst.width_pos
  | fault pc cause => exact Nat.zero_lt_succ 3

end Slot

/-- Every slot of the bytes at offset `pc`, going on past faults. -/
def walkFrom (pc : Nat) (bytes : List UInt8) : List Slot :=
  match bytes with
  | [] => []
  | b :: rest =>
    let slot := Slot.read pc (b :: rest)
    slot :: walkFrom (pc + slot.width) ((b :: rest).drop slot.width)
termination_by bytes.length
decreasing_by
  have := Slot.width_pos (Slot.read pc (b :: rest))
  simp only [List.length_drop, List.length_cons]
  omega

/-- Every slot of a program. -/
def walk (code : List UInt8) : List Slot :=
  walkFrom 0 code

/-! ## Instructions one at a time -/

/-- A position in a program from which instructions are taken. -/
structure Cursor where
  code : List UInt8
  pc : Nat
  /-- A fault was met. Nothing comes behind it. -/
  failed : Bool
  deriving DecidableEq

namespace Cursor

def start (code : List UInt8) : Cursor :=
  ⟨code, 0, false⟩

/-- The next instruction or fault, and the cursor behind it. -/
def next? (c : Cursor) : Option (Except KernelError Instruction × Cursor) :=
  if c.failed = false ∧ c.pc < c.code.length then
    if c.code[c.pc]? = some Opcode.noop.byte then next? { c with pc := c.pc + slotWidth }
    else
      match Instruction.decodeAt c.code c.pc with
      | .ok inst => some (.ok inst, { c with pc := c.pc + inst.width })
      | .error cause => some (.error cause, { c with failed := true })
  else none
termination_by c.code.length - c.pc
decreasing_by
  simp only [slotWidth]
  omega

/-- Bytes that are still to be read. -/
def remaining (c : Cursor) : Nat :=
  if c.failed then 0 else c.code.length - c.pc

theorem remaining_lt_of_next? {c rest : Cursor} {item : Except KernelError Instruction}
    (h : c.next? = some (item, rest)) : rest.remaining < c.remaining := by
  fun_induction next? c with
  | case1 c hmore hnoop ih =>
    have hrest := ih h
    have hskip : remaining { c with pc := c.pc + slotWidth } ≤ c.remaining := by
      simp only [remaining, hmore.1, Bool.false_eq_true, if_false]
      omega
    exact Nat.lt_of_lt_of_le hrest hskip
  | case2 c hmore hnoop inst hdecode =>
    cases h
    have := inst.width_pos
    simp only [remaining, hmore.1, Bool.false_eq_true, if_false]
    omega
  | case3 c hmore hnoop cause hdecode =>
    cases h
    simp only [remaining, hmore.1, Bool.false_eq_true, if_true, if_false]
    omega
  | case4 c hend => cases h

/-- Everything that comes, one after the other. -/
def items (c : Cursor) : List (Except KernelError Instruction) :=
  match h : c.next? with
  | none => []
  | some (item, rest) =>
    have := remaining_lt_of_next? h
    item :: rest.items
termination_by c.remaining

end Cursor

/-- The instructions of a program up to the first fault, and that fault. -/
def instructions (code : List UInt8) : List Instruction × Option KernelError :=
  go (Cursor.start code).items
where
  go : List (Except KernelError Instruction) → List Instruction × Option KernelError
    | [] => ([], none)
    | .ok inst :: rest =>
      let (insts, fault?) := go rest
      (inst :: insts, fault?)
    | .error cause :: _ => ([], some cause)

/-- The instructions of a program without faults, which must be a whole number
of slots. -/
def decodeProgram (code : List UInt8) : Except KernelError (List Instruction) :=
  if code.length % slotWidth ≠ 0 then .error (.raggedProgram code.length)
  else
    match instructions code with
    | (insts, none) => .ok insts
    | (_, some cause) => .error cause

/-! ## Preparation for execution -/

/-- An entry of a program prepared for execution. -/
inductive Step where
  | execute (inst : Instruction)
  /-- Execution stops here: the opcode byte stands for no operation. -/
  | invalid (pc : Nat)
  /-- Execution stops here: the instruction is cut off by the end. -/
  | truncated (pc : Nat)
  deriving DecidableEq

/-- The instructions to execute from offset `pc` on. -/
def predecodeFrom (code : List UInt8) (pc : Nat) : List Step :=
  if pc < code.length then
    if code[pc]? = some Opcode.noop.byte then predecodeFrom code (pc + slotWidth)
    else
      match Instruction.decodeAt code pc with
      | .ok inst => .execute inst :: predecodeFrom code (pc + inst.width)
      | .error (.unknownOpcode pc _) => [.invalid pc]
      | .error _ => [.truncated pc]
  else []
termination_by code.length - pc
decreasing_by
  · simp only [slotWidth]
    omega
  · have := inst.width_pos
    omega

/-- The instructions to execute. A fault ends the list and is reported only
when execution reaches it. -/
def predecode (code : List UInt8) : List Step :=
  predecodeFrom code 0

end Lanewise
