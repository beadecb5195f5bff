import Lanewise.Assembly.Source
import Lanewise.Proofs.Spelling

/-!
# Assembled programs

The instruction lines of a source text are encoded one behind the other, each
in the form that its own text stands for (`exists_of_encodeStatements`). Lines
that resolve to given instructions are therefore encoded as these
(`encodeStatements_of_resolve`).
-/

namespace Lanewise.Assembly

/-! ## Resolved lines -/

theorem toNat_ofInt {n : Int} (hlow : 0 ≤ n) (hhigh : n < 256) :
    ((UInt8.ofInt n).toNat : Int) = n := by
  have hmod : n % 2 ^ 8 = n := by omega
  rw [UInt8.ofInt, hmod, UInt8.toNat_ofNat_of_lt' (by simp only [UInt8.size]; omega)]
  omega

/-- Axes are written with bytes below 32 and from 33 on. -/
theorem axisByte_ne {line : InstructionLine} {operand : Operand} {byte : UInt8}
    (h : axisByte line operand = .ok byte) : byte ≠ 32 := by
  rintro rfl
  unfold axisByte at h
  split at h
  · cases h
  · next v =>
    split at h
    · cases h
    · next hrange =>
      have hbyte : (ReductionAxis.axis v.toInt).toByte = 32 := Except.ok.inj h
      simp only [maxDims] at hrange
      simp only [ReductionAxis.toByte, maxDims] at hbyte
      split at hbyte
      · next hnonneg =>
        have := toNat_ofInt (n := v.toInt) hnonneg (by omega)
        rw [hbyte] at this
        exact absurd this (by simp; omega)
      · have := toNat_ofInt (n := (32 : Nat) - v.toInt) (by omega) (by omega)
        rw [hbyte] at this
        exact absurd this (by simp; omega)
  · cases h

/-- A resolved instruction is in the form that its text stands for. -/
theorem canonical_of_resolve {line : InstructionLine} {pc : Nat} {inst : Instruction}
    (h : resolve line pc = .ok inst) : inst.Canonical := by
  obtain ⟨opcode, bytes, -, hcount, hbytes, rfl⟩ := resolve_eq_ok_iff.1 h
  have hall := mapM_eq_ok_iff.1 hbytes
  have hlength : bytes.length = opcode.operation.operandKinds.length := by
    rw [← hall.length_eq, List.length_zip, hcount, Nat.min_self]
  have hbyte (i : Nat) (hi : i < 4) : (#v[bytes.getD 0 0, bytes.getD 1 0, bytes.getD 2 0,
      bytes.getD 3 0] : Vector UInt8 4)[i] = bytes.getD i 0 := by
    match i, hi with
    | 0, _ | 1, _ | 2, _ | 3, _ => rfl
  constructor
  · intro i hi hunused
    have hge : bytes.length ≤ i := hlength ▸ hunused
    rw [hbyte i hi, List.getD_eq_getElem?_getD, List.getElem?_eq_none hge]
    rfl
  · intro byte hmem hfamily
    obtain ⟨i, hi⟩ := List.mem_iff_getElem?.1 hmem
    obtain ⟨hkind, hoperand⟩ := List.getElem?_zip_eq_some.1 hi
    obtain ⟨hi, hoperand⟩ := List.getElem?_eq_some_iff.1 hoperand
    have hlt : i < opcode.operation.operandKinds.length := (List.getElem?_eq_some_iff.1 hkind).1
    rw [Vector.getElem_toList, hbyte i (by simpa using hi), List.getD_eq_getElem?_getD,
      List.getElem?_eq_getElem (hlength ▸ hlt)] at hoperand
    have hindex : opcode.operation.operandKinds[i] = .index :=
      (List.getElem?_eq_some_iff.1 hkind).2
    have hresult := hall.get (i := i) (by simp [← hcount, hlt]) (hlength ▸ hlt)
    have hfamily' : opcode.operation.family? = none := hfamily
    simp only [List.get_eq_getElem, List.getElem_zip, hindex, operandByte, hfamily'] at hresult
    rw [Option.getD_some] at hoperand
    change bytes[i] = byte at hoperand
    rw [← hoperand]
    exact axisByte_ne hresult

/-! ## Encoded statements -/

/-- The instruction line that a statement is, if it is one. -/
def Statement.instructionLine? : Statement → Option InstructionLine
  | directive _ _ => none
  | instruction inst => some inst

/-- The bytes of statements are those of the instructions that their instruction
lines resolve to, each behind the bytes of those before it. -/
theorem exists_resolved_of_encodeStatements {pc : Nat} {statements : List Statement}
    {code : List UInt8} (h : encodeStatements pc statements = .ok code) :
    ∃ insts : List Instruction, code = insts.flatMap Instruction.encode ∧ Placed pc insts ∧
      List.Forall₂ (fun line inst => resolve line inst.pc = .ok inst)
        (statements.filterMap Statement.instructionLine?) insts := by
  induction statements generalizing pc code with
  | nil =>
    cases h
    exact ⟨[], rfl, trivial, .nil⟩
  | cons statement statements ih =>
    cases statement with
    | directive line declared => exact ih h
    | instruction line =>
      obtain ⟨inst, hinst, h⟩ := bind_eq_ok_iff.1 h
      obtain ⟨more, hmore, h⟩ := bind_eq_ok_iff.1 h
      cases h
      obtain ⟨insts, rfl, hplaced, hresolved⟩ := ih hmore
      obtain ⟨_, _, -, -, -, hpc⟩ := resolve_eq_ok_iff.1 hinst
      have hstart : inst.pc = pc := by rw [hpc]
      have hline : resolve line inst.pc = .ok inst := hstart.symm ▸ hinst
      exact ⟨inst :: insts, rfl, ⟨hstart, hplaced⟩, .cons hline hresolved⟩

theorem exists_of_encodeStatements {pc : Nat} {statements : List Statement} {code : List UInt8}
    (h : encodeStatements pc statements = .ok code) :
    ∃ insts : List Instruction, code = insts.flatMap Instruction.encode ∧ Placed pc insts ∧
      ∀ inst ∈ insts, inst.Canonical := by
  obtain ⟨insts, hcode, hplaced, hresolved⟩ := exists_resolved_of_encodeStatements h
  refine ⟨insts, hcode, hplaced, fun inst hmem => ?_⟩
  obtain ⟨line, -, hline⟩ := exists_of_mem_of_forall₂ hresolved hmem
  exact canonical_of_resolve hline

/-- The line resolves to the instruction where the instruction stands. -/
def ResolvesTo (said : Line) (inst : Instruction) : Prop :=
  ∃ mnemonic operands, said = .instruction mnemonic operands ∧
    ∀ line, resolve ⟨line, mnemonic, operands⟩ inst.pc = .ok inst

theorem encodeStatements_of_resolvesTo {said : List Line} {insts : List Instruction} {pc : Nat}
    (h : List.Forall₂ ResolvesTo said insts) (hplaced : Placed pc insts) (line : Nat) :
    encodeStatements pc (statementsFrom line said) =
      .ok (insts.flatMap Instruction.encode) := by
  induction h generalizing pc line with
  | nil => rfl
  | @cons first inst said insts hfirst hrest ih =>
    obtain ⟨mnemonic, operands, rfl, hresolve⟩ := hfirst
    obtain ⟨rfl, hplaced⟩ := hplaced
    change encodeStatements inst.pc (.instruction ⟨line, mnemonic, operands⟩ ::
      statementsFrom (line + 1) said) = _
    rw [encodeStatements, hresolve line]
    simp only [bind, Except.bind, ih hplaced (line + 1)]
    rfl

end Lanewise.Assembly
