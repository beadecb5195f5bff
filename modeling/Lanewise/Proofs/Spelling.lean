import Lanewise.Assembly.Listing
import Lanewise.Proofs.Encoding
import Lanewise.Proofs.Lines
import Lanewise.Proofs.Numerals
import Lanewise.Proofs.Sequences

/-!
# Instructions as text

The line of an instruction reads back as its mnemonic and operands
(`Instruction.reads_assembly`), and these resolve to the instruction again
(`Instruction.resolve_assembly`). The unused operand bytes must be zero, since
the text does not show them, and the axis byte must not be the one that a
second spelling of axis 0 would take.
-/

namespace Lanewise

open Assembly

/-! ## Mnemonics -/

namespace Operation

/-- The characters of a mnemonic. -/
def mnemonicChars (op : Operation) : List Char :=
  op.stem.toList ++
    if op.operandKinds = [] then [] else '_' :: op.operandKinds.map OperandKind.toChar

theorem toList_mnemonic (op : Operation) : op.mnemonic.toList = op.mnemonicChars := by
  have hsignature : op.signature = "" ↔ op.operandKinds = [] := by
    rw [← String.toList_inj, signature, String.toList_ofList]
    simp
  unfold mnemonic mnemonicChars
  split
  · next h => simp [hsignature.1 h]
  · next h => simp [mt hsignature.2 h, signature]

end Operation

namespace Opcode

theorem operation_mem (op : Opcode) : op.operation ∈ instructionSet.toList := by
  have := op.isDefined
  exact Array.getElem_mem_toList this

theorem mem_all (op : Opcode) : op ∈ all := by
  rw [all, List.mem_filterMap]
  refine ⟨op.byte.toNat, List.mem_range.2 op.isDefined, ?_⟩
  rw [Nat.toUInt8_eq, UInt8.ofNat_toNat, ofByte?_byte]

theorem mnemonic_noop : noop.mnemonic = "noop" :=
  rfl

theorem ofMnemonic?_mnemonic (op : Opcode) : ofMnemonic? op.mnemonic = some op := by
  have hall : ∀ op ∈ all, ofMnemonic? op.mnemonic = some op := by decide +kernel
  exact hall op op.mem_all

/-- Mnemonics are words in lower case that name neither registers nor numbers. -/
theorem word_mnemonicChars (op : Opcode) :
    let w := op.operation.mnemonicChars
    w.head?.any isWordStart = true ∧
      (∀ c ∈ w, isWordPart c = true ∧ c.toLower = c) ∧
        registerLength w < w.length ∧ namedNumberLength w < w.length := by
  have hall : ∀ op ∈ instructionSet.toList,
      let w := op.mnemonicChars
      w.head?.any isWordStart = true ∧
        w.all (fun c => isWordPart c && c.toLower == c) = true ∧
          registerLength w < w.length ∧ namedNumberLength w < w.length := by decide +kernel
  obtain ⟨hstart, hletters, hlengths⟩ := hall op.operation op.operation_mem
  refine ⟨hstart, fun c hc => ?_, hlengths⟩
  simpa using List.all_eq_true.1 hletters c hc

theorem toLower_mnemonic (op : Opcode) : op.mnemonic.toLower = op.mnemonic := by
  obtain ⟨-, hlower, -⟩ := word_mnemonicChars op
  rw [← String.toList_inj, String.toLower, String.toList_map, mnemonic,
    op.operation.toList_mnemonic]
  exact (List.map_congr_left fun c hc => (hlower c hc).2).trans (List.map_id _)

theorem isToken_mnemonic (op : Opcode) :
    IsToken op.mnemonic.toList (.identifier op.mnemonic) := by
  obtain ⟨hstart, hpart, hregister, hnamed⟩ := word_mnemonicChars op
  have htext : op.mnemonic = String.ofList op.operation.mnemonicChars := by
    rw [← String.toList_inj, String.toList_ofList]
    exact op.operation.toList_mnemonic
  rw [htext, String.toList_ofList]
  cases hw : op.operation.mnemonicChars with
  | nil =>
    rw [hw] at hstart
    cases hstart
  | cons c cs =>
    rw [hw] at hstart hpart hregister hnamed
    exact ⟨by simp, fun d hd => isSolid_of_isWordPart (hpart d hd).1,
      firstToken_word hstart (fun d hd => (hpart d (.tail _ hd)).1) hregister hnamed⟩

end Opcode

/-! ## Operands -/

namespace Assembly

/-- The text is one token, and the token stands for the operand. -/
def Spells (text : String) (operand : Operand) : Prop :=
  ∃ t, IsToken text.toList t ∧ Denotes t operand

theorem exists_tokens {texts : List String} {operands : List Operand}
    (h : List.Forall₂ Spells texts operands) :
    ∃ tokens, List.Forall₂ IsToken (texts.map String.toList) tokens ∧
      List.Forall₂ Denotes tokens operands := by
  induction h with
  | nil => exact ⟨[], .nil, .nil⟩
  | cons ht hrest ih =>
    obtain ⟨t, htoken, hdenotes⟩ := ht
    obtain ⟨tokens, htokens, hoperands⟩ := ih
    exact ⟨t :: tokens, .cons htoken htokens, .cons hdenotes hoperands⟩

theorem isSolid_toDigits {n : Nat} : ∀ c ∈ Nat.toDigits 10 n, isSolid c = true :=
  fun _ h => isSolid_of_isDigit (isDigit_of_mem_toDigits h)

theorem toList_toString_uint8 (b : UInt8) : (toString b).toList = Nat.toDigits 10 b.toNat :=
  Nat.toList_repr

theorem spells_register (reg : UInt8) : Spells s!"r{reg}" (.register reg) := by
  have htext : s!"r{reg}".toList = 'r' :: Nat.toDigits 10 reg.toNat := by
    rw [String.toList_append, toList_toString_uint8]
    rfl
  have hreg := reg.toNat_lt
  refine ⟨.register reg.toNat, ?_, fun line start => ?_⟩
  · rw [htext]
    refine ⟨by simp, List.forall_mem_cons.2 ⟨by decide, isSolid_toDigits⟩,
      firstToken_register (Nat.lt_trans hreg (by decide))⟩
  · simp only [operandOf]
    rw [if_pos hreg]
    simp

theorem isToken_int64 (v : Int64) : IsToken (integerChars v.toInt) (.integer v) := by
  refine ⟨?_, ?_, firstToken_int64 v⟩
  · cases v.toInt with
    | ofNat n => exact toDigits_ne_nil n
    | negSucc n => simp [integerChars]
  · cases v.toInt with
    | ofNat n => exact isSolid_toDigits
    | negSucc n => exact List.forall_mem_cons.2 ⟨by decide, isSolid_toDigits⟩

theorem spells_integer {n : Int} (hlow : -2 ^ 63 ≤ n) (hhigh : n < 2 ^ 63) :
    Spells (toString n) (.integer (Int64.ofInt n)) := by
  have htoken := isToken_int64 (Int64.ofInt n)
  rw [Int64.toInt_ofInt_of_le hlow hhigh] at htoken
  refine ⟨.integer (Int64.ofInt n), ?_, fun line start => rfl⟩
  rwa [toList_toString_int]

theorem spells_function {family : FunctionFamily} {name : String} (h : name ∈ family.names) :
    Spells name (.name name) := by
  have hall : ∀ name ∈ family.names, IsToken name.toList (.identifier name) := by
    cases family <;> decide
  exact ⟨_, hall name h, fun line start => rfl⟩

theorem spells_all : Spells "all" (.name "all") :=
  ⟨.identifier "all", by decide, fun line start => rfl⟩

theorem indexOf?_of_name? {family : FunctionFamily} {index : UInt8} {name : String}
    (h : family.name? index = some name) : family.indexOf? name = some index := by
  obtain ⟨hlt, rfl⟩ := List.getElem?_eq_some_iff.1 h
  have hindex := family.indexOf?_names ⟨index.toNat, hlt⟩
  simp only [Nat.toUInt8_eq, UInt8.ofNat_toNat] at hindex
  exact hindex

theorem functionIndex_integer {line : InstructionLine} {family : FunctionFamily} (byte : UInt8) :
    functionIndex line family (.integer (Int64.ofInt byte.toNat)) = .ok byte := by
  have hbyte := byte.toNat_lt
  have hvalue : (Int64.ofInt byte.toNat).toInt = byte.toNat :=
    Int64.toInt_ofInt_of_le (by omega) (by omega)
  have hrange : (0 : Int) ≤ byte.toNat ∧ (byte.toNat : Int) < 256 := by omega
  simp only [functionIndex, hvalue]
  rw [if_pos hrange]
  simp

theorem ofInt_toNat (byte : UInt8) : UInt8.ofInt (byte.toNat : Int) = byte := by
  have hbyte := byte.toNat_lt
  have hmod : (byte.toNat : Int) % 2 ^ 8 = byte.toNat := by omega
  rw [UInt8.ofInt, hmod, Int.toNat_natCast, UInt8.ofNat_toNat]

/-- The text of an axis stands for an axis of the same byte. -/
theorem exists_axis {byte : UInt8} (h : byte ≠ 32) :
    ∃ operand, Spells (ReductionAxis.ofByte byte).text operand ∧
      ∀ line, axisByte line operand = .ok byte := by
  have hbyte := byte.toNat_lt
  have h32 : byte.toNat ≠ 32 := fun heq => h (UInt8.toNat_inj.1 heq)
  by_cases hall : byte = 255
  · exact ⟨.name "all", hall ▸ spells_all, fun line => hall ▸ rfl⟩
  have h255 : byte.toNat ≠ 255 := fun heq => hall (UInt8.toNat_inj.1 heq)
  -- Both kinds of numbers stay within 64 bits and below the number of axes.
  obtain ⟨n, haxis, hlow, hhigh, htoByte⟩ : ∃ n : Int, ReductionAxis.ofByte byte = .axis n ∧
      -222 ≤ n ∧ n < 32 ∧ (ReductionAxis.axis n).toByte = byte := by
    by_cases hsmall : maxDims ≤ byte.toNat
    · refine ⟨maxDims - byte.toNat, by simp [ReductionAxis.ofByte, hall, hsmall], ?_, ?_, ?_⟩
      all_goals simp only [maxDims] at hsmall ⊢
      · omega
      · omega
      · have hneg : ¬ (0 : Int) ≤ (32 : Nat) - byte.toNat := by omega
        have hback : ((32 : Nat) : Int) - ((32 : Nat) - byte.toNat) = byte.toNat := by omega
        simp only [ReductionAxis.toByte, maxDims]
        rw [if_neg hneg, hback, ofInt_toNat]
    · refine ⟨byte.toNat, by simp [ReductionAxis.ofByte, hall, hsmall], ?_, ?_, ?_⟩
      all_goals simp only [maxDims] at hsmall
      · omega
      · omega
      · simp [ReductionAxis.toByte, ofInt_toNat]
  have hvalue : (Int64.ofInt n).toInt = n := Int64.toInt_ofInt_of_le (by omega) (by omega)
  refine ⟨.integer (Int64.ofInt n), ?_, fun line => ?_⟩
  · rw [haxis]
    exact spells_integer (by omega) (by omega)
  · have hrange : ¬ ((maxDims : Int) ≤ n ∨ n < maxDims - 254) := by
      simp only [maxDims]
      omega
    simp only [axisByte, hvalue]
    rw [if_neg hrange, htoByte]

/-- The text of an operand byte stands for an operand of the same byte. -/
theorem exists_operand {operation : Operation} {kind : OperandKind} {byte : UInt8}
    (haxis : kind = .index → operation.family? = none → byte ≠ 32) :
    ∃ operand, Spells (Instruction.operandText operation (kind, byte)) operand ∧
      ∀ line, operandByte line operation (kind, operand) = .ok byte := by
  cases kind with
  | register t => exact ⟨.register byte, spells_register byte, fun line => rfl⟩
  | index =>
    have hbyte := byte.toNat_lt
    cases hfamily : operation.family? with
    | some family =>
      have htext : Instruction.operandText operation (.index, byte) =
          (family.name? byte).getD (toString byte) := by
        simp only [Instruction.operandText, hfamily]
      have hresult line operand : operandByte line operation (.index, operand) =
          functionIndex line family operand := by
        simp only [operandByte, hfamily]
      rw [htext]
      simp only [hresult]
      cases hname : family.name? byte with
      | some name =>
        refine ⟨.name name, spells_function (List.mem_of_getElem? hname), fun line => ?_⟩
        simp only [functionIndex, indexOf?_of_name? hname]
      | none =>
        exact ⟨.integer (Int64.ofInt byte.toNat), @spells_integer byte.toNat (by omega) (by omega),
          fun line => functionIndex_integer byte⟩
    | none =>
      have htext : Instruction.operandText operation (.index, byte) =
          (ReductionAxis.ofByte byte).text := by
        simp only [Instruction.operandText, hfamily]
      have hresult line operand : operandByte line operation (.index, operand) =
          axisByte line operand := by
        simp only [operandByte, hfamily]
      rw [htext]
      simp only [hresult]
      exact exists_axis (haxis rfl hfamily)

/-- The texts of operand bytes stand for operands that have these bytes again. -/
theorem exists_operands {operation : Operation} {kinds : List OperandKind} {bytes : List UInt8}
    (hlength : kinds.length ≤ bytes.length)
    (haxis : ∀ byte, (.index, byte) ∈ kinds.zip bytes → operation.family? = none → byte ≠ 32) :
    ∃ operands : List Operand, operands.length = kinds.length ∧
      List.Forall₂ Spells ((kinds.zip bytes).map (Instruction.operandText operation)) operands ∧
      ∀ line, (kinds.zip operands).mapM (operandByte line operation) =
        .ok (bytes.take kinds.length) := by
  induction kinds generalizing bytes with
  | nil => exact ⟨[], rfl, .nil, fun line => rfl⟩
  | cons kind kinds ih =>
    cases bytes with
    | nil => cases hlength
    | cons byte bytes =>
      obtain ⟨operand, hspells, hbyte⟩ := @exists_operand operation kind byte
        fun hkind => haxis byte (hkind ▸ .head _)
      obtain ⟨operands, hcount, htexts, hbytes⟩ := ih (Nat.le_of_succ_le_succ hlength)
        fun byte hmem => haxis byte (.tail _ hmem)
      refine ⟨operand :: operands, by rw [List.length_cons, hcount, List.length_cons],
        .cons hspells htexts, fun line => ?_⟩
      rw [mapM_eq_ok_iff, List.zip_cons_cons, List.length_cons, List.take_succ_cons]
      exact .cons (hbyte line) (mapM_eq_ok_iff.1 (hbytes line))

/-- The instruction of a line, byte by byte. -/
theorem resolve_eq_ok_iff {line : InstructionLine} {pc : Nat}
    {inst : Instruction} :
    resolve line pc = .ok inst ↔
      ∃ opcode bytes, opcodeOf line = .ok opcode ∧
        opcode.operation.operandKinds.length = line.operands.length ∧
        (opcode.operation.operandKinds.zip line.operands).mapM
          (operandByte line opcode.operation) = .ok bytes ∧
        inst =
          ⟨pc, opcode, #v[bytes.getD 0 0, bytes.getD 1 0, bytes.getD 2 0, bytes.getD 3 0]⟩ := by
  unfold resolve
  rw [bind_eq_ok_iff]
  refine exists_congr fun opcode => ?_
  by_cases hlength : opcode.operation.operandKinds.length = line.operands.length
  · simp only [hlength, ne_eq, not_true_eq_false, if_false, bind_eq_ok_iff, true_and,
      pure, Except.pure, Except.ok.injEq, eq_comm (a := inst), exists_and_left]
  · simp [hlength, bind, Except.bind, throw, throwThe, MonadExceptOf.throw]

end Assembly

/-! ## Instructions -/

namespace Instruction

/-- What the text of an instruction leaves out is zero, and its axis, if it has
one, is in the form that the text stands for. -/
structure Canonical (inst : Instruction) : Prop where
  padded : inst.Padded
  axis : ∀ byte, (.index, byte) ∈ inst.operandsWithKinds → inst.operation.family? = none →
    byte ≠ 32

variable {inst : Instruction}

theorem toList_assembly (inst : Instruction) :
    inst.assembly.toList = inst.mnemonic.toList ++
      if inst.operandsWithKinds = [] then []
      else ' ' :: [',', ' '].intercalate
        ((inst.operandsWithKinds.map (operandText inst.operation)).map String.toList) := by
  unfold assembly
  split
  · next h => simp [h]
  · next h =>
    rw [if_neg h]
    simp [String.toList_intercalate]

/-- The line of the operands resolves to the instruction. -/
theorem resolve_assembly (h : inst.Canonical) {operands : List Operand}
    (hcount : operands.length = inst.operation.operandKinds.length)
    (hbytes : ∀ line, (inst.operation.operandKinds.zip operands).mapM
      (operandByte line inst.operation) =
        .ok (inst.operands.toList.take inst.operation.operandKinds.length)) (line : Nat) :
    resolve ⟨line, inst.mnemonic, operands⟩ inst.pc = .ok inst := by
  have hopcode : opcodeOf ⟨line, inst.mnemonic, operands⟩ = .ok inst.opcode := by
    simp only [opcodeOf, mnemonic, Opcode.ofMnemonic?_mnemonic]
    rw [if_neg]
    rintro ⟨hnoop, hne⟩
    rw [operation, hnoop] at hcount
    exact hne (List.eq_nil_of_length_eq_zero hcount)
  have hbyte (i : Nat) (hi : i < 4) :
      (inst.operands.toList.take inst.operation.operandKinds.length).getD i 0 =
        inst.operands[i] :=
    getD_usedOperands h.padded hi
  refine resolve_eq_ok_iff.2 ⟨inst.opcode, _, hopcode, hcount.symm, hbytes _, ?_⟩
  rw [hbyte 0 (by decide), hbyte 1 (by decide), hbyte 2 (by decide), hbyte 3 (by decide)]
  exact congrArg (Instruction.mk inst.pc inst.opcode) inst.operands_eq

/-- The text of an instruction consists of its mnemonic and its operands, which
resolve to it. -/
theorem exists_lexes_assembly (h : inst.Canonical) :
    ∃ (operands : List Operand) (tokens : List Token),
      OneLine inst.assembly.toList ∧
      Lexes inst.assembly.toList (.identifier inst.mnemonic :: tokens.intersperse .comma) ∧
      List.Forall₂ Denotes tokens operands ∧
      ∀ line, resolve ⟨line, inst.mnemonic, operands⟩ inst.pc = .ok inst := by
  have hlength : inst.operation.operandKinds.length ≤ inst.operands.toList.length := by
    rw [Vector.length_toList]
    exact inst.operation.operandCount_le
  obtain ⟨operands, hcount, htexts, hbytes⟩ := exists_operands hlength h.axis
  obtain ⟨tokens, htokens, hdenotes⟩ := exists_tokens htexts
  have hmnemonic : IsToken inst.mnemonic.toList (.identifier inst.mnemonic) :=
    inst.opcode.isToken_mnemonic
  -- The operands with the blank in front of them, if there are any.
  obtain ⟨tail, htail, hends, honeLine, hlexes⟩ : ∃ tail,
      inst.assembly.toList = inst.mnemonic.toList ++ tail ∧ Ends tail ∧ OneLine tail ∧
        Lexes tail (tokens.intersperse .comma) := by
    refine ⟨_, inst.toList_assembly, ?_⟩
    split
    · next hnil =>
      rw [operandsWithKinds] at hnil
      rw [hnil] at htokens
      cases htokens
      exact ⟨ends_nil, nofun, .nil⟩
    · have hblank : OneLine [' '] := by decide
      exact ⟨ends_cons rfl _, hblank.append (oneLine_intercalate htokens),
        (lexes_intercalate htokens).blank rfl⟩
  rw [htail]
  exact ⟨operands, tokens, (oneLine_of_isSolid hmnemonic.2.1).append honeLine,
    hmnemonic.lexes hends hlexes, hdenotes, resolve_assembly h hcount hbytes⟩

/-- An instruction reads back as the line of the operands, which resolve to it. -/
theorem exists_reads_assembly (h : inst.Canonical) :
    ∃ operands, Reads ("    " ++ inst.assembly).toList (.instruction inst.mnemonic operands) ∧
      ∀ line, resolve ⟨line, inst.mnemonic, operands⟩ inst.pc = .ok inst := by
  obtain ⟨operands, tokens, honeLine, hlexes, hdenotes, hresolve⟩ := exists_lexes_assembly h
  have hlower : inst.mnemonic.toLower = inst.mnemonic := inst.opcode.toLower_mnemonic
  have hblanks : ∀ c ∈ "    ".toList, isBlank c = true := List.all_eq_true.1 (by decide)
  have hmargin : OneLine "    ".toList := by decide
  rw [String.toList_append]
  refine ⟨operands, ⟨hmargin.append honeLine, fun line => ?_⟩, hresolve⟩
  rw [parseLine_instruction (hlexes.blanks hblanks) hdenotes, hlower]
  rfl

end Instruction

end Lanewise
