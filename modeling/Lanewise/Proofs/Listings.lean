import Lanewise.Proofs.Assembled
import Lanewise.Proofs.Quoting

/-!
# Kernels as source text

The directives of a kernel read back as its declarations and its instruction
lines as its program. For kernels that were assembled, the printed text
therefore assembles to the kernel itself (`Kernel.assemble_assembly`).
Floating-point constants are left out: their text is a decimal number.
-/

namespace Lanewise

open Assembly

/-! ## Types -/

section Types

variable {sig : Signature}

theorem isWordStart_toChar (t : ElementType) : isWordStart t.toChar = true := by
  cases t <;> decide

/-- No type has a letter that a register or a named number has in it at this
place. -/
theorem toChar_ne (t : ElementType) {c : Char} (hc : c ∈ ['r', 'n', 'N', '-']) : t.toChar ≠ c := by
  simp only [List.mem_cons, List.not_mem_nil, or_false] at hc
  rcases hc with rfl | rfl | rfl | rfl <;> cases t <;> decide

theorem bare_toChar (t : ElementType) (rest : Signature) :
    namedNumberLength.bare ((t :: rest).map ElementType.toChar) = 0 := by
  rw [bare_eq, List.map_cons, if_neg]
  simp only [List.cons_prefix_cons, not_or, not_and]
  refine ⟨fun _ hprefix => ?_, fun h => absurd h.symm (toChar_ne t (by decide)),
    fun h => absurd h.symm (toChar_ne t (by decide))⟩
  cases rest with
  | nil => simp at hprefix
  | cons u rest => exact toChar_ne u (by decide) (List.cons_prefix_cons.1 hprefix).1.symm

theorem isToken_text (hne : sig ≠ []) : IsToken sig.text.toList (.identifier sig.text) := by
  obtain ⟨t, rest, rfl⟩ := List.exists_cons_of_ne_nil hne
  have hpart : ∀ c ∈ rest.map ElementType.toChar, isWordPart c = true := by
    intro c hc
    obtain ⟨u, -, rfl⟩ := List.mem_map.1 hc
    exact isWordPart_of_isWordStart (isWordStart_toChar u)
  have hregister : registerLength (t.toChar :: rest.map ElementType.toChar) = 0 := by
    rw [registerLength_cons, if_neg (toChar_ne t (by decide))]
  have hnamed : namedNumberLength (t.toChar :: rest.map ElementType.toChar) = 0 := by
    rw [namedNumberLength_cons, if_neg (toChar_ne t (by decide))]
    exact bare_toChar t rest
  rw [Signature.text, String.toList_ofList, List.map_cons]
  refine ⟨List.cons_ne_nil _ _, ?_, firstToken_word (isWordStart_toChar t) hpart ?_ ?_⟩
  · exact List.forall_mem_cons.2 ⟨isSolid_of_isWordPart
      (isWordPart_of_isWordStart (isWordStart_toChar t)),
      fun c hc => isSolid_of_isWordPart (hpart c hc)⟩
  · rw [hregister]
    exact Nat.succ_pos _
  · rw [hnamed]
    exact Nat.succ_pos _

theorem typesOfLetters_text (line : Nat) (sig : Signature) :
    typesOfLetters line sig.text.toList = .ok sig := by
  rw [Signature.text, String.toList_ofList]
  induction sig with
  | nil => rfl
  | cons t sig ih =>
    rw [List.map_cons, typesOfLetters, ElementType.ofChar?_toChar, ih]
    rfl

theorem typesOf_text {line : Nat} {located : List Located}
    (h : located.map Located.token = [.identifier sig.text]) : typesOf line located = .ok sig := by
  obtain ⟨⟨_, start⟩, rest, rfl, rfl, hrest⟩ := List.map_eq_cons_iff.1 h
  obtain rfl := List.map_eq_nil_iff.1 hrest
  simp only [typesOf, typesOfLetters_text, bind, Except.bind, pure, Except.pure, List.append_nil]

end Types

/-! ## Directives -/

/-- A directive, its name and tokens behind it. -/
theorem reads_directive {name : String} {rest : List Char} {tokens : List Token}
    {declared : Directive} (hname : IsToken ("." ++ name).toList (.directive name))
    (honeLine : OneLine rest) (hlexes : Lexes rest tokens) (hline : .newline ∉ tokens)
    (hdeclared : ∀ line located, located.map Located.token = tokens →
      directiveOf line name located = .ok declared) :
    Reads (("." ++ name).toList ++ ' ' :: rest) (.directive declared) := by
  have hblank : isBlank ' ' = true := rfl
  have hspace : OneLine [' '] := by decide
  refine ⟨(oneLine_of_isSolid hname.2.1).append (hspace.append honeLine), fun line => ?_⟩
  exact parseLine_directive (hname.lexes (ends_cons rfl _) (hlexes.blank hblank)) hline
    fun located h => hdeclared line located h

theorem reads_types {sig : Signature} {name : String} {declared : Directive} (hne : sig ≠ [])
    (hname : IsToken ("." ++ name).toList (.directive name))
    (hdeclared : ∀ line located, typesOf line located = .ok sig →
      directiveOf line name located = .ok declared) :
    Reads ("." ++ name ++ " " ++ sig.text).toList (.directive declared) := by
  have htypes := isToken_text hne
  have htext : ("." ++ name ++ " " ++ sig.text).toList =
      ("." ++ name).toList ++ ' ' :: sig.text.toList := by
    simp
  have hlexes := htypes.lexes ends_nil .nil
  rw [List.append_nil] at hlexes
  rw [htext]
  exact reads_directive hname (oneLine_of_isSolid htypes.2.1) hlexes (by simp)
    fun line located h => hdeclared line located (typesOf_text h)

/-- The line of a directive with types, none for no types. -/
theorem readsAll_typesDirective {sig : Signature} {name : String} {declared : Directive}
    (hname : IsToken ("." ++ name).toList (.directive name))
    (hdeclared : ∀ line located, typesOf line located = .ok sig →
      directiveOf line name located = .ok declared) :
    ReadsAll (Kernel.typesDirective name sig).toList
      (if sig = [] then [] else [.directive declared]) := by
  by_cases hsig : sig = []
  · subst hsig
    exact .nil
  · have hne : sig.isEmpty = false := by simpa using hsig
    rw [Kernel.typesDirective, hne, if_neg hsig, if_neg (by decide), String.toList_append]
    exact .line (reads_types hsig hname hdeclared)

/-! ## Constants -/

/-- The constant is written exactly: it is no floating-point number. -/
def Constant.IsExact (c : Constant) : Prop :=
  c.elementType ≠ .float ∧ c.elementType ≠ .double ∧ c.elementType ≠ .complex

theorem oneLine_quoteBytes (bytes : List UInt8) : OneLine (quoteBytes bytes).toList := by
  have hbyte : ∀ n : Fin 256, OneLine (quoteByte n.val.toUInt8).toList := by decide +kernel
  have hquote : OneLine ['"'] := by decide
  have hchars : OneLine (quotedChars bytes) := by
    intro c hc
    obtain ⟨b, -, hc⟩ := List.mem_flatMap.1 hc
    have := hbyte ⟨b.toNat, b.toNat_lt⟩
    rw [Nat.toUInt8_eq, UInt8.ofNat_toNat] at this
    exact this c hc
  rw [toList_quoteBytes]
  exact hquote.append (hchars.append hquote)

/-- The text is one line of one token, which the constant of the type is read
from. -/
def SpellsConstant (text : List Char) (c : Constant) : Prop :=
  ∃ t, OneLine text ∧ Lexes text [t] ∧ t ≠ .newline ∧
    ∀ line, constantOf line c.elementType [t] = .ok c

theorem spellsConstant_of_isToken {text : List Char} {t : Token} {c : Constant}
    (ht : IsToken text t) (hline : t ≠ .newline)
    (hconstant : ∀ line, constantOf line c.elementType [t] = .ok c) : SpellsConstant text c := by
  have hlexes := ht.lexes ends_nil .nil
  rw [List.append_nil] at hlexes
  exact ⟨t, oneLine_of_isSolid ht.2.1, hlexes, hline, hconstant⟩

theorem spellsConstant_int (v : Int32) :
    SpellsConstant (toString v.toInt).toList (.int v) := by
  have htoken := isToken_int64 v.toInt64
  rw [Int32.toInt_toInt64] at htoken
  rw [toList_toString_int]
  refine spellsConstant_of_isToken htoken nofun fun line => ?_
  have hlow := v.minValue_le_toInt
  have hhigh := v.toInt_le
  simp only [Constant.elementType, constantOf, intConstant, Int32.toInt_toInt64]
  rw [if_pos ⟨hlow, hhigh⟩, Int32.toInt32_toInt64]

theorem spellsConstant_literal {c : Constant} (h : c.IsExact) :
    SpellsConstant c.literal.toList c := by
  obtain ⟨hfloat, hdouble, hcomplex⟩ := h
  cases c with
  | bool value =>
    have htrue : IsToken "true".toList (.identifier "true") := by decide
    have hfalse : IsToken "false".toList (.identifier "false") := by decide
    cases value with
    | false => exact spellsConstant_of_isToken hfalse nofun fun line => rfl
    | true => exact spellsConstant_of_isToken htrue nofun fun line => rfl
  | int v => exact spellsConstant_int v
  | long v =>
    change SpellsConstant (toString v.toInt).toList _
    rw [toList_toString_int]
    exact spellsConstant_of_isToken (isToken_int64 v) nofun fun line => rfl
  | str bytes =>
    have hlexes := @Lexes.str bytes [] [] .nil
    rw [List.append_nil] at hlexes
    exact ⟨.str bytes, oneLine_quoteBytes bytes, hlexes, nofun, fun line => rfl⟩
  | float bits => exact absurd rfl hfloat
  | double bits => exact absurd rfl hdouble
  | complex re im => exact absurd rfl hcomplex

/-- A line with the letter of a type and a text that a constant of the type is read
from. -/
theorem reads_constantLine {t : ElementType} {text : List Char} {tokens : List Token}
    {c : Constant} (honeLine : OneLine text) (hlexes : Lexes text tokens)
    (hline : .newline ∉ tokens) (hconstant : ∀ line, constantOf line t tokens = .ok c) :
    Reads ((".const " ++ t.toChar.toString ++ " ").toList ++ text) (.directive (.constant c)) := by
  have hname : IsToken ("." ++ "const").toList (.directive "const") := by decide
  have hletter := @isToken_text [t] (List.cons_ne_nil _ _)
  have hblank : isBlank ' ' = true := rfl
  have hspace : OneLine [' '] := by decide
  have htext : (".const " ++ t.toChar.toString ++ " ").toList ++ text =
      ("." ++ "const").toList ++ ' ' :: ((Signature.text [t]).toList ++ ' ' :: text) := by
    simp [Signature.text]
  rw [htext]
  refine reads_directive hname
    ((oneLine_of_isSolid hletter.2.1).append (hspace.append honeLine))
    (hletter.lexes (ends_cons rfl _) (hlexes.blank hblank)) (by simp [hline]) ?_
  intro line located hlocated
  obtain ⟨⟨_, start⟩, value, rfl, rfl, hvalue⟩ := List.map_eq_cons_iff.1 hlocated
  have htypes : (Signature.text [t]).toList.map ElementType.ofChar? = [some t] := by
    simp [Signature.text, ElementType.ofChar?_toChar]
  simp only [directiveOf, constantDirective, htypes, hvalue, hconstant line]
  rfl

theorem reads_constant {c : Constant} (h : c.IsExact) :
    Reads (".const " ++ c.elementType.toChar.toString ++ " " ++ c.literal).toList
      (.directive (.constant c)) := by
  obtain ⟨t, honeLine, hlexes, hline, hconstant⟩ := spellsConstant_literal h
  rw [String.toList_append]
  exact reads_constantLine honeLine hlexes (by simpa using hline.symm) hconstant

theorem readsAll_constants {constants : List Constant} (h : ∀ c ∈ constants, c.IsExact)
    (rest : Signature) :
    ReadsAll (String.join
      ((constants.zip (constants.map Constant.elementType ++ rest)).map fun (c, t) =>
        ".const " ++ t.toChar.toString ++ " " ++ c.literal ++ "\n")).toList
      (constants.map fun c => .directive (.constant c)) := by
  induction constants with
  | nil => exact .nil
  | cons c constants ih =>
    obtain ⟨hc, hconstants⟩ := List.forall_mem_cons.1 h
    have hline := ReadsAll.line (reads_constant hc)
    have hall := hline.append (ih hconstants)
    simpa using hall

/-! ## Declarations -/

/-- Lines that add to declarations and to no program. -/
structure Declares (d d' : Declarations) (said : List Line) : Prop where
  adds : ∀ line rest, d.addAll (statementsFrom line said ++ rest) = d'.addAll rest
  skips : ∀ pc line rest,
    encodeStatements pc (statementsFrom line said ++ rest) = encodeStatements pc rest

theorem statementsFrom_append (line : Nat) (said more : List Line) :
    statementsFrom line (said ++ more) =
      statementsFrom line said ++ statementsFrom (line + said.length) more := by
  induction said generalizing line with
  | nil => rfl
  | cons first said ih =>
    rw [List.cons_append, statementsFrom, ih, statementsFrom, List.append_assoc, List.length_cons,
      Nat.add_assoc, Nat.add_comm 1]

namespace Declares

variable {d d' d'' : Declarations} {said more : List Line}

theorem nil (d : Declarations) : Declares d d [] :=
  ⟨fun _ _ => rfl, fun _ _ _ => rfl⟩

theorem append (h : Declares d d' said) (hmore : Declares d' d'' more) :
    Declares d d'' (said ++ more) := by
  refine ⟨fun line rest => ?_, fun pc line rest => ?_⟩
  · rw [statementsFrom_append, List.append_assoc, h.adds, hmore.adds]
  · rw [statementsFrom_append, List.append_assoc, h.skips, hmore.skips]

theorem blank (d : Declarations) : Declares d d [.blank] :=
  ⟨fun _ _ => rfl, fun _ _ _ => rfl⟩

theorem directive {declared : Directive} (h : ∀ line, d.add line declared = .ok d') :
    Declares d d' [.directive declared] := by
  refine ⟨fun line rest => ?_, fun _ _ _ => rfl⟩
  change d.addAll (.directive line declared :: rest) = _
  rw [Declarations.addAll, h line]
  rfl

/-- A list of types of which an empty one is not written. -/
theorem types {sig : Signature} {declared : Directive} (h : ∀ line, d.add line declared = .ok d')
    (hnil : sig = [] → d = d') :
    Declares d d' (if sig = [] then [] else [.directive declared]) := by
  split
  · next hsig => exact hnil hsig ▸ nil d
  · exact directive h

theorem constants (d : Declarations) (constants : List Constant) :
    Declares d { d with constants := d.constants ++ constants }
      (constants.map fun c => .directive (.constant c)) := by
  induction constants generalizing d with
  | nil => simpa using nil d
  | cons c constants ih =>
    have hfirst : Declares d { d with constants := d.constants ++ [c] }
        [.directive (.constant c)] := directive fun line => rfl
    have hrest := ih { d with constants := d.constants ++ [c] }
    simpa using hfirst.append hrest

end Declares

/-- Instruction lines declare nothing. -/
theorem addAll_of_resolvesTo {said : List Line} {insts : List Instruction}
    (h : List.Forall₂ ResolvesTo said insts) (d : Declarations) (line : Nat) :
    d.addAll (statementsFrom line said) = .ok d := by
  induction h generalizing line with
  | nil => rfl
  | cons hfirst _ ih =>
    obtain ⟨mnemonic, operands, rfl, -⟩ := hfirst
    exact ih (line + 1)

/-! ## Programs -/

theorem assembly_slot (inst : Instruction) :
    inst.slot.assembly = "    " ++ inst.assembly ++ "\n" := by
  unfold Instruction.slot
  split
  · next hnoop =>
    have hmnemonic : inst.mnemonic = "noop" := by
      rw [Instruction.mnemonic, hnoop, Opcode.mnemonic_noop]
    have hkinds : inst.operandsWithKinds = [] := by
      rw [Instruction.operandsWithKinds, Instruction.operation, hnoop]
      rfl
    rw [Instruction.assembly, hkinds, hmnemonic]
    rfl
  · rfl

/-- The lines of a program resolve to its instructions. -/
theorem exists_readsAll_slots {insts : List Instruction} (h : ∀ inst ∈ insts, inst.Canonical) :
    ∃ said, ReadsAll (String.join ((insts.map Instruction.slot).map Slot.assembly)).toList said ∧
      List.Forall₂ ResolvesTo said insts := by
  induction insts with
  | nil => exact ⟨[], .nil, .nil⟩
  | cons inst insts ih =>
    obtain ⟨hinst, hinsts⟩ := List.forall_mem_cons.1 h
    obtain ⟨said, hsaid, hresolve⟩ := ih hinsts
    obtain ⟨operands, hreads, hfirst⟩ := Instruction.exists_reads_assembly hinst
    refine ⟨.instruction inst.mnemonic operands :: said, ?_, .cons ⟨_, _, rfl, hfirst⟩ hresolve⟩
    have hall := (ReadsAll.line hreads).append hsaid
    simpa [assembly_slot] using hall

theorem slotWidth_dvd_length_encode (insts : List Instruction) :
    slotWidth ∣ (insts.flatMap Instruction.encode).length := by
  induction insts with
  | nil => exact Nat.dvd_zero _
  | cons inst insts ih =>
    rw [List.flatMap_cons, List.length_append, inst.length_encode]
    refine Nat.dvd_add ?_ ih
    unfold Instruction.width
    split <;> decide

theorem listSlots_encode {insts : List Instruction} (hplaced : Placed 0 insts)
    (hpadded : ∀ inst ∈ insts, inst.Padded) :
    listSlots (insts.flatMap Instruction.encode) = .ok (insts.map Instruction.slot) := by
  rw [listSlots, Nat.mod_eq_zero_of_dvd (slotWidth_dvd_length_encode insts), if_neg (by simp),
    walk, walkFrom_encode hplaced hpadded]

/-! ## Kernels -/

namespace Assembly

/-- The kernel that declarations with an output and program bytes make. -/
def Declarations.kernel (d : Declarations) (output : ElementType) (code : List UInt8) : Kernel :=
  ⟨⟨code⟩, d.signature output, d.inputs, d.constants, d.temporaries.length⟩

theorem assembleKernel_eq_ok_iff {source : String} {k : Kernel} :
    assembleKernel source = .ok k ↔
      ∃ statements d output code, parse source = .ok statements ∧
        Declarations.empty.addAll statements = .ok d ∧ d.output? = some output ∧
        encodeStatements 0 statements = .ok code ∧ k = d.kernel output code := by
  unfold assembleKernel
  simp only [bind_eq_ok_iff, exists_and_left]
  refine exists_congr fun statements => and_congr_right fun _ => ?_
  refine exists_congr fun d => and_congr_right fun _ => ?_
  cases d.output? with
  | none => simp [throw, throwThe, MonadExceptOf.throw]
  | some output =>
    simp only [bind_eq_ok_iff, pure, Except.pure, Except.ok.injEq, Option.some.injEq,
      exists_eq_left', Declarations.kernel, eq_comm (a := k)]

end Assembly

/-- The directives of assembled declarations read back as these. -/
theorem exists_readsAll_directives {d : Declarations} {output : ElementType} (code : List UInt8)
    (houtput : d.output? = some output) (hexact : ∀ c ∈ d.constants, c.IsExact) :
    ∃ said, ReadsAll (d.kernel output code).directives.toList said ∧
      Declares .empty d said := by
  obtain ⟨output?, inputs, constants, temporaries⟩ := d
  obtain rfl : output? = some output := houtput
  have hsignature : (Declarations.mk (some output) inputs constants temporaries).signature output =
      output :: inputs ++ constants.map Constant.elementType ++ temporaries := rfl
  have hconstants : (output :: inputs ++ constants.map Constant.elementType ++ temporaries).drop
      (1 + inputs.length) = constants.map Constant.elementType ++ temporaries := by
    rw [Nat.add_comm, List.append_assoc, List.cons_append, List.drop_succ_cons,
      List.drop_left]
  have htemporaries : (output :: inputs ++ constants.map Constant.elementType ++ temporaries).drop
      (1 + inputs.length + constants.length) = temporaries := by
    rw [← List.drop_drop, hconstants, List.drop_left' (List.length_map _)]
  have hdirectives : (Declarations.kernel ⟨some output, inputs, constants, temporaries⟩
      output code).directives =
      Kernel.typesDirective "output" [output] ++ Kernel.typesDirective "inputs" inputs ++
        String.join ((constants.zip (constants.map Constant.elementType ++ temporaries)).map
          fun (c, t) => ".const " ++ t.toChar.toString ++ " " ++ c.literal ++ "\n") ++
        Kernel.typesDirective "temps" temporaries := by
    simp only [Kernel.directives, Declarations.kernel, Kernel.outputType?, Kernel.layout,
      RegisterLayout.firstTemporary, RegisterLayout.firstConstant, hsignature, hconstants,
      htemporaries]
    rfl
  have houtput := @readsAll_typesDirective [output] "output" (.output output) (by decide +kernel)
    fun line located h => by simp only [directiveOf, h]; rfl
  have hinputs := @readsAll_typesDirective inputs "inputs" (.inputs inputs) (by decide +kernel)
    fun line located h => by simp only [directiveOf, h]; rfl
  have htemps := @readsAll_typesDirective temporaries "temps" (.temporaries temporaries)
    (by decide +kernel) fun line located h => by simp only [directiveOf, h]; rfl
  rw [hdirectives]
  simp only [String.toList_append]
  refine ⟨_, ((houtput.append hinputs).append (readsAll_constants hexact temporaries)).append
    htemps, ?_⟩
  have hdeclared : Declares .empty ⟨some output, [], [], []⟩ [.directive (.output output)] :=
    .directive fun line => rfl
  have hinputs : Declares ⟨some output, [], [], []⟩ ⟨some output, inputs, [], []⟩
      (if inputs = [] then [] else [.directive (.inputs inputs)]) :=
    .types (fun line => rfl) fun hnil => by rw [hnil]
  have hconstants := Declares.constants ⟨some output, inputs, [], []⟩ constants
  have htemps : Declares ⟨some output, inputs, constants, []⟩
      ⟨some output, inputs, constants, temporaries⟩
      (if temporaries = [] then [] else [.directive (.temporaries temporaries)]) :=
    .types (fun line => rfl) fun hnil => by rw [hnil]
  exact ((hdeclared.append hinputs).append hconstants).append htemps

namespace Kernel

/-- A kernel that was assembled is printed as source text that assembles to the
kernel again, unless a constant is a floating-point number. -/
theorem assemble_assembly (source : String) {k : Kernel} (h : assembleKernel source = .ok k)
    (hexact : ∀ c ∈ k.constants, c.IsExact) :
    ∃ text, k.assembly = .ok text ∧ assembleKernel text = .ok k := by
  obtain ⟨statements, d, output, code, -, -, houtput, hcode, rfl⟩ := assembleKernel_eq_ok_iff.1 h
  obtain ⟨insts, rfl, hplaced, hcanonical⟩ := exists_of_encodeStatements hcode
  obtain ⟨declaring, hdirectives, hdeclares⟩ :=
    exists_readsAll_directives (insts.flatMap Instruction.encode) houtput hexact
  obtain ⟨instructing, hslots, hresolve⟩ := exists_readsAll_slots hcanonical
  have hlist := listSlots_encode hplaced fun inst hinst => (hcanonical inst hinst).padded
  have hassembly : (d.kernel output (insts.flatMap Instruction.encode)).assembly =
      .ok ((d.kernel output (insts.flatMap Instruction.encode)).directives ++ "\n" ++
        String.join ((insts.map Instruction.slot).map Slot.assembly)) := by
    change (listSlots (insts.flatMap Instruction.encode) >>= fun slots => _) = _
    rw [hlist]
    rfl
  -- The blank line between the directives and the instructions says nothing.
  have hblank : Reads [] .blank := ⟨nofun, fun line => parseLine_blank .nil⟩
  have hdeclares := hdeclares.append (.blank d)
  have hreads := (hdirectives.append (.line hblank)).append hslots
  have hparse : parse ((d.kernel output (insts.flatMap Instruction.encode)).directives ++ "\n" ++
      String.join ((insts.map Instruction.slot).map Slot.assembly)) =
        .ok (statementsFrom 1 ((declaring ++ [.blank]) ++ instructing)) := by
    refine ReadsAll.parse ?_
    rwa [String.toList_append, String.toList_append]
  rw [statementsFrom_append] at hparse
  refine ⟨_, hassembly, assembleKernel_eq_ok_iff.2
    ⟨_, d, output, _, hparse, ?_, houtput, ?_, rfl⟩⟩
  · rw [hdeclares.adds, addAll_of_resolvesTo hresolve]
  · rw [hdeclares.skips, encodeStatements_of_resolvesTo hresolve hplaced]

/-- The sum of the last row of shifted longs; the string is not used. -/
def shiftedSum : Kernel :=
  ⟨⟨[42, 4, 1, 2, 0, 0, 0, 0, 101, 0, 4, 33]⟩, [.long, .long, .int, .str, .long], [.long],
    [.int (-5), .str [97, 10]], 1⟩

/-- Blanks, capitals and comments of a source text are not kept; its kernel is. -/
theorem assemble_assembly_shiftedSum :
    let source := "# shifted\n.output l\n.inputs l\n.const i -5\n.const s \"a\\n\"\n.temps l\n" ++
      "ADD_LLL r4, r1, r2\nnoop\nsum_lln r0 , r4, -1"
    assembleKernel source = .ok shiftedSum ∧ (∀ c ∈ shiftedSum.constants, c.IsExact) ∧
      ∃ text, shiftedSum.assembly = .ok text ∧ assembleKernel text = .ok shiftedSum := by
  intro source
  have hassembled : assembleKernel source = .ok shiftedSum := by decide +kernel
  have hexact : ∀ c ∈ shiftedSum.constants, c.IsExact := by
    simp [shiftedSum, Constant.IsExact, Constant.elementType]
  exact ⟨hassembled, hexact, assemble_assembly source hassembled hexact⟩

end Kernel

end Lanewise
