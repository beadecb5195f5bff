import Lanewise.Assembly.Source
import Lanewise.Proofs.Lexing

/-!
# Lines of assembly text

What a line says depends on its tokens alone. A text that consists of lines is
read line by line (`ReadsAll.parse`), so a source text is known from what each of
its lines says wherever it stands (`Reads`).
-/

namespace Lanewise.Assembly

/-! ## Words in a line -/

/-- A word or a number that is a single token. -/
def IsToken (text : List Char) (t : Token) : Prop :=
  text ≠ [] ∧ (∀ c ∈ text, isSolid c = true) ∧ firstToken text = (text.length, some t)

instance (text : List Char) (t : Token) : Decidable (IsToken text t) :=
  decidable_of_iff (text ≠ [] ∧ text.all isSolid = true ∧ firstToken text = (text.length, some t))
    (by rw [List.all_eq_true]; rfl)

theorem IsToken.lexes {text rest : List Char} {t : Token} {tokens : List Token}
    (ht : IsToken text t) (hend : Ends rest) (h : Lexes rest tokens) :
    Lexes (text ++ rest) (t :: tokens) := by
  obtain ⟨hne, hsolid, htoken⟩ := ht
  obtain ⟨c, cs, rfl⟩ := List.exists_cons_of_ne_nil hne
  exact h.word (hsolid c (.head _)) htoken hend

/-- Tokens with a comma and a blank between two of them. -/
theorem lexes_intercalate {texts : List (List Char)} {tokens : List Token}
    (h : List.Forall₂ IsToken texts tokens) :
    Lexes ([',', ' '].intercalate texts) (tokens.intersperse .comma) := by
  induction h with
  | nil => exact .nil
  | @cons text t texts tokens ht hrest ih =>
    cases hrest with
    | nil =>
      have hlex := ht.lexes ends_nil .nil
      simpa using hlex
    | cons ht' hrest =>
      have hblank : isBlank ' ' = true := rfl
      have hlex := ht.lexes (ends_cons rfl _) (ih.blank hblank).comma
      simpa [List.intercalate_cons_cons] using hlex

/-! ## Tokens of a line -/

theorem exists_locate {lexemes : List Lexeme} {tokens : List Token}
    (h : lexemes.map Lexeme.token? = tokens.map some) (hline : .newline ∉ tokens) (line : Nat) :
    ∃ located, locate line lexemes = .ok located ∧ located.map Located.token = tokens := by
  induction lexemes generalizing tokens with
  | nil =>
    cases tokens with
    | nil => exact ⟨[], rfl, rfl⟩
    | cons t tokens => cases h
  | cons lexeme lexemes ih =>
    cases tokens with
    | nil => cases h
    | cons t tokens =>
      obtain ⟨ht, hrest⟩ := List.cons.inj h
      obtain ⟨located, hlocate, htokens⟩ := ih hrest fun hmem => hline (.tail _ hmem)
      refine ⟨⟨t, lexeme.start⟩ :: located, ?_, by rw [List.map_cons, htokens]⟩
      have hne : t ≠ .newline := fun h => hline (h ▸ .head _)
      simp [locate, ht, hlocate]

/-- The operand a token stands for, wherever it stands. -/
def Denotes (t : Token) (operand : Operand) : Prop :=
  ∀ line start, operandOf line ⟨t, start⟩ = .ok operand

theorem operandsOf_intersperse {tokens : List Token} {operands : List Operand}
    (h : List.Forall₂ Denotes tokens operands) {located : List Located}
    (hlocated : located.map Located.token = tokens.intersperse .comma) (line : Nat) :
    operandsOf line located = .ok operands := by
  induction h generalizing located with
  | nil =>
    rw [List.map_eq_nil_iff.1 hlocated]
    rfl
  | @cons t operand tokens operands ht hrest ih =>
    cases hrest with
    | nil =>
      obtain ⟨⟨_, start⟩, rest, rfl, rfl, hnil⟩ := List.map_eq_cons_iff.1 hlocated
      obtain rfl := List.map_eq_nil_iff.1 hnil
      rw [operandsOf, ht line start]
      rfl
    | @cons t' operand' tokens operands ht' hrest =>
      rw [List.intersperse_cons_cons] at hlocated
      obtain ⟨⟨_, start⟩, tail, rfl, rfl, htail⟩ := List.map_eq_cons_iff.1 hlocated
      obtain ⟨comma, more, rfl, hcomma, hmore⟩ := List.map_eq_cons_iff.1 htail
      have hne : more ≠ [] := by
        rintro rfl
        cases tokens <;> cases hmore
      have hoperands := ih hmore
      rw [operandsOf, ht line start]
      cases more with
      | nil => exact absurd rfl hne
      | cons m more =>
        simp only [bind, Except.bind, hcomma, if_pos, hoperands]
        rfl

/-! ## Statements -/

/-- What a line says, wherever it stands: nothing, a declaration or an
instruction. -/
inductive Line where
  | blank
  | directive (declared : Directive)
  | instruction (mnemonic : String) (operands : List Operand)

/-- The statement of a line with its number. -/
def Line.statement? (line : Nat) : Line → Option Statement
  | blank => none
  | directive declared => some (.directive line declared)
  | instruction mnemonic operands => some (.instruction ⟨line, mnemonic, operands⟩)

/-- The text holds no line end. -/
def OneLine (text : List Char) : Prop :=
  ∀ c ∈ text, c ≠ '\n' ∧ c ≠ '\r'

instance (text : List Char) : Decidable (OneLine text) :=
  decidable_of_iff (text.all fun c => decide (c ≠ '\n' ∧ c ≠ '\r')) (by simp [OneLine])

theorem OneLine.append {a b : List Char} (ha : OneLine a) (hb : OneLine b) : OneLine (a ++ b) :=
  fun c hc => (List.mem_append.1 hc).elim (ha c) (hb c)

theorem oneLine_of_isSolid {text : List Char} (h : ∀ c ∈ text, isSolid c = true) :
    OneLine text := by
  refine fun c hc => ⟨?_, ?_⟩
  all_goals
    rintro rfl
    cases h _ hc

theorem oneLine_intercalate {texts : List (List Char)} {tokens : List Token}
    (h : List.Forall₂ IsToken texts tokens) : OneLine ([',', ' '].intercalate texts) := by
  induction h with
  | nil => exact nofun
  | @cons text t texts tokens ht hrest ih =>
    have htext : OneLine text := oneLine_of_isSolid ht.2.1
    cases hrest with
    | nil => simpa using htext
    | cons _ _ =>
      rw [List.intercalate_cons_cons]
      have hcomma : OneLine [',', ' '] := by decide
      exact (htext.append hcomma).append ih

/-- The text is a single line and says what is given. -/
structure Reads (text : List Char) (said : Line) : Prop where
  oneLine : OneLine text
  parses : ∀ line, parseLine line (String.ofList text) = .ok (said.statement? line)

section Line

variable {text : List Char} {tokens : List Token} {line : Nat}

theorem exists_located (h : Lexes text tokens) (hline : .newline ∉ tokens) (line : Nat) :
    ∃ located, located.map Located.token = tokens ∧
      locate line (lex (String.ofList text)) = .ok located := by
  obtain ⟨located, hlocate, htokens⟩ := exists_locate (h 0) hline line
  exact ⟨located, htokens, by rw [lex, String.toList_ofList, hlocate]⟩

theorem parseLine_blank (h : Lexes text []) : parseLine line (String.ofList text) = .ok none := by
  obtain ⟨located, htokens, hlocate⟩ := exists_located h (by simp) line
  obtain rfl := List.map_eq_nil_iff.1 htokens
  rw [parseLine, hlocate]
  rfl

theorem parseLine_directive {name : String} {declared : Directive}
    (h : Lexes text (.directive name :: tokens)) (hline : .newline ∉ tokens)
    (hdeclared : ∀ located : List Located, located.map Located.token = tokens →
      directiveOf line name located = .ok declared) :
    parseLine line (String.ofList text) = .ok (some (.directive line declared)) := by
  obtain ⟨located, htokens, hlocate⟩ := exists_located h (by simp [hline]) line
  obtain ⟨⟨_, start⟩, rest, rfl, rfl, hrest⟩ := List.map_eq_cons_iff.1 htokens
  rw [parseLine, hlocate]
  simp only [bind, Except.bind, hdeclared rest hrest]
  rfl

theorem newline_notMem_intersperse {operands : List Operand}
    (h : List.Forall₂ Denotes tokens operands) : .newline ∉ tokens.intersperse .comma := by
  induction h with
  | nil => simp
  | @cons t operand tokens operands ht hrest ih =>
    have hne : .newline ≠ t := by
      rintro rfl
      cases ht 0 0
    cases hrest with
    | nil => simp [hne]
    | cons _ _ =>
      rw [List.intersperse_cons_cons]
      simp [hne, ih]

theorem parseLine_instruction {mnemonic : String} {operands : List Operand}
    (h : Lexes text (.identifier mnemonic :: tokens.intersperse .comma))
    (hoperands : List.Forall₂ Denotes tokens operands) :
    parseLine line (String.ofList text) =
      .ok (some (.instruction ⟨line, mnemonic.toLower, operands⟩)) := by
  obtain ⟨located, htokens, hlocate⟩ := exists_located h
    (by simp [newline_notMem_intersperse hoperands]) line
  obtain ⟨⟨_, start⟩, rest, rfl, rfl, hrest⟩ := List.map_eq_cons_iff.1 htokens
  rw [parseLine, hlocate]
  simp only [bind, Except.bind, operandsOf_intersperse hoperands hrest line]
  rfl

end Line

/-! ## Texts -/

theorem go_append {front rest : List Char} (h : '\n' ∉ front) (line : List Char) :
    linesOf.go line (front ++ '\n' :: rest) =
      dropReturn (line.reverse ++ front) :: linesOf.go [] rest := by
  induction front generalizing line with
  | nil => simp [linesOf.go]
  | cons c front ih =>
    rw [List.mem_cons, not_or] at h
    have hc : c ≠ '\n' := fun hc => h.1 hc.symm
    simp [linesOf.go, ih h.2 (c :: line)]

/-- A line and its end are taken off the front of a text. -/
theorem linesOf_append {text : List Char} {said : Line} (h : Reads text said) (rest : List Char) :
    linesOf (text ++ '\n' :: rest) = text :: linesOf rest := by
  have hnewline : '\n' ∉ text := fun hmem => (h.oneLine _ hmem).1 rfl
  have hreturn : text.getLast? ≠ some '\r' := fun hlast =>
    (h.oneLine _ (List.mem_of_getLast? hlast)).2 rfl
  rw [linesOf, go_append hnewline, linesOf, dropReturn, List.reverse_nil, List.nil_append,
    if_neg hreturn]

/-- The statements of lines numbered from `line` on. -/
def statementsFrom (line : Nat) : List Line → List Statement
  | [] => []
  | said :: rest => (said.statement? line).toList ++ statementsFrom (line + 1) rest

/-- The text consists of lines that say what is given. -/
inductive ReadsAll : List Char → List Line → Prop where
  | nil : ReadsAll [] []
  | cons {text rest : List Char} {first : Line} {said : List Line} (h : Reads text first)
      (hrest : ReadsAll rest said) : ReadsAll (text ++ '\n' :: rest) (first :: said)

namespace ReadsAll

variable {text rest : List Char} {said more : List Line}

theorem line {first : Line} (h : Reads text first) : ReadsAll (text ++ ['\n']) [first] :=
  .cons h .nil

theorem append (h : ReadsAll text said) (hrest : ReadsAll rest more) :
    ReadsAll (text ++ rest) (said ++ more) := by
  induction h with
  | nil => exact hrest
  | cons hfirst _ ih =>
    rw [List.append_assoc, List.cons_append]
    exact .cons hfirst ih

theorem parseLines (h : ReadsAll text said) (line : Nat) :
    parseLines line (linesOf text) = .ok (statementsFrom line said) := by
  induction h generalizing line with
  | nil => rfl
  | cons hfirst _ ih =>
    rw [linesOf_append hfirst, Assembly.parseLines, hfirst.parses line, ih (line + 1)]
    rfl

/-- A text of lines is read line by line. -/
theorem parse {source : String} (h : ReadsAll source.toList said) :
    parse source = .ok (statementsFrom 1 said) :=
  h.parseLines 1

end ReadsAll

end Lanewise.Assembly
