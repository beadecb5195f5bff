import Lanewise.Assembly.Error
import Lanewise.Assembly.Token
import Lanewise.Constant
import Lanewise.Text.Space

/-!
# Statements of assembly text

A line is blank, a directive or an instruction:

    .output d
    .inputs dd
    .const d 2.0
    .temps d
        mul_ddd r4, r1, r3
        func_ddn r0, r4, sqrt

Reading stops at the first line that is none of these.
-/

namespace Lanewise.Assembly

/-- An operand as written. -/
inductive Operand where
  | register (reg : UInt8)
  | integer (value : Int64)
  /-- A function name or `all`. -/
  | name (text : String)
  deriving DecidableEq

/-- An instruction as written. -/
structure InstructionLine where
  /-- Line number, from 1. -/
  line : Nat
  mnemonic : String
  operands : List Operand
  deriving DecidableEq

/-- What a directive declares. -/
inductive Directive where
  | output (t : ElementType)
  | inputs (sig : Signature)
  | constant (value : Constant)
  | temporaries (sig : Signature)
  deriving DecidableEq

inductive Statement where
  | directive (line : Nat) (declared : Directive)
  | instruction (inst : InstructionLine)
  deriving DecidableEq

/-- A token and the byte offset it starts at. -/
structure Located where
  token : Token
  start : Nat
  deriving DecidableEq

/-- The fault at a byte offset of a line. -/
def syntaxErrorAt (line start : Nat) (detail : String) : AssemblyError :=
  .syntaxError line (start + 1) detail

/-- The tokens of the lexemes of a line, without line ends. -/
def locate (line : Nat) : List Lexeme → Except AssemblyError (List Located)
  | [] => .ok []
  | lexeme :: rest =>
    match lexeme.token? with
    | none => .error (syntaxErrorAt line lexeme.start s!"unexpected input '{lexeme.text}'")
    | some .newline => locate line rest
    | some token => (⟨token, lexeme.start⟩ :: ·) <$> locate line rest

/-! ## Operands -/

/-- The operand a token stands for. -/
def operandOf (line : Nat) (t : Located) : Except AssemblyError Operand :=
  match t.token with
  | .register n =>
    if n < 256 then .ok (.register n.toUInt8)
    else .error (.invalidRegister line s!"r{n}")
  | .integer v | .hex v => .ok (.integer v)
  | .identifier name => .ok (.name name)
  | _ => .error (syntaxErrorAt line t.start "expected a register, number or name")

/-- Operands separated by single commas. -/
def operandsOf (line : Nat) : List Located → Except AssemblyError (List Operand)
  | [] => .ok []
  | t :: rest => do
    let operand ← operandOf line t
    match rest with
    | [] => return [operand]
    | [comma] =>
      if comma.token = .comma then throw (syntaxErrorAt line comma.start "trailing ','")
      else throw (syntaxErrorAt line comma.start "expected ','")
    | comma :: more =>
      if comma.token = .comma then
        let operands ← operandsOf line more
        return operand :: operands
      else throw (syntaxErrorAt line comma.start "expected ','")

/-! ## Directives -/

/-- The types that the letters of a word spell. -/
def typesOfLetters (line : Nat) : List Char → Except AssemblyError Signature
  | [] => .ok []
  | c :: rest =>
    match ElementType.ofChar? c with
    | none => .error (.invalidDirective line s!"unknown type code '{c}'")
    | some t => (t :: ·) <$> typesOfLetters line rest

/-- Types written as one or more words of letters. -/
def typesOf (line : Nat) : List Located → Except AssemblyError Signature
  | [] => .ok []
  | t :: rest =>
    match t.token with
    | .identifier word => do
      let types ← typesOfLetters line word.toList
      let more ← typesOf line rest
      return types ++ more
    | _ => .error (syntaxErrorAt line t.start "expected type codes")

/-- Bits of the 64-bit float nearest to an integer. -/
def bitsOfInteger (v : Int64) : UInt64 :=
  (BinaryFormat.double.withSign (v < 0)
    (BinaryFormat.double.roundRatio v.toInt.natAbs 1)).toUInt64

/-- The number a token stands for, as the bits of a 64-bit float. -/
def numberOf? : Token → Option UInt64
  | .integer v | .hex v => some (bitsOfInteger v)
  | .float bits => some bits
  | _ => none

/-- The number of a token where one is required. -/
def numberOf (line : Nat) (t : Token) : Except AssemblyError UInt64 :=
  match numberOf? t with
  | some bits => .ok bits
  | none => .error (.invalidImmediate line "expected a number")

/-- The 32-bit float nearest to a 64-bit one. -/
def singleOfDouble (bits : UInt64) : UInt32 :=
  (BinaryFormat.convert .double .single bits.toNat).toUInt32

def intConstant (line : Nat) (v : Int64) : Except AssemblyError Constant :=
  if Int32.minValue.toInt ≤ v.toInt ∧ v.toInt ≤ Int32.maxValue.toInt then .ok (.int v.toInt32)
  else .error (.invalidImmediate line s!"{v.toInt} does not fit in int32")

/-- The constant of a type that the tokens behind the type spell. -/
def constantOf (line : Nat) (t : ElementType) (tokens : List Token) :
    Except AssemblyError Constant :=
  let invalid := .error (.invalidImmediate line s!"not a valid '{t.toChar}' constant")
  match t, tokens with
  | .bool, [.identifier "true"] => .ok (.bool true)
  | .bool, [.identifier "false"] => .ok (.bool false)
  | .bool, [.integer v] => if v = 0 ∨ v = 1 then .ok (.bool (v == 1)) else invalid
  | .int, [.integer v] | .int, [.hex v] => intConstant line v
  | .long, [.integer v] | .long, [.hex v] => .ok (.long v)
  | .float, [token] => do return .float (singleOfDouble (← numberOf line token))
  | .double, [token] => do return .double (← numberOf line token)
  | .complex, [token] => do return .complex (← numberOf line token) 0
  | .complex, [.leftParen, re, .comma, im, .rightParen] =>
    match numberOf? re, numberOf? im with
    | some re, some im => .ok (.complex re im)
    | _, _ => .error (.invalidImmediate line "expected (real, imag)")
  | .str, [.str bytes] => .ok (.str bytes)
  | _, _ => invalid

/-- A type letter and a value. -/
def constantDirective (line : Nat) : List Located → Except AssemblyError Directive
  | ⟨.identifier letter, start⟩ :: value => do
    match letter.toList.map ElementType.ofChar? with
    | [some t] => return .constant (← constantOf line t (value.map Located.token))
    | _ => throw (syntaxErrorAt line start s!"'{letter}' is not a type code")
  | _ => .error (.invalidDirective line ".const needs a type code and a value")

/-- The directive of a name with the tokens behind it. -/
def directiveOf (line : Nat) (name : String) (tokens : List Located) :
    Except AssemblyError Directive :=
  match name with
  | "output" => do
    match ← typesOf line tokens with
    | [t] => return .output t
    | types =>
      throw (.invalidDirective line s!".output takes one type code, found {types.length}")
  | "inputs" => .inputs <$> typesOf line tokens
  | "temps" => .temporaries <$> typesOf line tokens
  | "const" => constantDirective line tokens
  | other => .error (.invalidDirective line s!"unknown directive .{other}")

/-! ## Lines -/

/-- The statement of a line, none for a blank line. -/
def parseLine (line : Nat) (text : String) : Except AssemblyError (Option Statement) := do
  match ← locate line (lex text) with
  | [] => return none
  | ⟨.directive name, _⟩ :: rest =>
    return some (.directive line (← directiveOf line name rest))
  | ⟨.identifier mnemonic, _⟩ :: rest =>
    return some (.instruction ⟨line, mnemonic.toLower, ← operandsOf line rest⟩)
  | ⟨_, start⟩ :: _ =>
    throw (syntaxErrorAt line start "expected an instruction or directive")

/-- The text of a line without the carriage return of its line end. -/
def dropReturn (line : List Char) : List Char :=
  if line.getLast? = some '\r' then line.dropLast else line

/-- The lines of a text. A line end is a newline, perhaps behind a carriage
return; text behind the last line end is a line when there is some. -/
def linesOf (cs : List Char) : List (List Char) :=
  go [] cs
where
  go (line : List Char) : List Char → List (List Char)
    | [] => if line.isEmpty then [] else [line.reverse]
    | '\n' :: rest => dropReturn line.reverse :: go [] rest
    | c :: rest => go (c :: line) rest

/-- The statements of lines numbered from `line` on. -/
def parseLines (line : Nat) : List (List Char) → Except AssemblyError (List Statement)
  | [] => .ok []
  | text :: rest => do
    let statement? ← parseLine line (String.ofList text)
    let statements ← parseLines (line + 1) rest
    return statement?.toList ++ statements

/-- The statements of a source text. -/
def parse (source : String) : Except AssemblyError (List Statement) :=
  parseLines 1 (linesOf source.toList)

/-- The instruction of a text that holds a single one. -/
def parseInstruction (text : String) : Except AssemblyError InstructionLine := do
  match ← parseLine 1 text with
  | some (.instruction inst) => return inst
  | _ => throw (.syntaxError 1 1 "expected an instruction")

/-- The register that a text names. Only its first token is looked at. -/
def parseRegister (text : String) : Except AssemblyError UInt8 :=
  match (lexFrom 0 (Text.trim text.toList)).head? with
  | some ⟨_, _, _, some (.register n)⟩ =>
    if n < 256 then .ok n.toUInt8 else .error (.invalidRegister 1 text)
  | _ => .error (.invalidRegister 1 text)

end Lanewise.Assembly
