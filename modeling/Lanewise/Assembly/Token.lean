import Lanewise.Number.Decimal
import Lanewise.Text.Digits

/-!
# Tokens of assembly text

A token is the longest match of one of the `rules` at a position; of equally
long matches the earlier rule wins. Blanks and comments between tokens are
skipped. Text that no rule matches becomes a lexeme without a token, and lexing
goes on behind it.
-/

namespace Lanewise.Assembly

inductive Token where
  /-- Mnemonics, function names, type lists, `all`. -/
  | identifier (name : String)
  | register (number : Nat)
  | integer (value : Int64)
  | hex (value : Int64)
  /-- A number with a point or an exponent, or a named one, as the bits of a
  64-bit float. -/
  | float (bits : UInt64)
  | str (bytes : List UInt8)
  /-- A word behind a dot. -/
  | directive (name : String)
  | comma
  | leftParen
  | rightParen
  | newline
  deriving DecidableEq

/-- A piece of the text: where it is and which token it is, if it is one. -/
structure Lexeme where
  /-- Byte offset of the first character. -/
  start : Nat
  /-- Byte offset behind the last character. -/
  stop : Nat
  text : String
  token? : Option Token
  deriving DecidableEq

/-! ## Character classes -/

def isWordStart (c : Char) : Bool :=
  c.isAlpha || c == '_'

def isWordPart (c : Char) : Bool :=
  c.isAlphanum || c == '_'

def isBlank (c : Char) : Bool :=
  c == ' ' || c == '\t' || c == '\r'

/-! ## Lengths of matches

Each function gives the number of characters a rule matches at the front of the
text, 0 when it does not match. -/

/-- Length of the longest prefix of characters in a class. -/
def spanLength (p : Char → Bool) (cs : List Char) : Nat :=
  (cs.takeWhile p).length

/-- A letter or underscore, then letters, digits and underscores. -/
def wordLength : List Char → Nat
  | c :: rest => if isWordStart c then 1 + spanLength isWordPart rest else 0
  | [] => 0

/-- One or more characters of a class behind a lead of `lead` characters. -/
def leadLength (lead : Nat) (p : Char → Bool) (rest : List Char) : Nat :=
  match spanLength p rest with
  | 0 => 0
  | n => lead + n

/-- The letter r and digits. -/
def registerLength : List Char → Nat
  | 'r' :: rest => leadLength 1 Char.isDigit rest
  | _ => 0

/-- Digits, perhaps behind a minus sign. -/
def integerLength : List Char → Nat
  | '-' :: rest => leadLength 1 Char.isDigit rest
  | cs => leadLength 0 Char.isDigit cs

/-- The characters 0x and hexadecimal digits. -/
def hexLength : List Char → Nat
  | '0' :: 'x' :: rest => leadLength 2 (fun c => (Text.hexValue? c).isSome) rest
  | _ => 0

/-- The letter e or E, perhaps a sign, and digits. -/
def exponentLength : List Char → Nat
  | c :: rest =>
    if c == 'e' || c == 'E' then
      match rest with
      | sign :: digits =>
        if sign == '+' || sign == '-' then leadLength 2 Char.isDigit digits
        else leadLength 1 Char.isDigit rest
      | [] => 0
    else 0
  | [] => 0

/-- An integer with a fraction, an exponent or both. -/
def decimalLength (cs : List Char) : Nat :=
  let whole := integerLength cs
  if whole = 0 then 0
  else
    match cs.drop whole with
    | '.' :: rest =>
      let fraction := spanLength Char.isDigit rest
      whole + 1 + fraction + exponentLength (rest.drop fraction)
    | rest =>
      match exponentLength rest with
      | 0 => 0
      | n => whole + n

/-- Infinity or not a number, perhaps behind a minus sign. -/
def namedNumberLength : List Char → Nat
  | '-' :: rest => match bare rest with
    | 0 => 0
    | n => n + 1
  | cs => bare cs
where
  bare : List Char → Nat
    | 'i' :: 'n' :: 'f' :: _ => 3
    | 'N' :: 'a' :: 'N' :: _ => 3
    | 'n' :: 'a' :: 'n' :: _ => 3
    | _ => 0

/-- A dot and a word. -/
def directiveLength : List Char → Nat
  | '.' :: rest => match wordLength rest with
    | 0 => 0
    | n => n + 1
  | _ => 0

/-- Length of the inside of a string up to and including the closing quote, and
whether there is one. The inside consists of single characters and of pairs of
a backslash and any character but a newline. -/
def stringTail : List Char → Nat × Bool
  | [] => (0, false)
  | '"' :: _ => (1, true)
  | '\\' :: '\n' :: _ => (0, false)
  | ['\\'] => (0, false)
  | '\\' :: _ :: rest => let (n, closed) := stringTail rest; (n + 2, closed)
  | _ :: rest => let (n, closed) := stringTail rest; (n + 1, closed)

/-- A quoted string. -/
def stringLength : List Char → Nat
  | '"' :: rest => match stringTail rest with
    | (n, true) => n + 1
    | (_, false) => 0
  | _ => 0

/-! ## Values -/

/-- A hexadecimal number below `bound`. -/
def hexNumber? (bound : Nat) (digits : List Char) : Option Nat :=
  if digits.isEmpty then none
  else
    (digits.foldlM (fun n c => (Text.hexValue? c).map (16 * n + ·)) 0).filter (· < bound)

/-- The byte that two characters of a hexadecimal escape stand for. A plus sign
may take the place of the first digit. -/
def escapedByte? : Char → Char → Option UInt8
  | '+', lo => (hexNumber? 256 [lo]).map Nat.toUInt8
  | hi, lo => (hexNumber? 256 [hi, lo]).map Nat.toUInt8

/-- The bytes that the inside of a string stands for. -/
def unescape? : List Char → Option (List UInt8)
  | [] => some []
  | '\\' :: 'x' :: hi :: lo :: rest => do
    let b ← escapedByte? hi lo
    let bytes ← unescape? rest
    return b :: bytes
  | '\\' :: c :: rest => do
    let b ← match c with
      | '\\' => some '\\'.toNat.toUInt8
      | '"' => some '"'.toNat.toUInt8
      | 'n' => some '\n'.toNat.toUInt8
      | 't' => some '\t'.toNat.toUInt8
      | '0' => some 0
      | _ => none
    let bytes ← unescape? rest
    return b :: bytes
  | ['\\'] => none
  | c :: rest => (String.utf8EncodeChar c ++ ·) <$> unescape? rest

/-- An integer that fits 64 bits with sign. -/
def int64? (n : Int) : Option Int64 :=
  if Int64.minValue.toInt ≤ n ∧ n ≤ Int64.maxValue.toInt then some (Int64.ofInt n) else none

def integerToken? (text : List Char) : Option Token :=
  let (negative, digits) := BinaryFormat.splitMinus text
  let n : Int := BinaryFormat.digitsValue digits
  (int64? (if negative then -n else n)).map .integer

def registerToken? (text : List Char) : Option Token :=
  let n := BinaryFormat.digitsValue (text.drop 1)
  if n < UInt16.size then some (.register n) else none

def hexToken? (text : List Char) : Option Token :=
  (hexNumber? 0x8000000000000000 (text.drop 2)).map fun n => .hex (Int64.ofNat n)

def floatToken? (text : List Char) : Option Token :=
  some (.float (BinaryFormat.double.ofLiteral text).toUInt64)

def stringToken? (text : List Char) : Option Token :=
  (unescape? (text.drop 1).dropLast).map .str

/-! ## Rules -/

/-- How to find a kind of token and what the matched characters mean. A match
whose value is none is no token. -/
structure Rule where
  matchLength : List Char → Nat
  value : List Char → Option Token

/-- A rule for a single character. -/
def Rule.char (c : Char) (token : Token) : Rule where
  matchLength cs := if cs.head? = some c then 1 else 0
  value _ := some token

/-- The rules, by priority. Registers and named numbers come before words, which
match the same characters. -/
def rules : List Rule := [
  ⟨registerLength, registerToken?⟩,
  ⟨namedNumberLength, floatToken?⟩,
  ⟨wordLength, fun text => some (.identifier (String.ofList text))⟩,
  ⟨hexLength, hexToken?⟩,
  ⟨decimalLength, floatToken?⟩,
  ⟨integerLength, integerToken?⟩,
  ⟨stringLength, stringToken?⟩,
  ⟨directiveLength, fun text => some (.directive (String.ofList (text.drop 1)))⟩,
  Rule.char ',' .comma,
  Rule.char '(' .leftParen,
  Rule.char ')' .rightParen,
  Rule.char '\n' .newline]

/-- The longest match among the rules with its rule. Earlier rules win ties. -/
def longestMatch (cs : List Char) : Nat × Option Rule :=
  rules.foldl
    (fun (best, rule?) rule =>
      let n := rule.matchLength cs
      if best < n then (n, some rule) else (best, rule?))
    (0, none)

/-- Characters that make up one fault: an unclosed string as far as it goes, or a
single character. -/
def faultLength : List Char → Nat
  | '"' :: rest => 1 + (stringTail rest).1
  | _ => 1

/-! ## Lexing -/

/-- Number of bytes of a text. -/
def byteLength : List Char → Nat
  | [] => 0
  | c :: cs => c.utf8Size + byteLength cs

/-- Characters skipped in front of a token that starts with `c`: a blank or a
comment up to the end of its line. -/
def skipLength (c : Char) (rest : List Char) : Nat :=
  if isBlank c then 1
  else if c == '#' then 1 + spanLength (· != '\n') rest
  else 0

/-- The token at the front of the text and its length in characters. -/
def firstToken (cs : List Char) : Nat × Option Token :=
  match longestMatch cs with
  | (n, some rule) => (n, rule.value (cs.take n))
  | (_, none) => (faultLength cs, none)

/-- The lexemes of the text at byte offset `offset`. -/
def lexFrom (offset : Nat) (cs : List Char) : List Lexeme :=
  match cs with
  | [] => []
  | c :: rest =>
    let skip := skipLength c rest
    if skip ≠ 0 then
      lexFrom (offset + byteLength ((c :: rest).take skip)) ((c :: rest).drop skip)
    else
      let (n, token?) := firstToken (c :: rest)
      -- a rule never wins with an empty match, and a fault has a character
      let n := max 1 n
      let text := (c :: rest).take n
      let stop := offset + byteLength text
      ⟨offset, stop, String.ofList text, token?⟩ :: lexFrom stop ((c :: rest).drop n)
termination_by cs.length
decreasing_by
  all_goals
    simp only [List.length_drop, List.length_cons]
    omega

/-- The lexemes of a text. -/
def lex (text : String) : List Lexeme :=
  lexFrom 0 text.toList

end Lanewise.Assembly
