/-!
# Element types

The seven types a register can hold and the one-letter spelling they have in
signatures. `ElementType.accepts` is the only place where two types may stand
for each other: the two integer widths.
-/

namespace Lanewise

/-- What one lane of a register holds. -/
inductive ElementType where
  | bool
  /-- Signed integer of 32 bits. -/
  | int
  /-- Signed integer of 64 bits. -/
  | long
  /-- Binary floating point of 32 bits. -/
  | float
  /-- Binary floating point of 64 bits. -/
  | double
  /-- A real and an imaginary part of 64 bits each. -/
  | complex
  /-- Bytes of a fixed width, padded with NUL. -/
  | str
  deriving DecidableEq, Inhabited

namespace ElementType

/-- Every type, in the order the container numbers them. -/
def all : List ElementType :=
  [bool, int, long, float, double, complex, str]

/-- The letter that spells the type. -/
def toChar : ElementType → Char
  | bool => 'b'
  | int => 'i'
  | long => 'l'
  | float => 'f'
  | double => 'd'
  | complex => 'c'
  | str => 's'

/-- The type a letter spells, if it spells one. -/
def ofChar? : Char → Option ElementType
  | 'b' => some bool
  | 'i' => some int
  | 'l' => some long
  | 'f' => some float
  | 'd' => some double
  | 'c' => some complex
  | 's' => some str
  | _ => none

/-- The letter as a byte, the form it has in digests. -/
def toByte (t : ElementType) : UInt8 :=
  t.toChar.toNat.toUInt8

/-- Bytes of one element. Strings have a width of their own and report 0. -/
def itemSize : ElementType → Nat
  | bool => 1
  | int | float => 4
  | long | double => 8
  | complex => 16
  | str => 0

/-- A register declared as `found` may be used where `expected` is asked for.
The integer widths stand for each other, so a program checks alike whichever
width the host integers have. -/
def accepts (found expected : ElementType) : Bool :=
  found == expected || (found == int && expected == long)
    || (found == long && expected == int)

theorem ofChar?_toChar (t : ElementType) : ofChar? t.toChar = some t := by
  cases t <;> rfl

theorem accepts_refl (t : ElementType) : t.accepts t = true := by
  cases t <;> rfl

end ElementType

/-- One type per register. -/
abbrev Signature := List ElementType

namespace Signature

/-- The letters of a signature. -/
def text (sig : Signature) : String :=
  String.ofList (sig.map ElementType.toChar)

/-- Read letters from position `pos` on; a letter that spells no type is
reported with its position. -/
def ofCharsFrom (pos : Nat) : List Char → Except (Nat × Char) Signature
  | [] => .ok []
  | c :: rest =>
    match ElementType.ofChar? c with
    | none => .error (pos, c)
    | some t => (t :: ·) <$> ofCharsFrom (pos + 1) rest

/-- Read a whole signature. -/
def ofString (s : String) : Except (Nat × Char) Signature :=
  ofCharsFrom 0 s.toList

end Signature

end Lanewise
