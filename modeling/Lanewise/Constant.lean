import Lanewise.ElementType
import Lanewise.Number.Decimal
import Lanewise.Text.Quoted
import Lanewise.Text.Utf8

/-!
# Constants

The values a kernel carries for its constant registers. Floating-point
constants are kept as bits: containers, digests and text treat them exactly,
NaN payloads and signed zeros included.
-/

namespace Lanewise

inductive Constant where
  | bool (value : Bool)
  | int (value : Int32)
  | long (value : Int64)
  | float (bits : UInt32)
  | double (bits : UInt64)
  | complex (re im : UInt64)
  | str (bytes : List UInt8)
  deriving DecidableEq

namespace Constant

def elementType : Constant → ElementType
  | bool _ => .bool
  | int _ => .int
  | long _ => .long
  | float _ => .float
  | double _ => .double
  | complex _ _ => .complex
  | str _ => .str

/-- Bytes of a string, 0 for other types. -/
def stringWidth : Constant → Nat
  | str bytes => bytes.length
  | _ => 0

/-- The number in decimal. -/
def doubleText (bits : UInt64) : String :=
  BinaryFormat.double.print bits.toNat

/-- Real and imaginary part between parentheses. -/
def complexText (re im : UInt64) : String :=
  "(" ++ doubleText re ++ ", " ++ doubleText im ++ ")"

/-- The constant as messages show it. -/
def text : Constant → String
  | bool value => toString value
  | int value => toString value.toInt
  | long value => toString value.toInt
  | float bits => BinaryFormat.single.print bits.toNat
  | double bits => doubleText bits
  | complex re im => complexText re im
  | str bytes => Text.quoteString (Text.lossy bytes)

/-- Equality as values: numbers compare as numbers, so that a NaN differs from
itself and the two zeros are equal. -/
def sameValue : Constant → Constant → Bool
  | float a, float b => BinaryFormat.single.sameNumber a.toNat b.toNat
  | double a, double b => BinaryFormat.double.sameNumber a.toNat b.toNat
  | complex ar ai, complex br bi =>
    BinaryFormat.double.sameNumber ar.toNat br.toNat
      && BinaryFormat.double.sameNumber ai.toNat bi.toNat
  | a, b => a == b

end Constant

end Lanewise
