import Lanewise.Kernel
import Lanewise.Sha256

/-!
# Kernel digests

The bytes that identify a kernel, and their hash. Programs and strings follow
their lengths, a mark ends each signature, and the type letter of a constant
tells how it goes on, so the bytes determine the kernel.
-/

namespace Lanewise

namespace Constant

/-- The type letter and the value, strings preceded by their length. -/
def digestInput (c : Constant) : List UInt8 :=
  c.elementType.toByte ::
    match c with
    | bool value => [if value then 1 else 0]
    | int value => Bytes.littleEndian 4 value.toUInt32.toNat
    | long value => Bytes.littleEndian 8 value.toUInt64.toNat
    | float bits => Bytes.littleEndian 4 bits.toNat
    | double bits => Bytes.littleEndian 8 bits.toNat
    | complex re im => Bytes.littleEndian 8 re.toNat ++ Bytes.littleEndian 8 im.toNat
    | str bytes => Bytes.littleEndian 8 bytes.length ++ bytes

end Constant

namespace Kernel

/-- Ends each signature in the digested bytes. -/
def signatureMark : UInt8 := '|'.toNat.toUInt8

/-- The bytes whose hash identifies the kernel. -/
def digestInput (k : Kernel) : List UInt8 :=
  Bytes.littleEndian 8 k.program.length ++ k.program.code
    ++ k.fullSignature.map ElementType.toByte ++ [signatureMark]
    ++ k.inputSignature.map ElementType.toByte ++ [signatureMark]
    ++ k.constants.flatMap Constant.digestInput
    ++ Bytes.littleEndian 8 k.temporaries

/-- SHA-256 over program, signatures and constants. -/
def digest (k : Kernel) : List UInt8 :=
  Sha256.hash k.digestInput

end Kernel

end Lanewise
