import Lanewise.Bytes
import Lanewise.KernelError

/-!
# Container headers

The 32 bytes in front of a body:

    offset  size  field
    0       4     magic
    4       4     version
    8       2     inputs
    10      2     constants
    12      2     temporaries
    14      2     flags, bit 0 for a reduction
    16      4     program size
    20      4     body size
    24      8     reserved
-/

namespace Lanewise.Container

/-- Marks a container. -/
def magic : UInt32 := 0x4b4d5646

/-- The version of the format, major number in the upper half. -/
def version : UInt32 := 0x00010000

/-- Bytes of a header. -/
def headerSize : Nat := 32

structure Header where
  magic : UInt32
  version : UInt32
  inputs : UInt16
  constants : UInt16
  temporaries : UInt16
  flags : UInt16
  /-- Bytes of the program. -/
  codeSize : UInt32
  /-- Bytes of the body behind the header. -/
  bodySize : UInt32
  deriving DecidableEq

namespace Header

/-- Whether the header says that the program ends in a reduction. -/
def isReduction (h : Header) : Bool :=
  h.flags % 2 == 1

/-- The bytes of the header. -/
def toBytes (h : Header) : List UInt8 :=
  Bytes.littleEndian 4 h.magic.toNat ++ Bytes.littleEndian 4 h.version.toNat
    ++ Bytes.littleEndian 2 h.inputs.toNat ++ Bytes.littleEndian 2 h.constants.toNat
    ++ Bytes.littleEndian 2 h.temporaries.toNat ++ Bytes.littleEndian 2 h.flags.toNat
    ++ Bytes.littleEndian 4 h.codeSize.toNat ++ Bytes.littleEndian 4 h.bodySize.toNat
    ++ List.replicate 8 0

/-- Read the header that starts `bytes`. Magic and version must match. -/
def ofBytes (bytes : List UInt8) : Except KernelError Header :=
  if bytes.length < headerSize then .error (.shortHeader headerSize bytes.length)
  else
    let field := fun offset width => Bytes.ofLittleEndian ((bytes.drop offset).take width)
    let h : Header :=
      { magic := (field 0 4).toUInt32
        version := (field 4 4).toUInt32
        inputs := (field 8 2).toUInt16
        constants := (field 10 2).toUInt16
        temporaries := (field 12 2).toUInt16
        flags := (field 14 2).toUInt16
        codeSize := (field 16 4).toUInt32
        bodySize := (field 20 4).toUInt32 }
    if h.magic ≠ Container.magic then .error (.badMagic h.magic)
    else if h.version ≠ Container.version then .error (.badVersion Container.version h.version)
    else .ok h

/-- The header as a table of lines. -/
def text (h : Header) : String :=
  "FuseVM Kernel Header\n"
    ++ s!"  Magic:       0x{Text.hex 8 h.magic.toNat}\n"
    ++ s!"  Version:     0x{Text.hex 8 h.version.toNat}\n"
    ++ s!"  Inputs:      {h.inputs}\n"
    ++ s!"  Constants:   {h.constants}\n"
    ++ s!"  Temps:       {h.temporaries}\n"
    ++ s!"  Reduction:   {h.isReduction}\n"
    ++ s!"  Code size:   {h.codeSize} bytes\n"
    ++ s!"  Body size:   {h.bodySize} bytes\n"

end Header

end Lanewise.Container
