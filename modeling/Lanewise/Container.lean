import Lanewise.Container.Header
import Lanewise.Container.Body

/-!
# Kernel containers

A header and a body. Reading checks the counts of the header against the body;
bytes behind the body are ignored, inside the declared body size and after it.
-/

namespace Lanewise.Kernel

open Container

/-- A count that has 16 bits in the header. -/
def narrowCount (field : CountField) (n : Nat) : Except KernelError UInt16 :=
  if n < UInt16.size then .ok n.toUInt16 else .error (.countOverflow field n)

/-- The header for a body of the given size. -/
def header (k : Kernel) (bodySize : Nat) : Except KernelError Header := do
  let inputs ← narrowCount .inputs k.inputSignature.length
  let constants ← narrowCount .constants k.constants.length
  let temporaries ← narrowCount .temporaries k.temporaries
  return {
    magic := Container.magic
    version := Container.version
    inputs, constants, temporaries
    flags := if k.isReduction then 1 else 0
    codeSize := k.program.length.toUInt32
    bodySize := bodySize.toUInt32 }

/-- The container of a kernel. -/
def toBytes (k : Kernel) : Except KernelError (List UInt8) := do
  let body := writeBody k
  let header ← k.header body.length
  return header.toBytes ++ body

/-- Fails unless the header states the count that the body has. -/
def checkCount (field : CountField) (declared found : Nat) : Except KernelError Unit :=
  if declared = found then .ok () else .error (.countMismatch field declared found)

/-- Read a container. -/
def ofBytes (bytes : List UInt8) : Except KernelError Kernel := do
  let header ← Header.ofBytes bytes
  let bodySize := header.bodySize.toNat
  let rest := bytes.drop headerSize
  if rest.length < bodySize then
    throw (.countMismatch .bodySize bodySize rest.length)
  let kernel ←
    match readBody (rest.take bodySize) with
    | .ok (kernel, _) => pure kernel
    | .error cause => throw (.undecodable cause)
  checkCount .inputs header.inputs.toNat kernel.inputSignature.length
  checkCount .constants header.constants.toNat kernel.constants.length
  checkCount .temporaries header.temporaries.toNat kernel.temporaries
  checkCount .codeSize header.codeSize.toNat kernel.program.length
  return kernel

end Lanewise.Kernel
