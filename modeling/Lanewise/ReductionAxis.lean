/-!
# Reduction axes

Which axis a trailing reduction folds over, and the byte that carries it.
-/

namespace Lanewise

/-- Bound below which an axis byte is the axis itself. -/
def maxDims : Nat := 32

inductive ReductionAxis where
  /-- Every axis, into a single element. -/
  | all
  /-- One axis of the iteration shape. A negative axis can be written but is
  never in bounds. -/
  | axis (a : Int)
  deriving DecidableEq

namespace ReductionAxis

/-- The axis a byte stands for: 255 is `all`, bytes from `maxDims` on count
down from zero. -/
def ofByte (byte : UInt8) : ReductionAxis :=
  if byte = 255 then all
  else if maxDims ≤ byte.toNat then axis (maxDims - byte.toNat)
  else axis byte.toNat

/-- The byte that stands for an axis, modulo 256. -/
def toByte : ReductionAxis → UInt8
  | all => 255
  | axis a => if 0 ≤ a then UInt8.ofInt a else UInt8.ofInt (maxDims - a)

/-- The axis as an index into `ndim` dimensions, when it is in bounds. -/
def index? : ReductionAxis → Nat → Option Nat
  | all, _ => none
  | axis a, ndim => if 0 ≤ a ∧ a < ndim then some a.toNat else none

def text : ReductionAxis → String
  | all => "all"
  | axis a => toString a

theorem index?_lt {ax : ReductionAxis} {ndim i : Nat} (h : ax.index? ndim = some i) :
    i < ndim := by
  cases ax with
  | all => cases h
  | axis a =>
    simp only [index?] at h
    split at h
    · cases h; omega
    · cases h

end ReductionAxis

end Lanewise
