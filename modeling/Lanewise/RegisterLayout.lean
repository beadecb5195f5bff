import Lanewise.Count

/-!
# Register layout

Registers form one index space: the output at 0, then the inputs, the
constants and the temporaries.
-/

namespace Lanewise

/-- What a register is for. -/
inductive RegisterRole where
  | output | input | constant | temporary
  deriving DecidableEq

namespace RegisterRole

/-- Instructions write to the output and to temporaries only. -/
def isWritable : RegisterRole → Bool
  | output | temporary => true
  | input | constant => false

end RegisterRole

/-- How many registers of each role a kernel has. -/
structure RegisterLayout where
  inputs : Nat
  constants : Nat
  temporaries : Nat
  deriving DecidableEq

namespace RegisterLayout

/-- Index of the first constant. -/
def firstConstant (layout : RegisterLayout) : Nat :=
  1 + layout.inputs

/-- Index of the first temporary. -/
def firstTemporary (layout : RegisterLayout) : Nat :=
  layout.firstConstant + layout.constants

/-- Number of registers; every register index is below it. -/
def size (layout : RegisterLayout) : Nat :=
  layout.firstTemporary + layout.temporaries

/-- Number of registers, if it fits 64 bits. -/
def count? (layout : RegisterLayout) : Option Nat := do
  let fixed ← checkedSum 1 layout.inputs
  let fixed ← checkedSum fixed layout.constants
  checkedSum fixed layout.temporaries

/-- The role of a register, if the layout has that register. -/
def role? (layout : RegisterLayout) (reg : Nat) : Option RegisterRole :=
  if reg = 0 then some .output
  else if reg < layout.firstConstant then some .input
  else if reg < layout.firstTemporary then some .constant
  else if reg < layout.size then some .temporary
  else none

/-- Whether an instruction may write to the register. -/
def isWritable (layout : RegisterLayout) (reg : Nat) : Bool :=
  (layout.role? reg).any RegisterRole.isWritable

def text (layout : RegisterLayout) : String :=
  s!"1 output, {layout.inputs} inputs, {layout.constants} constants, {layout.temporaries} temps"

theorem role?_eq_none_iff {layout : RegisterLayout} {reg : Nat} :
    layout.role? reg = none ↔ layout.size ≤ reg := by
  unfold role?
  repeat' split
  all_goals simp only [size, firstTemporary, firstConstant] at *
  all_goals grind

theorem count?_eq_some_iff {layout : RegisterLayout} {n : Nat} :
    layout.count? = some n ↔ layout.size < UInt64.size ∧ layout.size = n := by
  simp only [count?, Option.bind_eq_bind, Option.bind_eq_some_iff, checkedSum_eq_some_iff, size,
    firstTemporary, firstConstant]
  constructor
  · rintro ⟨_, ⟨-, rfl⟩, _, ⟨-, rfl⟩, h⟩
    exact h
  · rintro ⟨hsize, heq⟩
    exact ⟨_, ⟨by omega, rfl⟩, _, ⟨by omega, rfl⟩, hsize, heq⟩

theorem count?_eq_some {layout : RegisterLayout} (h : layout.size < UInt64.size) :
    layout.count? = some layout.size :=
  count?_eq_some_iff.2 ⟨h, rfl⟩

end RegisterLayout

end Lanewise
