/-!
# Counting in 64 bits

Sizes and offsets are numbers of 64 bits. Arithmetic on them has no answer where
the exact result does not fit.
-/

namespace Lanewise

/-- A sum that fits 64 bits. -/
def checkedSum (a b : Nat) : Option Nat :=
  if a + b < UInt64.size then some (a + b) else none

/-- A product that fits 64 bits. -/
def checkedProduct (a b : Nat) : Option Nat :=
  if a * b < UInt64.size then some (a * b) else none

/-- A difference that does not fall below 0. -/
def checkedDifference (a b : Nat) : Option Nat :=
  if b ≤ a then some (a - b) else none

theorem checkedSum_eq_some_iff {a b n : Nat} :
    checkedSum a b = some n ↔ a + b < UInt64.size ∧ a + b = n := by
  simp [checkedSum]

theorem checkedProduct_eq_some_iff {a b n : Nat} :
    checkedProduct a b = some n ↔ a * b < UInt64.size ∧ a * b = n := by
  simp [checkedProduct]

theorem checkedDifference_eq_some_iff {a b n : Nat} :
    checkedDifference a b = some n ↔ b ≤ a ∧ a - b = n := by
  simp [checkedDifference]

theorem checkedSum_eq_some {a b : Nat} (h : a + b < UInt64.size) :
    checkedSum a b = some (a + b) :=
  checkedSum_eq_some_iff.2 ⟨h, rfl⟩

theorem checkedProduct_eq_some {a b : Nat} (h : a * b < UInt64.size) :
    checkedProduct a b = some (a * b) :=
  checkedProduct_eq_some_iff.2 ⟨h, rfl⟩

theorem checkedDifference_eq_some {a b : Nat} (h : b ≤ a) :
    checkedDifference a b = some (a - b) :=
  checkedDifference_eq_some_iff.2 ⟨h, rfl⟩

end Lanewise
