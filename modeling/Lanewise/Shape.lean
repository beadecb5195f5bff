import Lanewise.Count
import Lanewise.EvalError

/-!
# Shapes

Extents of arrays, the outermost dimension first, and how arrays of different
shapes are read over a common one. Shapes are aligned at their last dimension;
a dimension of extent 1, or one that is missing, is repeated.
-/

namespace Lanewise

/-- One extent per dimension. -/
abbrev Shape := List Nat

namespace Shape

/-- Largest number a size can be. -/
def maxSize : Nat := UInt64.size - 1

/-- Number of elements. -/
def size (shape : Shape) : Nat :=
  shape.foldl (· * ·) 1

/-- Number of elements, if it fits 64 bits all the way from left to right. -/
def size? (shape : Shape) : Option Nat :=
  shape.foldlM checkedProduct 1

/-- Number of elements of a shape that someone asks for. -/
def checkedSize (shape : Shape) : Except EvalError Nat :=
  match shape.size? with
  | some n => .ok n
  | none => .error (.shape (.overflow shape))

/-- Distance in elements between neighbours along each dimension, in row-major
order. An extent of 0 counts as 1, and no distance exceeds `maxSize`. -/
def contiguousStrides (shape : Shape) : List Nat :=
  (shape.foldr (fun d (strides, step) => (step :: strides, min (step * max d 1) maxSize))
    ([], 1)).1

/-- The same distances as signed numbers. An extent of `2 ^ 63` or more counts
as the negative number that its 64 bits spell. -/
def signedStrides (shape : Shape) : List Int :=
  (shape.foldr (fun d (strides, step) =>
    let product := step * Int.bmod (max d 1 : Nat) UInt64.size
    (step :: strides, max Int64.minValue.toInt (min product Int64.maxValue.toInt)))
    ([], (1 : Int))).1

/-! ## Sizes -/

theorem size_nil : size [] = 1 := rfl

theorem foldl_mul (shape : Shape) (m : Nat) : shape.foldl (· * ·) m = m * size shape := by
  induction shape generalizing m with
  | nil => simp [size_nil]
  | cons d shape ih =>
    rw [size, List.foldl_cons, List.foldl_cons, ih, ih (1 * d), Nat.one_mul, Nat.mul_assoc]

theorem size_cons (d : Nat) (shape : Shape) : size (d :: shape) = d * size shape := by
  rw [size, List.foldl_cons, Nat.one_mul, foldl_mul]

theorem lt_uint64_iff {n : Nat} : n < UInt64.size ↔ n ≤ maxSize := by
  unfold maxSize
  have : 0 < UInt64.size := by decide
  omega

theorem of_foldlM_checkedProduct {shape : Shape} {m n : Nat} (hm : m < UInt64.size)
    (h : shape.foldlM checkedProduct m = some n) :
    n = m * size shape ∧ n < UInt64.size := by
  induction shape generalizing m with
  | nil =>
    cases h
    simpa [size_nil] using hm
  | cons d shape ih =>
    rw [List.foldlM_cons] at h
    obtain ⟨_, hstep, hrest⟩ := Option.bind_eq_some_iff.1 h
    obtain ⟨hfits, rfl⟩ := checkedProduct_eq_some_iff.1 hstep
    rw [size_cons, ← Nat.mul_assoc]
    exact ih hfits hrest

theorem of_size? {shape : Shape} {n : Nat} (h : shape.size? = some n) :
    n = size shape ∧ size shape ≤ maxSize := by
  obtain ⟨hn, hlt⟩ := of_foldlM_checkedProduct (by decide) h
  rw [Nat.one_mul] at hn
  exact ⟨hn, lt_uint64_iff.1 (hn ▸ hlt)⟩

theorem checkedSize_eq_ok_iff {shape : Shape} {n : Nat} :
    shape.checkedSize = .ok n ↔ shape.size? = some n := by
  unfold checkedSize
  cases shape.size? <;> simp

theorem of_checkedSize {shape : Shape} {n : Nat} (h : shape.checkedSize = .ok n) :
    n = size shape ∧ size shape ≤ maxSize :=
  of_size? (checkedSize_eq_ok_iff.1 h)

/-! ## Broadcasting -/

/-- The common extent of two, if there is one. -/
def joinExtent? (a b : Nat) : Option Nat :=
  if a = 1 then some b else if b = 1 ∨ b = a then some a else none

/-- The common shape of two, both with the innermost dimension first. -/
def joinInner? : List Nat → List Nat → Option (List Nat)
  | [], bs => some bs
  | as, [] => some as
  | a :: as, b :: bs => do
    let d ← joinExtent? a b
    let rest ← joinInner? as bs
    return d :: rest

/-- The common shape of two, if there is one. -/
def join? (a b : Shape) : Option Shape :=
  (joinInner? a.reverse b.reverse).map List.reverse

/-- The common shape of several. The first shape that clashes with those before
it is reported. -/
def broadcast (shapes : List Shape) : Except EvalError Shape :=
  shapes.foldlM (fun out shape =>
    match out.join? shape with
    | some out => .ok out
    | none => .error (.shape (.notBroadcastable shape))) []

/-- Stride along a dimension that is read as extent `target`: 0 where it is
repeated, and where there is a single position. -/
def alignStride? (extent stride target : Nat) : Option Nat :=
  if extent = target then some (if extent = 1 then 0 else stride)
  else if extent = 1 then some 0
  else none

/-- Strides over the dimensions of a target, for a shape of as many dimensions. -/
def alignStrides? : (shape strides target : List Nat) → Option (List Nat)
  | d :: shape, s :: strides, t :: target => do
    let stride ← alignStride? d s t
    let rest ← alignStrides? shape strides target
    return stride :: rest
  | [], [], [] => some []
  | _, _, _ => none

/-- Strides that read an array over a target shape, if it can be. -/
def broadcastStrides? (shape : Shape) (strides : List Nat) (target : Shape) :
    Option (List Nat) :=
  let missing := target.length - shape.length
  if shape.length ≤ target.length then
    (alignStrides? shape strides (target.drop missing)).map (List.replicate missing 0 ++ ·)
  else none

theorem length_alignStrides? {shape strides target out : List Nat}
    (h : alignStrides? shape strides target = some out) : out.length = target.length := by
  induction shape generalizing strides target out with
  | nil =>
    cases strides <;> cases target <;> simp [alignStrides?] at h
    subst h
    rfl
  | cons d shape ih =>
    cases strides <;> cases target <;> simp only [alignStrides?, reduceCtorEq] at h
    simp only [Option.bind_eq_bind, Option.bind_eq_some_iff, Option.pure_def,
      Option.some.injEq] at h
    obtain ⟨_, _, rest, hrest, rfl⟩ := h
    simp [ih hrest]

theorem length_broadcastStrides? {shape strides target out : List Nat}
    (h : broadcastStrides? shape strides target = some out) : out.length = target.length := by
  unfold broadcastStrides? at h
  split at h
  · obtain ⟨aligned, haligned, rfl⟩ := Option.map_eq_some_iff.1 h
    have := length_alignStrides? haligned
    simp only [List.length_append, List.length_replicate, this, List.length_drop]
    omega
  · cases h

end Shape

end Lanewise
