import Lanewise.Shape
import Lanewise.Proofs.Sequences

/-!
# Positions in a shape

A position of a shape stands for one index per dimension and back (`index`,
`position`), in row-major order. Strides place an element by its indices
(`dot`), and the strides of a contiguous array place each element at its own
position (`dot_contiguousStrides`).
-/

namespace Lanewise

namespace Shape

/-- The indices of a position, the outermost first. -/
def index : Shape → Nat → List Nat
  | [], _ => []
  | d :: shape, p => p / size shape % d :: index shape p

/-- The position of indices. -/
def position : Shape → List Nat → Nat
  | _ :: shape, i :: is => i * size shape + position shape is
  | _, _ => 0

/-- Where strides place the element at some indices. -/
def dot : List Nat → List Nat → Nat
  | i :: is, s :: strides => i * s + dot is strides
  | _, _ => 0

/-- Indices that exist in a shape. -/
abbrev InBounds (is : List Nat) (shape : Shape) : Prop :=
  List.Forall₂ (· < ·) is shape

/-! ## Sizes -/

theorem size_append (xs ys : Shape) : size (xs ++ ys) = size xs * size ys := by
  induction xs with
  | nil => simp [size_nil]
  | cons d xs ih => rw [List.cons_append, size_cons, size_cons, ih, Nat.mul_assoc]

theorem size_ne_zero_iff {shape : Shape} : size shape ≠ 0 ↔ ∀ d ∈ shape, d ≠ 0 := by
  induction shape with
  | nil => simp [size_nil]
  | cons d shape ih => rw [size_cons, Nat.mul_ne_zero_iff, ih, List.forall_mem_cons]

theorem size_eraseIdx {shape : Shape} {i : Nat} (h : i < shape.length) :
    size shape = shape[i] * size (shape.eraseIdx i) := by
  induction shape generalizing i with
  | nil => cases h
  | cons d shape ih =>
    cases i with
    | zero => simp [size_cons]
    | succ i =>
      rw [List.eraseIdx_cons_succ, size_cons, size_cons, ih (Nat.lt_of_succ_lt_succ h),
        List.getElem_cons_succ, Nat.mul_left_comm]

/-- Counting goes on from the number of elements that the dimensions before have. -/
theorem foldlM_checkedProduct {shape : Shape} (hpos : size shape ≠ 0) {m : Nat}
    (h : m * size shape < UInt64.size) :
    shape.foldlM checkedProduct m = some (m * size shape) := by
  induction shape generalizing m with
  | nil => simp [size_nil]
  | cons d shape ih =>
    rw [size_cons] at hpos h ⊢
    have hrest : size shape ≠ 0 := fun h => hpos (by rw [h, Nat.mul_zero])
    rw [← Nat.mul_assoc] at h ⊢
    have hstep : m * d < UInt64.size :=
      Nat.lt_of_le_of_lt (Nat.le_mul_of_pos_right _ (Nat.pos_of_ne_zero hrest)) h
    rw [List.foldlM_cons, checkedProduct_eq_some hstep]
    exact ih hrest h

/-- A shape with elements can be counted where the number of them fits 64 bits. -/
theorem size?_eq_some {shape : Shape} (hpos : size shape ≠ 0) (hfits : size shape ≤ maxSize) :
    shape.size? = some (size shape) := by
  have h := foldlM_checkedProduct hpos (m := 1) (by rwa [Nat.one_mul, lt_uint64_iff])
  rwa [Nat.one_mul] at h

theorem checkedSize_eq_ok {shape : Shape} (hpos : size shape ≠ 0) (hfits : size shape ≤ maxSize) :
    shape.checkedSize = .ok (size shape) :=
  checkedSize_eq_ok_iff.2 (size?_eq_some hpos hfits)

/-! ## Indices -/

variable {shape : Shape}

theorem length_index (shape : Shape) (p : Nat) : (shape.index p).length = shape.length := by
  induction shape with
  | nil => rfl
  | cons d shape ih => simp [index, ih]

theorem index_mod (shape : Shape) (p : Nat) : shape.index (p % size shape) = shape.index p := by
  suffices ∀ n, shape.index (p % (size shape * n)) = shape.index p by simpa using this 1
  induction shape with
  | nil => intro n; rfl
  | cons d shape ih =>
    intro n
    have hhead : p % (size (d :: shape) * n) / size shape % d = p / size shape % d := by
      rw [size_cons, Nat.mul_comm d, Nat.mul_assoc, Nat.mod_mul_right_div_self,
        Nat.mod_mul_right_mod]
    have htail : index shape (p % (size (d :: shape) * n)) = index shape p := by
      rw [size_cons, Nat.mul_comm d, Nat.mul_assoc]
      exact ih (d * n)
    rw [index, hhead, htail, index]

theorem inBounds_index {p : Nat} (h : p < size shape) : InBounds (shape.index p) shape := by
  have hpos : size shape ≠ 0 := by omega
  rw [size_ne_zero_iff] at hpos
  clear h
  induction shape with
  | nil => exact .nil
  | cons d shape ih =>
    exact .cons (Nat.mod_lt _ (Nat.pos_of_ne_zero (hpos d (.head _))))
      (ih fun e he => hpos e (.tail _ he))

/-- A position is that of its indices. -/
theorem position_index {p : Nat} (h : p < size shape) : shape.position (shape.index p) = p := by
  induction shape generalizing p with
  | nil =>
    rw [size_nil] at h
    simp [position]
    omega
  | cons d shape ih =>
    rw [size_cons] at h
    have hsize : 0 < size shape := Nat.pos_of_ne_zero fun h0 => by simp [h0] at h
    have hdiv : p / size shape < d := (Nat.div_lt_iff_lt_mul hsize).2 h
    rw [index, position, Nat.mod_eq_of_lt hdiv, ← index_mod shape p, ih (Nat.mod_lt _ hsize)]
    exact Nat.div_add_mod' p (size shape)

theorem position_lt {is : List Nat} (h : InBounds is shape) : shape.position is < size shape := by
  induction h with
  | nil => simp [position, size_nil]
  | @cons i d is shape hi _ ih =>
    rw [position, size_cons]
    calc i * size shape + position shape is
        < i * size shape + size shape := Nat.add_lt_add_left ih _
      _ = (i + 1) * size shape := (Nat.succ_mul _ _).symm
      _ ≤ d * size shape := Nat.mul_le_mul_right _ hi

/-- Indices are those of their position. -/
theorem index_position {is : List Nat} (h : InBounds is shape) :
    shape.index (shape.position is) = is := by
  induction h with
  | nil => rfl
  | @cons i d is shape hi hrest ih =>
    have hlt := position_lt hrest
    have hsize : 0 < size shape := by omega
    have hhead : (i * size shape + position shape is) / size shape % d = i := by
      rw [Nat.mul_comm, Nat.mul_add_div hsize, Nat.div_eq_of_lt hlt, Nat.add_zero,
        Nat.mod_eq_of_lt hi]
    have htail : index shape (i * size shape + position shape is) = is := by
      rw [← index_mod, Nat.mul_add_mod_self_right, index_mod]
      exact ih
    rw [position, index, hhead, htail]

/-! ## Strides -/

theorem dot_nil_left (strides : List Nat) : dot [] strides = 0 := rfl

theorem dot_nil_right (is : List Nat) : dot is [] = 0 := by
  cases is <;> rfl

theorem dot_cons (i s : Nat) (is strides : List Nat) :
    dot (i :: is) (s :: strides) = i * s + dot is strides := rfl

/-- Step between neighbours along a dimension added in front. -/
def outerStep (shape : Shape) : Nat :=
  (shape.foldr (fun d (strides, step) => (step :: strides, min (step * max d 1) maxSize))
    (([] : List Nat), 1)).2

theorem contiguousStrides_cons (d : Nat) (shape : Shape) :
    contiguousStrides (d :: shape) = outerStep shape :: contiguousStrides shape := rfl

theorem length_contiguousStrides (shape : Shape) :
    shape.contiguousStrides.length = shape.length := by
  induction shape with
  | nil => rfl
  | cons d shape ih => rw [contiguousStrides_cons, List.length_cons, ih, List.length_cons]

theorem outerStep_eq_size (hpos : size shape ≠ 0) (hfits : size shape ≤ maxSize) :
    outerStep shape = size shape := by
  induction shape with
  | nil => rfl
  | cons d shape ih =>
    rw [size_cons] at hpos hfits ⊢
    have hd : d ≠ 0 := fun h => hpos (by rw [h, Nat.zero_mul])
    have hrest : size shape ≠ 0 := fun h => hpos (by rw [h, Nat.mul_zero])
    have hle : size shape ≤ d * size shape := Nat.le_mul_of_pos_left _ (Nat.pos_of_ne_zero hd)
    have hstep : outerStep (d :: shape) = min (outerStep shape * max d 1) maxSize := rfl
    rw [hstep, ih hrest (Nat.le_trans hle hfits), Nat.max_eq_left (Nat.pos_of_ne_zero hd),
      Nat.mul_comm, Nat.min_eq_left hfits]

/-- The strides of a contiguous array place each element at its position. -/
theorem dot_contiguousStrides (hpos : size shape ≠ 0) (hfits : size shape ≤ maxSize)
    (is : List Nat) : dot is shape.contiguousStrides = shape.position is := by
  induction shape generalizing is with
  | nil => cases is <;> rfl
  | cons d shape ih =>
    rw [size_cons] at hpos hfits
    have hd : d ≠ 0 := fun h => hpos (by rw [h, Nat.zero_mul])
    have hrest : size shape ≠ 0 := fun h => hpos (by rw [h, Nat.mul_zero])
    have hle : size shape ≤ maxSize :=
      Nat.le_trans (Nat.le_mul_of_pos_left _ (Nat.pos_of_ne_zero hd)) hfits
    cases is with
    | nil => rfl
    | cons i is =>
      rw [contiguousStrides_cons, dot_cons, outerStep_eq_size hrest hle, ih hrest hle, position]

/-- One dimension taken out of a placement. -/
theorem dot_insertIdx {is strides : List Nat} {axis m : Nat} (haxis : axis < strides.length)
    (hlen : axis ≤ is.length) :
    dot (is.insertIdx axis m) strides
      = dot is (strides.eraseIdx axis) + m * strides.getD axis 0 := by
  induction axis generalizing is strides with
  | zero =>
    cases strides with
    | nil => cases haxis
    | cons s strides => simp [dot_cons, Nat.add_comm]
  | succ axis ih =>
    cases strides with
    | nil => cases haxis
    | cons s strides =>
      cases is with
      | nil => cases hlen
      | cons i is =>
        rw [List.insertIdx_succ_cons, List.eraseIdx_cons_succ, dot_cons, dot_cons,
          ih (Nat.lt_of_succ_lt_succ haxis) (Nat.le_of_succ_le_succ hlen)]
        simp [Nat.add_assoc]

end Shape

end Lanewise
