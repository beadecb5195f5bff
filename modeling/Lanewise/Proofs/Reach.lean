import Lanewise.Proofs.Broadcast
import Lanewise.Proofs.Offsets

/-!
# How far an odometer reaches

An index that reaches its extent is counted in full before it goes back, so an
odometer adds up to more than the offsets that it lists. Where no stride leads past
the element behind those that the dimensions further in span, it does not add up to
more than one element behind the last (`raised_le`). The strides that read an array
over a common shape are such (`Shape.dense_broadcastStrides?`).
-/

namespace Lanewise

namespace Strided

/-- The largest displacement along dimensions. -/
def span : (dims : List (Nat × Nat)) → Nat
  | [] => 0
  | (extent, stride) :: rest => (extent - 1) * stride + span rest

/-- No stride leads past the element behind those that the dimensions further in
span, give or take some slack. -/
def Dense : (slack : Nat) → (dims : List (Nat × Nat)) → Prop
  | _, [] => True
  | slack, (extent, stride) :: rest =>
    stride ≤ slack + 1 ∧ Dense (slack + (extent - 1) * stride) rest

theorem span_cons (extent stride : Nat) (dims : List (Nat × Nat)) :
    span ((extent, stride) :: dims) = (extent - 1) * stride + span dims :=
  rfl

theorem span_append (xs ys : List (Nat × Nat)) : span (xs ++ ys) = span xs + span ys := by
  induction xs with
  | nil => exact (Nat.zero_add _).symm
  | cons x xs ih => rw [List.cons_append, span_cons, ih, span_cons, Nat.add_assoc]

theorem span_reverse (dims : List (Nat × Nat)) : span dims.reverse = span dims := by
  induction dims with
  | nil => rfl
  | cons x rest ih => rw [List.reverse_cons, span_append, ih, Nat.add_comm]; rfl

theorem span_eq_zero {dims : List (Nat × Nat)} (h : ∀ x ∈ dims, x.2 = 0) : span dims = 0 := by
  induction dims with
  | nil => rfl
  | cons x rest ih =>
    rw [span_cons, h x (.head _), Nat.mul_zero, ih fun y hy => h y (.tail _ hy)]

theorem span_eraseIdx {dims : List (Nat × Nat)} {i : Nat} (h : i < dims.length) :
    (dims[i].1 - 1) * dims[i].2 + span (dims.eraseIdx i) = span dims := by
  induction dims generalizing i with
  | nil => cases h
  | cons x rest ih =>
    cases i with
    | zero => rfl
    | succ i =>
      have hrest := ih (Nat.lt_of_succ_lt_succ h)
      rw [List.getElem_cons_succ, List.eraseIdx_cons_succ, span_cons, span_cons, ← hrest,
        Nat.add_left_comm]

theorem dense_append {slack : Nat} {xs ys : List (Nat × Nat)} :
    Dense slack (xs ++ ys) ↔ Dense slack xs ∧ Dense (slack + span xs) ys := by
  induction xs generalizing slack with
  | nil => simp [Dense, span]
  | cons x xs ih =>
    obtain ⟨extent, stride⟩ := x
    rw [List.cons_append, Dense, Dense, ih, span_cons, Nat.add_assoc, and_assoc]

/-- Any strides are dense with enough slack. -/
theorem dense_of_le {slack : Nat} {dims : List (Nat × Nat)} (h : ∀ x ∈ dims, x.2 ≤ slack + 1) :
    Dense slack dims := by
  induction dims generalizing slack with
  | nil => trivial
  | cons x rest ih =>
    refine ⟨h x (.head _), ih fun y hy => ?_⟩
    have := h y (.tail _ hy)
    omega

theorem Dense.stride_le {slack : Nat} {dims : List (Nat × Nat)} (h : Dense slack dims) :
    ∀ x ∈ dims, x.2 ≤ slack + span dims + 1 := by
  induction dims generalizing slack with
  | nil => simp
  | cons y rest ih =>
    obtain ⟨extent, stride⟩ := y
    rw [span_cons, List.forall_mem_cons]
    obtain ⟨hhead, hrest⟩ := h
    refine ⟨by omega, fun x hx => ?_⟩
    have := ih hrest x hx
    omega

theorem displacement_le_span {dims : List (Nat × Nat)} (h : ∀ x ∈ dims, x.1 ≠ 0) (p : Nat) :
    displacement dims p ≤ span dims := by
  induction dims generalizing p with
  | nil => exact Nat.le_refl _
  | cons x rest ih =>
    obtain ⟨extent, stride⟩ := x
    have hx : extent ≠ 0 := h (extent, stride) (.head _)
    have hlt := Nat.mod_lt p (Nat.pos_of_ne_zero hx)
    rw [displacement_cons hx, span_cons]
    exact Nat.add_le_add (Nat.mul_le_mul_right _ (by omega)) (ih (fun y hy => h y (.tail _ hy)) _)

/-- The odometer adds up to no more than one element behind the largest
displacement, and the slack. -/
theorem Dense.raised_le {slack : Nat} {dims : List (Nat × Nat)} (h : Dense slack dims)
    (hpos : ∀ x ∈ dims, x.1 ≠ 0) {p : Nat} :
    ∀ n ∈ raised dims p, n ≤ slack + span dims + 1 := by
  induction dims generalizing slack p with
  | nil => simp [raised]
  | cons x rest ih =>
    obtain ⟨extent, stride⟩ := x
    obtain ⟨hstride, hrest⟩ := h
    have hx : extent ≠ 0 := hpos (extent, stride) (.head _)
    have hpos' : ∀ y ∈ rest, y.1 ≠ 0 := fun y hy => hpos y (.tail _ hy)
    have hlt := Nat.mod_lt p (Nat.pos_of_ne_zero hx)
    have hraised : (p % extent + 1) * stride ≤ (extent - 1) * stride + stride := by
      rw [← Nat.succ_mul]
      exact Nat.mul_le_mul_right _ (by omega)
    have hfurther := displacement_le_span hpos' (p / extent)
    rw [raised, span_cons, List.forall_mem_cons]
    refine ⟨by omega, ?_⟩
    split
    · simp
    · intro n hn
      have := ih hrest hpos' n hn
      omega

end Strided

namespace Shape

open Strided (Dense span)

/-- Strides that read an array along dimensions that it has in common with a target
span its elements. -/
theorem dense_alignStrides? {shape : Shape} {target strides : List Nat}
    (h : alignStrides? shape shape.contiguousStrides target = some strides)
    (hpos : size shape ≠ 0) (hfits : size shape ≤ maxSize) :
    Dense 0 (target.zip strides).reverse ∧ span (target.zip strides) + 1 = size shape := by
  induction shape generalizing target strides with
  | nil =>
    change alignStrides? [] [] target = some strides at h
    cases target <;> simp [alignStrides?] at h
    subst h
    exact ⟨trivial, by rw [size_nil]; rfl⟩
  | cons d shape ih =>
    cases target with
    | nil => simp [alignStrides?] at h
    | cons t target =>
      rw [contiguousStrides_cons, alignStrides?] at h
      obtain ⟨stride, hstride, h⟩ := Option.bind_eq_some_iff.1 h
      obtain ⟨rest, hrest, heq⟩ := Option.bind_eq_some_iff.1 h
      cases heq
      rw [size_cons] at hpos hfits ⊢
      obtain ⟨hd, hshape⟩ := Nat.mul_ne_zero_iff.1 hpos
      have hle : size shape ≤ maxSize :=
        Nat.le_trans (Nat.le_mul_of_pos_left _ (Nat.pos_of_ne_zero hd)) hfits
      obtain ⟨hdense, hspan⟩ := ih hrest hshape hle
      -- a dimension that is repeated has the stride 0
      have hhead : stride ≤ size shape ∧ (t - 1) * stride + size shape = d * size shape := by
        rw [outerStep_eq_size hshape hle] at hstride
        unfold alignStride? at hstride
        split at hstride
        · next hdt =>
          subst hdt
          cases hstride
          split
          · next hone => simp [hone]
          · refine ⟨Nat.le_refl _, ?_⟩
            rw [← Nat.succ_mul, Nat.succ_eq_add_one, Nat.sub_add_cancel (by omega)]
        · split at hstride
          · next hone =>
            cases hstride
            simp [hone]
          · cases hstride
      rw [List.zip_cons_cons, List.reverse_cons, Strided.dense_append, Strided.span_reverse,
        Strided.span_cons]
      refine ⟨⟨hdense, ?_, trivial⟩, ?_⟩ <;> omega

theorem dense_broadcastStrides? {shape target : Shape} {strides : List Nat}
    (h : shape.broadcastStrides? shape.contiguousStrides target = some strides)
    (hpos : size shape ≠ 0) (hfits : size shape ≤ maxSize) :
    Dense 0 (target.zip strides).reverse ∧ span (target.zip strides) + 1 = size shape := by
  unfold broadcastStrides? at h
  split at h
  swap
  · cases h
  obtain ⟨aligned, haligned, rfl⟩ := Option.map_eq_some_iff.1 h
  obtain ⟨hdense, hspan⟩ := dense_alignStrides? haligned hpos hfits
  have hzeros : ∀ x ∈ (target.take (target.length - shape.length)).zip
      (List.replicate (target.length - shape.length) 0), x.2 = 0 := fun x hx =>
    (List.mem_replicate.1 (List.of_mem_zip hx).2).2
  have hspanZeros : span ((target.take (target.length - shape.length)).zip
      (List.replicate (target.length - shape.length) 0)) = 0 :=
    Strided.span_eq_zero hzeros
  have hsplit : target.zip (List.replicate (target.length - shape.length) 0 ++ aligned)
      = (target.take (target.length - shape.length)).zip
          (List.replicate (target.length - shape.length) 0)
        ++ (target.drop (target.length - shape.length)).zip aligned := by
    rw [← List.zip_append (by rw [List.length_take, List.length_replicate]; omega),
      List.take_append_drop]
  rw [hsplit, List.reverse_append, Strided.dense_append, Strided.span_append, hspanZeros]
  refine ⟨⟨hdense, Strided.dense_of_le fun x hx => ?_⟩, by rwa [Nat.zero_add]⟩
  rw [hzeros x (List.mem_reverse.1 hx)]
  exact Nat.zero_le _

end Shape

end Lanewise
