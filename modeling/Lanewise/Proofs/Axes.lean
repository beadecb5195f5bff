import Mathlib.Data.List.InsertIdx
import Lanewise.Proofs.Checks

/-!
# Shapes with an axis taken out

A position of a shape is a group, which is a position without the axis, and a
place along the axis (`Shape.along`). Strides over the groups and along the axis
lead to the same elements as those over the whole shape.
-/

namespace Lanewise

open Shape (size maxSize)

/-- The position with the indices of a group, and `m` along the axis. -/
def Shape.along (shape : Shape) (axis group m : Nat) : Nat :=
  shape.position ((index (shape.eraseIdx axis) group).insertIdx axis m)

theorem Shape.inBounds_insertIdx {shape : Shape} {axis m : Nat} (haxis : axis < shape.length)
    {is : List Nat} (his : InBounds is (shape.eraseIdx axis)) (hm : m < shape[axis]) :
    InBounds (is.insertIdx axis m) shape := by
  induction shape generalizing axis is with
  | nil => cases haxis
  | cons d shape ih =>
    cases axis with
    | zero => exact .cons hm his
    | succ axis =>
      cases his with
      | cons hi his =>
        rw [List.insertIdx_succ_cons]
        exact .cons hi (ih (Nat.lt_of_succ_lt_succ haxis) his hm)

section Axis

variable {shape : Shape} {axis group m : Nat}

theorem Shape.inBounds_along (haxis : axis < shape.length)
    (hgroup : group < size (shape.eraseIdx axis)) (hm : m < shape[axis]) :
    InBounds ((index (shape.eraseIdx axis) group).insertIdx axis m) shape :=
  inBounds_insertIdx haxis (inBounds_index hgroup) hm

theorem Shape.length_eraseIdx {s : List Nat} (h : s.length = shape.length) :
    (s.eraseIdx axis).length = (shape.eraseIdx axis).length := by
  rw [List.length_eraseIdx, List.length_eraseIdx, h]

theorem Shape.axis_le_length_index (haxis : axis < shape.length) :
    axis ≤ (index (shape.eraseIdx axis) group).length := by
  rw [length_index, List.length_eraseIdx_of_lt haxis]
  omega

theorem Shape.along_lt (haxis : axis < shape.length)
    (hgroup : group < size (shape.eraseIdx axis)) (hm : m < shape[axis]) :
    shape.along axis group m < size shape :=
  position_lt (inBounds_along haxis hgroup hm)

theorem Shape.size_groups (hpos : size shape ≠ 0) (hfits : size shape ≤ maxSize)
    (haxis : axis < shape.length) :
    shape[axis] ≠ 0 ∧ shape[axis] ≤ maxSize ∧ size (shape.eraseIdx axis) ≠ 0 ∧
      size (shape.eraseIdx axis) ≤ maxSize := by
  rw [size_eraseIdx haxis] at hpos hfits
  have hd : shape[axis] ≠ 0 := fun h => hpos (by rw [h, Nat.zero_mul])
  have hgroups : size (shape.eraseIdx axis) ≠ 0 := fun h => hpos (by rw [h, Nat.mul_zero])
  exact ⟨hd, Nat.le_trans (Nat.le_mul_of_pos_right _ (Nat.pos_of_ne_zero hgroups)) hfits, hgroups,
    Nat.le_trans (Nat.le_mul_of_pos_left _ (Nat.pos_of_ne_zero hd)) hfits⟩

/-- A dimension without elements counts as one with a single element. -/
theorem Shape.size_occupied (haxis : axis < shape.length)
    (hgroups : size (shape.eraseIdx axis) ≠ 0) :
    size (occupied shape) = max shape[axis] 1 * size (shape.eraseIdx axis) := by
  have hrest : occupied (shape.eraseIdx axis) = shape.eraseIdx axis :=
    (List.map_congr_left fun d hd => Nat.max_eq_left
      (Nat.pos_of_ne_zero (size_ne_zero_iff.1 hgroups d hd))).trans (List.map_id _)
  have hlt : axis < (occupied shape).length := by rwa [occupied, List.length_map]
  rw [size_eraseIdx hlt]
  simp only [occupied, List.getElem_map, List.eraseIdx_map] at hrest ⊢
  rw [hrest]

theorem Shape.inBounds_occupied (haxis : axis < shape.length)
    (hgroup : group < size (shape.eraseIdx axis)) :
    InBounds ((index (shape.eraseIdx axis) group).insertIdx axis 0) (occupied shape) := by
  have hlt : axis < (occupied shape).length := by rwa [occupied, List.length_map]
  refine inBounds_insertIdx hlt ?_ ?_
  · simp only [occupied, List.eraseIdx_map, List.forall₂_map_right_iff]
    exact (inBounds_index hgroup).imp fun _ _ h => Nat.lt_of_lt_of_le h (Nat.le_max_left _ _)
  · simp only [occupied, List.getElem_map]
    omega

/-! ## One dimension -/

theorem Shape.size_singleton (d : Nat) : size [d] = d := by
  rw [size_cons, size_nil, Nat.mul_one]

theorem Shape.index_singleton {d p : Nat} (hp : p < d) : index [d] p = [p] := by
  simp [index, size_nil, Nat.mod_eq_of_lt hp]

/-- With one dimension, the positions of the only group are all there are. -/
theorem Shape.along_singleton (d m : Nat) : along [d] 0 0 m = m := by
  simp [along, index, position, size_nil]

/-! ## Strides -/

/-- An axis taken apart, where the output has the shape of the groups. -/
theorem AxisSplit.ofAxis_eq {g : Geometry} (haxis : axis < g.shape.length)
    (hout : g.outputShape = g.shape.eraseIdx axis) (strides : List (List Nat)) :
    ofAxis g axis strides = ⟨g.shape.eraseIdx axis,
      (Shape.contiguousStrides (g.shape.eraseIdx axis)) :: strides.map (·.eraseIdx axis),
      g.shape[axis], 0 :: strides.map (·.getD axis 0)⟩ := by
  rw [ofAxis, hout, List.getD_eq_getElem?_getD, List.getElem?_eq_getElem haxis]
  rfl

/-- An operand along the axis, from a group on. -/
def Strided.alongAxis (shape : Shape) (axis group : Nat) (s : List Nat) : Strided :=
  ⟨offset ⟨0, s.eraseIdx axis⟩ (shape.eraseIdx axis) group, [s.getD axis 0]⟩

/-- An operand over the groups, from a position of the axis on. -/
def Strided.overGroups (axis m : Nat) (s : List Nat) : Strided :=
  ⟨m * s.getD axis 0, s.eraseIdx axis⟩

section Strided

variable {s : List Nat} (hlen : s.length = shape.length) (haxis : axis < shape.length)
  (hgroup : group < size (shape.eraseIdx axis)) (hgroups : size (shape.eraseIdx axis) ≤ maxSize)
include hlen haxis hgroup hgroups

/-- Over the groups, an operand is where its indices lead to. -/
theorem Strided.offset_overGroups_eq_dot : offset (overGroups axis m s) (shape.eraseIdx axis) group
    = Shape.dot ((Shape.index (shape.eraseIdx axis) group).insertIdx axis m) s := by
  rw [overGroups, offset_eq_dot (Shape.length_eraseIdx hlen) hgroups hgroup,
    Shape.dot_insertIdx (by rwa [hlen]) (Shape.axis_le_length_index haxis), Nat.add_comm]

/-- Along the axis, an operand is where its indices lead to. -/
theorem Strided.offset_alongAxis_eq_dot (hm : m < shape[axis]) (hextent : shape[axis] ≤ maxSize) :
    offset (alongAxis shape axis group s) [shape[axis]] m
      = Shape.dot ((Shape.index (shape.eraseIdx axis) group).insertIdx axis m) s := by
  have hbase : offset ⟨0, s.eraseIdx axis⟩ (shape.eraseIdx axis) group
      = Shape.dot (Shape.index (shape.eraseIdx axis) group) (s.eraseIdx axis) := by
    rw [offset_eq_dot (Shape.length_eraseIdx hlen) hgroups hgroup, Nat.zero_add]
  have hlength : (alongAxis shape axis group s).strides.length = [shape[axis]].length := rfl
  have hsize := Shape.size_singleton shape[axis]
  rw [offset_eq_dot hlength (by rwa [hsize]) (by rwa [hsize]), Shape.index_singleton hm,
    Shape.dot_insertIdx (by rwa [hlen]) (Shape.axis_le_length_index haxis), ← hbase]
  rfl

end Strided

variable {o : Operand} {out : NdArray} {s : List Nat}

/-- Indices of a group and along the axis lead to the element of the operand. -/
theorem Operand.ReadBy.dot_along (h : o.ReadBy out shape s) (ha : (o.resolve out).WellFormed)
    (haxis : axis < shape.length) (hgroup : group < size (shape.eraseIdx axis))
    (hm : m < shape[axis]) :
    Shape.dot ((Shape.index (shape.eraseIdx axis) group).insertIdx axis m) s
        = o.position out shape (shape.along axis group m) ∧
      o.position out shape (shape.along axis group m) < (o.resolve out).data.size := by
  obtain ⟨hdot, hlt⟩ := h.dot_eq ha (Shape.inBounds_along haxis hgroup hm)
  exact ⟨hdot, hdot ▸ hlt⟩

theorem Strided.offset_overGroups (h : o.ReadBy out shape s) (ha : (o.resolve out).WellFormed)
    (hfits : size shape ≤ maxSize) (haxis : axis < shape.length)
    (hgroup : group < size (shape.eraseIdx axis)) (hm : m < shape[axis]) :
    offset (overGroups axis m s) (shape.eraseIdx axis) group
        = o.position out shape (shape.along axis group m) ∧
      o.position out shape (shape.along axis group m) < (o.resolve out).data.size := by
  have hpos := Shape.along_lt haxis hgroup hm
  obtain ⟨-, -, -, hgroups⟩ := Shape.size_groups (by omega) hfits haxis
  rw [offset_overGroups_eq_dot h.length haxis hgroup hgroups]
  exact h.dot_along ha haxis hgroup hm

theorem Strided.offset_alongAxis (h : o.ReadBy out shape s) (ha : (o.resolve out).WellFormed)
    (hfits : size shape ≤ maxSize) (haxis : axis < shape.length)
    (hgroup : group < size (shape.eraseIdx axis)) (hm : m < shape[axis]) :
    offset (alongAxis shape axis group s) [shape[axis]] m
        = o.position out shape (shape.along axis group m) ∧
      o.position out shape (shape.along axis group m) < (o.resolve out).data.size := by
  have hpos := Shape.along_lt haxis hgroup hm
  obtain ⟨-, hextent, -, hgroups⟩ := Shape.size_groups (by omega) hfits haxis
  rw [offset_alongAxis_eq_dot h.length haxis hgroup hgroups hm hextent]
  exact h.dot_along ha haxis hgroup hm

/-! ## Blocks in 64 bits -/

/-- Along an axis the odometer never carries: it has come to its end by then. -/
theorem Operand.ReadBy.counts_alongAxis (h : o.ReadBy out shape s)
    (ha : (o.resolve out).WellFormed) (hfits : size shape ≤ maxSize) (haxis : axis < shape.length)
    (hgroup : group < size (shape.eraseIdx axis)) {block : Block} (hblock : 0 < block.len)
    (hstop : block.start + block.len ≤ shape[axis]) :
    (Strided.alongAxis shape axis group s).Counts [shape[axis]] block := by
  obtain ⟨-, hmax⟩ := ha.size_eq
  have hoffset : ∀ m < shape[axis],
      Strided.offset (.alongAxis shape axis group s) [shape[axis]] m < maxSize := by
    intro m hm
    obtain ⟨heq, hlt⟩ := Strided.offset_alongAxis h ha hfits haxis hgroup hm
    rw [heq]
    have := ha.size_eq.1
    omega
  have hpos := Shape.along_lt haxis hgroup (show block.start < shape[axis] by omega)
  obtain ⟨-, hextent, -⟩ := Shape.size_groups (by omega) hfits haxis
  have hlength : (Strided.alongAxis shape axis group s).strides.length = [shape[axis]].length := rfl
  have hextentSize := Shape.size_singleton shape[axis]
  refine Strided.counts hlength (by rwa [hextentSize]) hblock (by rwa [hextentSize])
    (fun k hk => hoffset _ (by omega)) fun hflat k hk n hn => ?_
  have hnext : (block.start + k + 1) % shape[axis] = (block.start + k) % shape[axis] + 1 := by
    rw [Nat.mod_eq_of_lt (by omega), Nat.mod_eq_of_lt (by omega)]
  have hlast := hoffset (block.start + k + 1) (by omega)
  rw [Strided.offset_of_flatStep?_none hflat] at hlast
  simp only [Strided.dims, Strided.alongAxis, List.zip_cons_cons, List.zip_nil_right,
    List.reverse_singleton, Strided.raised, ite_self, List.mem_singleton, Strided.displacement,
    if_neg (show shape[axis] ≠ 0 by omega), hnext] at hn hlast ⊢
  rw [hn]
  exact Shape.lt_uint64_iff.2 (Nat.le_of_lt hlast)

/-- Over the groups the odometer adds up to less than twice the number of elements. -/
theorem Operand.ReadBy.counts_overGroups (h : o.ReadBy out shape s)
    (ha : (o.resolve out).WellFormed) (hmemory : (o.resolve out).data.size < memorySize)
    (hfits : size shape ≤ maxSize) (haxis : axis < shape.length) (hm : m < shape[axis])
    {block : Block} (hblock : 0 < block.len)
    (hstop : block.start + block.len ≤ size (shape.eraseIdx axis)) :
    (Strided.overGroups axis m s).Counts (shape.eraseIdx axis) block := by
  obtain ⟨hsize, hmax⟩ := ha.size_eq
  have hpos := Shape.along_lt haxis (show block.start < size (shape.eraseIdx axis) by omega) hm
  obtain ⟨-, -, hgroups, hgroupsFit⟩ := Shape.size_groups (by omega) hfits haxis
  obtain ⟨hdense, hspan⟩ := Shape.dense_broadcastStrides? h.found
    (Shape.size_ne_zero_of_fits h.fits (by omega)) hmax
  have hlen : s.length = shape.length := h.length
  refine Strided.counts (Shape.length_eraseIdx hlen) hgroupsFit hblock hstop (fun k hk => ?_)
    fun _ k _ n hn => ?_
  · obtain ⟨heq, hlt⟩ := Strided.offset_overGroups h ha hfits haxis
      (show block.start + k < size (shape.eraseIdx axis) by omega) hm
    rw [heq]
    omega
  · have hstride : ∀ x ∈ (shape.zip s).reverse, x.2 ≤ Strided.span (shape.zip s) + 1 := by
      intro x hx
      have := hdense.stride_le x hx
      rwa [Strided.span_reverse, Nat.zero_add] at this
    have hzip := zip_eraseIdx shape s axis hlen
    have hgroupDims : Strided.Dense (Strided.span (shape.zip s))
        (Strided.dims (.overGroups axis m s) (shape.eraseIdx axis)) := by
      refine Strided.dense_of_le fun x hx => hstride x ?_
      rw [Strided.dims, Strided.overGroups, hzip, List.mem_reverse] at hx
      exact List.mem_reverse.2 (List.mem_of_mem_eraseIdx hx)
    have hraised := hgroupDims.raised_le (Strided.dims_ne_zero _ hgroups) n hn
    have hin : axis < (shape.zip s).length := by
      rw [List.length_zip]
      omega
    have hwhole := Strided.span_eraseIdx hin
    rw [← hzip, List.getElem_zip] at hwhole
    rw [Strided.dims, Strided.overGroups, Strided.span_reverse] at hraised
    have hbase : m * s.getD axis 0 ≤ (shape[axis] - 1) * s[axis] := by
      rw [List.getD_eq_getElem?_getD, List.getElem?_eq_getElem (by omega), Option.getD_some]
      exact Nat.mul_le_mul_right _ (by omega)
    rw [Strided.overGroups, Shape.lt_uint64_iff]
    simp only at hwhole hraised ⊢
    have hbits : maxSize = memorySize + memorySize - 1 := rfl
    omega

end Axis

end Lanewise
