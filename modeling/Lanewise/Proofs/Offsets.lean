import Lanewise.Iteration
import Lanewise.Proofs.Shape

/-!
# Offsets of operands

Wherever an iteration finds the offsets of a block quickly, it finds the same
ones: an even access, a flat step and the odometer all agree with the indices of
each position (`offset_eq_dot`, `of_offsets?`). It finds them where the offsets,
and what the odometer adds up to before it carries, fit 64 bits (`counts`).
-/

namespace Lanewise

namespace Shape

theorem size_reverse (shape : Shape) : size shape.reverse = size shape := by
  induction shape with
  | nil => rfl
  | cons d shape ih =>
    rw [List.reverse_cons, size_append, ih, size_cons, size_cons, size_nil, Nat.mul_one,
      Nat.mul_comm]

/-- Strides that are a multiple of others wherever an index can be other than 0. -/
theorem dot_eq_mul {shape is ss cs : List Nat} {step : Nat} (his : InBounds is shape)
    (hss : ss.length = shape.length) (hcs : cs.length = shape.length)
    (h : ∀ x ∈ shape.zip (ss.zip cs), 1 < x.1 → x.2.1 = step * x.2.2) :
    dot is ss = step * dot is cs := by
  induction his generalizing ss cs with
  | nil => rw [dot_nil_left, dot_nil_left, Nat.mul_zero]
  | @cons i d is shape hi _ ih =>
    cases ss with
    | nil => cases hss
    | cons s ss =>
      cases cs with
      | nil => cases hcs
      | cons c cs =>
        have hhead : i * s = step * (i * c) := by
          by_cases hd : 1 < d
          · have hs : s = step * c := h (d, s, c) (.head _) hd
            rw [hs, Nat.mul_left_comm]
          · have : i = 0 := by omega
            rw [this, Nat.zero_mul, Nat.zero_mul, Nat.mul_zero]
        rw [dot_cons, dot_cons, Nat.mul_add, hhead,
          ih (Nat.succ.inj hss) (Nat.succ.inj hcs) fun x hx => h x (.tail _ hx)]

end Shape

namespace Strided

open Shape (dot index size maxSize)

/-- A step that stays within a row of `n`. -/
theorem add_within_row {p k n : Nat} (h : p % n + k < n) :
    (p + k) % n = p % n + k ∧ (p + k) / n = p / n := by
  refine ((Nat.div_mod_unique (by omega)).2 ⟨?_, h⟩).symm
  rw [Nat.add_right_comm, Nat.mod_add_div]

/-! ## Displacements -/

/-- Offset of a position from the base: each of its indices times the stride. A
dimension without extent ends the sum. -/
def displacement : (dims : List (Nat × Nat)) → (position : Nat) → Nat
  | [], _ => 0
  | (extent, stride) :: rest, position =>
    if extent = 0 then 0
    else position % extent * stride + displacement rest (position / extent)

/-- Offset of the element at a position, whatever number that is. -/
def offset (op : Strided) (shape : Shape) (position : Nat) : Nat :=
  match op.flatStep? shape with
  | some step => op.base + position * step
  | none => op.base + displacement (op.dims shape) position

theorem displacement_cons {extent stride : Nat} {rest : List (Nat × Nat)} (h : extent ≠ 0)
    (p : Nat) : displacement ((extent, stride) :: rest) p
      = p % extent * stride + displacement rest (p / extent) := by
  rw [displacement, if_neg h]

theorem displacement_append {xs ys : List (Nat × Nat)} (h : ∀ x ∈ xs, x.1 ≠ 0) (p : Nat) :
    displacement (xs ++ ys) p
      = displacement xs p + displacement ys (p / size (xs.map Prod.fst)) := by
  induction xs generalizing p with
  | nil => simp [displacement, Shape.size_nil]
  | cons x xs ih =>
    obtain ⟨extent, stride⟩ := x
    have hx : extent ≠ 0 := h (extent, stride) (.head _)
    rw [List.cons_append, displacement_cons hx, displacement_cons hx,
      ih (fun y hy => h y (.tail _ hy)), List.map_cons, Shape.size_cons, Nat.div_div_eq_div_mul,
      Nat.add_assoc]

/-- The displacement is that of the indices. -/
theorem displacement_dims {op : Strided} {shape : Shape} (hpos : size shape ≠ 0)
    (hlen : op.strides.length = shape.length) (p : Nat) :
    displacement (op.dims shape) p = dot (index shape p) op.strides := by
  obtain ⟨base, strides⟩ := op
  simp only [dims] at hlen ⊢
  rw [Shape.size_ne_zero_iff] at hpos
  induction shape generalizing strides with
  | nil => cases strides <;> rfl
  | cons d shape ih =>
    cases strides with
    | nil => cases hlen
    | cons s strides =>
      have hlen : strides.length = shape.length := Nat.succ.inj hlen
      have hrest : ∀ x ∈ (shape.zip strides).reverse, x.1 ≠ 0 := by
        intro x hx
        exact hpos x.1 (.tail _ (List.of_mem_zip (List.mem_reverse.1 hx)).1)
      have hfst : (shape.zip strides).reverse.map Prod.fst = shape.reverse := by
        rw [List.map_reverse, List.map_fst_zip (Nat.le_of_eq hlen.symm)]
      rw [List.zip_cons_cons, List.reverse_cons, displacement_append hrest, hfst,
        Shape.size_reverse, displacement_cons (hpos d (.head _)), displacement, Nat.add_zero,
        ih (fun e he => hpos e (.tail _ he)) strides hlen, index, Shape.dot_cons, Nat.add_comm]

/-! ## Offsets -/

theorem offset_of_flatStep? {op : Strided} {shape : Shape} {step : Nat}
    (h : op.flatStep? shape = some step) (p : Nat) : op.offset shape p = op.base + p * step := by
  rw [offset, h]

theorem offset_of_flatStep?_none {op : Strided} {shape : Shape}
    (h : op.flatStep? shape = none) (p : Nat) :
    op.offset shape p = op.base + displacement (op.dims shape) p := by
  rw [offset, h]

/-- A flat step is what the strides amount to at every position. -/
theorem dot_of_flatStep? {op : Strided} {shape : Shape} {step : Nat}
    (h : op.flatStep? shape = some step) (hlen : op.strides.length = shape.length)
    (hfits : size shape ≤ maxSize) {p : Nat} (hp : p < size shape) :
    dot (index shape p) op.strides = p * step := by
  have hmoving : ∀ x ∈ shape.zip (op.strides.zip shape.contiguousStrides), 1 < x.1 →
      x.2.1 = step * x.2.2 := by
    intro x hx hd
    have hmem : x ∈ (shape.zip (op.strides.zip shape.contiguousStrides)).filter
        fun y => decide (1 < y.1) := List.mem_filter.2 ⟨hx, by simpa using hd⟩
    simp only [flatStep?] at h
    split at h
    · next hall =>
      cases h
      simpa using List.all_eq_true.1 hall x hmem
    · split at h
      · next hall =>
        cases h
        simpa using List.all_eq_true.1 hall x hmem
      · cases h
  rw [Shape.dot_eq_mul (Shape.inBounds_index hp) hlen shape.length_contiguousStrides hmoving,
    Shape.dot_contiguousStrides (by omega) hfits, Shape.position_index hp, Nat.mul_comm]

/-- The offset of a position is that of its indices. -/
theorem offset_eq_dot {op : Strided} {shape : Shape} (hlen : op.strides.length = shape.length)
    (hfits : size shape ≤ maxSize) {p : Nat} (hp : p < size shape) :
    op.offset shape p = op.base + dot (index shape p) op.strides := by
  cases h : op.flatStep? shape with
  | some step => rw [offset_of_flatStep? h, dot_of_flatStep? h hlen hfits hp]
  | none => rw [offset_of_flatStep?_none h, displacement_dims (by omega) hlen]

/-! ## Offsets in 64 bits -/

theorem displace?_eq_some {dims : List (Nat × Nat)} {p offset : Nat}
    (h : offset + displacement dims p < UInt64.size) :
    displace? dims p offset = some (offset + displacement dims p) := by
  induction dims generalizing p offset with
  | nil => rfl
  | cons x rest ih =>
    obtain ⟨extent, stride⟩ := x
    rw [displace?]
    rw [displacement] at h ⊢
    split
    · rfl
    · next hextent =>
      rw [if_neg hextent, ← Nat.add_assoc] at h
      rw [checkedProduct_eq_some (by omega), Option.bind_eq_bind, Option.bind_some,
        checkedSum_eq_some (by omega), Option.bind_some, ih h, Nat.add_assoc]

theorem of_displace? {dims : List (Nat × Nat)} {p offset n : Nat}
    (h : displace? dims p offset = some n) : offset + displacement dims p = n := by
  induction dims generalizing p offset with
  | nil => exact Option.some.inj h
  | cons x rest ih =>
    obtain ⟨extent, stride⟩ := x
    rw [displace?] at h
    rw [displacement]
    split at h
    · next hextent =>
      rw [if_pos hextent]
      exact Option.some.inj h
    · next hextent =>
      obtain ⟨_, hpart, h⟩ := Option.bind_eq_some_iff.1 h
      obtain ⟨_, hsum, h⟩ := Option.bind_eq_some_iff.1 h
      obtain ⟨-, rfl⟩ := checkedProduct_eq_some_iff.1 hpart
      obtain ⟨-, rfl⟩ := checkedSum_eq_some_iff.1 hsum
      rw [if_neg hextent, ← ih h, Nat.add_assoc]

/-- An offset of 64 bits is found. -/
theorem offset?_eq_some {op : Strided} {shape : Shape} {p : Nat}
    (h : op.offset shape p < UInt64.size) : op.offset? shape p = some (op.offset shape p) := by
  unfold offset?
  cases hflat : op.flatStep? shape with
  | some step =>
    rw [offset_of_flatStep? hflat] at h ⊢
    simp only
    rw [checkedProduct_eq_some (by omega), Option.bind_eq_bind, Option.bind_some,
      checkedSum_eq_some h]
  | none =>
    rw [offset_of_flatStep?_none hflat] at h ⊢
    exact displace?_eq_some h

theorem of_offset? {op : Strided} {shape : Shape} {p n : Nat} (h : op.offset? shape p = some n) :
    op.offset shape p = n := by
  unfold offset? at h
  cases hflat : op.flatStep? shape with
  | some step =>
    simp only [hflat] at h
    obtain ⟨_, hpart, hsum⟩ := Option.bind_eq_some_iff.1 h
    obtain ⟨-, rfl⟩ := checkedProduct_eq_some_iff.1 hpart
    obtain ⟨-, rfl⟩ := checkedSum_eq_some_iff.1 hsum
    exact offset_of_flatStep? hflat p
  | none =>
    simp only [hflat] at h
    rw [offset_of_flatStep?_none hflat]
    exact of_displace? h

/-- How the elements lie is told where the first offset fits 64 bits. -/
theorem exists_access? {op : Strided} {shape : Shape} {block : Block}
    (hoffset : op.offset shape block.start < UInt64.size)
    (hstop : block.start + block.len < UInt64.size) :
    ∃ access, op.access? shape block = some access := by
  unfold access?
  cases hflat : op.flatStep? shape with
  | some step =>
    rw [offset_of_flatStep? hflat] at hoffset
    simp only
    rw [checkedProduct_eq_some (by omega), Option.bind_eq_bind, Option.bind_some,
      checkedSum_eq_some hoffset]
    exact ⟨_, rfl⟩
  | none =>
    simp only
    split
    · split
      · next inner step _ _ _ =>
        have := Nat.mod_le block.start inner
        rw [checkedSum_eq_some (by omega), Option.bind_eq_bind, Option.bind_some,
          offset?_eq_some hoffset]
        split <;> exact ⟨_, rfl⟩
      · exact ⟨_, rfl⟩
    · exact ⟨_, rfl⟩

/-- A block of an operand that moves by one step over the whole shape is even. -/
theorem of_access?_of_flatStep? {op : Strided} {shape : Shape} {block : Block} {access : Access}
    {step : Nat} (hflat : op.flatStep? shape = some step)
    (h : op.access? shape block = some access) :
    access = .even (op.base + block.start * step) step := by
  simp only [access?, hflat] at h
  obtain ⟨_, hpart, h⟩ := Option.bind_eq_some_iff.1 h
  obtain ⟨_, hsum, h⟩ := Option.bind_eq_some_iff.1 h
  obtain ⟨-, rfl⟩ := checkedProduct_eq_some_iff.1 hpart
  obtain ⟨-, rfl⟩ := checkedSum_eq_some_iff.1 hsum
  exact (Option.some.inj h).symm

/-! ## The odometer -/

/-- What an odometer adds up to as it moves on from a position: each index that it
raises, with those further out as they are. An index that reaches its extent is
counted in full before it goes back. -/
def raised : (dims : List (Nat × Nat)) → (position : Nat) → List Nat
  | [], _ => []
  | (extent, stride) :: rest, p =>
    ((p % extent + 1) * stride + displacement rest (p / extent)) ::
      if p % extent + 1 < extent then [] else raised rest (p / extent)

/-- What the odometer holds before an index goes back to 0 has in it what the index has
put there. -/
theorem raised_back (base p extent stride rest : Nat) :
    base + ((p % extent + 1) * stride + rest) - (p % extent + 1) * stride = base + rest := by
  omega

/-- The odometer moves on to the next position where the sums on the way fit 64 bits.
It takes off no more than there is. -/
theorem advance?_indices {dims : List (Nat × Nat)} (h : ∀ x ∈ dims, x.1 ≠ 0) {base p : Nat}
    (hraised : ∀ n ∈ raised dims p, base + n < UInt64.size) :
    advance? (indices dims p) (base + displacement dims p)
      = some (indices dims (p + 1), base + displacement dims (p + 1)) := by
  induction dims generalizing p with
  | nil => rfl
  | cons x rest ih =>
    obtain ⟨extent, stride⟩ := x
    have hx : extent ≠ 0 := h (extent, stride) (.head _)
    have hmax : max extent 1 = extent := Nat.max_eq_left (Nat.pos_of_ne_zero hx)
    have hdiv := Nat.div_add_mod p extent
    have hlt := Nat.mod_lt p (Nat.pos_of_ne_zero hx)
    rw [raised, List.forall_mem_cons] at hraised
    obtain ⟨hsum, hraised⟩ := hraised
    have hheld : base + (p % extent * stride + displacement rest (p / extent)) + stride
        = base + ((p % extent + 1) * stride + displacement rest (p / extent)) := by
      rw [Nat.add_mul, Nat.one_mul]
      omega
    rw [displacement_cons hx, displacement_cons hx, indices, indices, hmax, advance?,
      checkedSum_eq_some (hheld ▸ hsum), Option.bind_eq_bind, Option.bind_some, hheld]
    split
    · next hroom =>
      -- the innermost index goes up
      obtain ⟨hmod, hquot⟩ := add_within_row hroom
      rw [hmod, hquot]
      rfl
    · next hfull =>
      -- it carries
      have hdvd : extent ∣ p + 1 := ⟨p / extent + 1, by rw [Nat.mul_add, Nat.mul_one]; omega⟩
      have hquot : (p + 1) / extent = p / extent + 1 := by
        rw [Nat.succ_div, if_pos hdvd]
      rw [if_neg hfull] at hraised
      rw [checkedProduct_eq_some (by omega), Option.bind_some, checkedDifference_eq_some (by omega),
        Option.bind_some, raised_back, ih (fun y hy => h y (.tail _ hy)) hraised,
        Nat.mod_eq_zero_of_dvd hdvd, hquot, Nat.zero_mul, Nat.zero_add]
      rfl

theorem lt_of_advance? {dims : List (Nat × Nat)} (h : ∀ x ∈ dims, x.1 ≠ 0) {base p : Nat}
    {next : List (Nat × Nat × Nat) × Nat}
    (hnext : advance? (indices dims p) (base + displacement dims p) = some next) :
    ∀ n ∈ raised dims p, base + n < UInt64.size := by
  induction dims generalizing p next with
  | nil => simp [raised]
  | cons x rest ih =>
    obtain ⟨extent, stride⟩ := x
    have hx : extent ≠ 0 := h (extent, stride) (.head _)
    have hmax : max extent 1 = extent := Nat.max_eq_left (Nat.pos_of_ne_zero hx)
    have hheld : base + (p % extent * stride + displacement rest (p / extent)) + stride
        = base + ((p % extent + 1) * stride + displacement rest (p / extent)) := by
      rw [Nat.add_mul, Nat.one_mul]
      omega
    rw [displacement_cons hx, indices, hmax, advance?] at hnext
    obtain ⟨_, hsum, hnext⟩ := Option.bind_eq_some_iff.1 hnext
    obtain ⟨hfits, rfl⟩ := checkedSum_eq_some_iff.1 hsum
    rw [hheld] at hfits hnext
    rw [raised, List.forall_mem_cons]
    refine ⟨hfits, ?_⟩
    split
    · simp
    · next hfull =>
      rw [if_neg hfull] at hnext
      obtain ⟨_, hback, hnext⟩ := Option.bind_eq_some_iff.1 hnext
      obtain ⟨-, rfl⟩ := checkedProduct_eq_some_iff.1 hback
      obtain ⟨_, hrest, hnext⟩ := Option.bind_eq_some_iff.1 hnext
      obtain ⟨-, rfl⟩ := checkedDifference_eq_some_iff.1 hrest
      obtain ⟨_, hcarried, -⟩ := Option.bind_eq_some_iff.1 hnext
      rw [raised_back] at hcarried
      exact ih (fun y hy => h y (.tail _ hy)) hcarried

/-- The odometer lists the offsets of positions in a row. It moves on from all of
them but the last. -/
theorem odometer?_indices {dims : List (Nat × Nat)} (h : ∀ x ∈ dims, x.1 ≠ 0) {base p len : Nat}
    (hraised : ∀ k, k + 1 < len → ∀ n ∈ raised dims (p + k), base + n < UInt64.size) :
    odometer? (indices dims p) (base + displacement dims p) len
      = some ((List.range len).map fun k => base + displacement dims (p + k)) := by
  induction len generalizing p with
  | zero => rfl
  | succ len ih =>
    cases len with
    | zero => rfl
    | succ len =>
      have hshift : ∀ k, p + 1 + k = p + (k + 1) := fun k => by omega
      have hrest : odometer? (indices dims (p + 1)) (base + displacement dims (p + 1)) (len + 1)
          = some ((List.range (len + 1)).map fun k => base + displacement dims (p + 1 + k)) :=
        ih fun k hk => by
          rw [hshift]
          exact hraised (k + 1) (by omega)
      have hfirst := advance?_indices h (hraised 0 (by omega))
      rw [Nat.add_zero] at hfirst
      rw [odometer?, hfirst, List.range_succ_eq_map]
      simp only [Option.bind_eq_bind, Option.bind_some, hrest, Option.pure_def, List.map_cons,
        List.map_map, Function.comp_def, Nat.succ_eq_add_one, Nat.add_zero, hshift]

theorem lt_of_odometer? {dims : List (Nat × Nat)} (h : ∀ x ∈ dims, x.1 ≠ 0) {base p len : Nat}
    {offsets : List Nat}
    (hoffsets : odometer? (indices dims p) (base + displacement dims p) len = some offsets) :
    ∀ k, k + 1 < len → ∀ n ∈ raised dims (p + k), base + n < UInt64.size := by
  induction len generalizing p offsets with
  | zero => simp
  | succ len ih =>
    cases len with
    | zero => simp
    | succ len =>
      rw [odometer?] at hoffsets
      obtain ⟨next, hnext, hrest⟩ := Option.bind_eq_some_iff.1 hoffsets
      obtain ⟨_, hothers, -⟩ := Option.bind_eq_some_iff.1 hrest
      have hraised := lt_of_advance? h hnext
      obtain rfl := Option.some.inj (hnext.symm.trans (advance?_indices h hraised))
      intro k hk
      cases k with
      | zero => exact hraised
      | succ k =>
        have := ih hothers k (by omega)
        rwa [Nat.add_assoc, Nat.add_comm 1] at this

/-! ## Blocks -/

/-- An even access leads to the offset of each position. -/
theorem offset_of_access? {op : Strided} {shape : Shape} {block : Block} {start step : Nat}
    (h : op.access? shape block = some (.even start step))
    (hlen : op.strides.length = shape.length) {k : Nat} (hk : k < block.len) :
    op.offset shape (block.start + k) = start + k * step := by
  cases hflat : op.flatStep? shape with
  | some flat =>
    cases of_access?_of_flatStep? hflat h
    rw [offset_of_flatStep? hflat, Nat.add_mul, Nat.add_assoc]
  | none =>
    simp only [access?, hflat] at h
    split at h
    · next inner last hinner hstep =>
      by_cases hinner_pos : 0 < inner
      swap
      · rw [if_neg hinner_pos] at h
        cases h
      rw [if_pos hinner_pos] at h
      obtain ⟨_, hstop, h⟩ := Option.bind_eq_some_iff.1 h
      obtain ⟨-, rfl⟩ := checkedSum_eq_some_iff.1 hstop
      split at h
      · next hrow =>
        obtain ⟨first, hfirst, heven⟩ := Option.bind_eq_some_iff.1 h
        cases heven
        obtain ⟨outer, hshape⟩ := List.getLast?_eq_some_iff.1 hinner
        obtain ⟨strides, hstrides⟩ := List.getLast?_eq_some_iff.1 hstep
        have hlen' : outer.length = strides.length := by
          rw [hshape, hstrides, List.length_append, List.length_append] at hlen
          simpa using hlen.symm
        have hdims : op.dims shape = (inner, step) :: (outer.zip strides).reverse := by
          rw [dims, hshape, hstrides, List.zip_append hlen', List.reverse_append]
          rfl
        have hne : inner ≠ 0 := by omega
        obtain ⟨hmod, hquot⟩ := add_within_row (p := block.start) (k := k) (n := inner) (by omega)
        rw [← of_offset? hfirst, offset_of_flatStep?_none hflat, offset_of_flatStep?_none hflat,
          hdims, displacement_cons hne, displacement_cons hne, hmod, hquot, Nat.add_mul]
        omega
      · cases h
    · cases h

/-- Steps of one lead to elements in a row. -/
theorem offset_of_access?_one {op : Strided} {shape : Shape} {block : Block} {start : Nat}
    (h : op.access? shape block = some (.even start 1))
    (hlen : op.strides.length = shape.length) {k : Nat} (hk : k < block.len) :
    op.offset shape (block.start + k) = start + k := by
  rw [offset_of_access? h hlen hk, Nat.mul_one]

/-- No dimension of a shape with positions has the extent 0. -/
theorem dims_ne_zero (op : Strided) {shape : Shape} (hpos : size shape ≠ 0) :
    ∀ x ∈ op.dims shape, x.1 ≠ 0 := by
  intro x hx
  rw [dims, List.mem_reverse] at hx
  exact Shape.size_ne_zero_iff.1 hpos x.1 (List.of_mem_zip hx).1

/-- The odometer over a block lists the offsets of its positions where these and the
sums on the way fit 64 bits. -/
theorem walkOffsets?_eq_some {op : Strided} {shape : Shape} (hpos : size shape ≠ 0)
    (hflat : op.flatStep? shape = none) {block : Block}
    (hoffset : op.offset shape block.start < UInt64.size)
    (hraised : ∀ k, k + 1 < block.len → ∀ n ∈ raised (op.dims shape) (block.start + k),
      op.base + n < UInt64.size) :
    op.walkOffsets? shape block
      = some ((List.range block.len).map fun k => op.offset shape (block.start + k)) := by
  unfold walkOffsets?
  split
  · next hempty => rw [hempty]; rfl
  · rw [offset?_eq_some hoffset, Option.bind_eq_bind, Option.bind_some,
      offset_of_flatStep?_none hflat, odometer?_indices (op.dims_ne_zero hpos) hraised]
    exact congrArg some (List.map_congr_left fun k _ => (offset_of_flatStep?_none hflat _).symm)

/-- The offsets of a block are those of its positions. -/
theorem of_offsets? {op : Strided} {shape : Shape} (hpos : size shape ≠ 0)
    (hlen : op.strides.length = shape.length) {block : Block} {offsets : List Nat}
    (h : op.offsets? shape block = some offsets) :
    offsets = (List.range block.len).map fun k => op.offset shape (block.start + k) := by
  unfold offsets? at h
  obtain ⟨access, haccess, h⟩ := Option.bind_eq_some_iff.1 h
  cases access with
  | even start step =>
    refine List.ext_getElem ?_ fun k hk hk' => ?_
    · rw [(mapM_eq_some_iff.1 h).length_eq.symm, List.length_map]
    · have hsum := (List.forall₂_iff_get.1 (mapM_eq_some_iff.1 h)).2 k
        (by simpa using hk') hk
      simp only [List.get_eq_getElem, List.getElem_range, Option.bind_eq_bind,
        Option.bind_eq_some_iff, checkedProduct_eq_some_iff, checkedSum_eq_some_iff] at hsum
      obtain ⟨_, ⟨-, rfl⟩, -, hsum⟩ := hsum
      rw [← hsum, List.getElem_map, List.getElem_range,
        offset_of_access? haccess hlen (by simpa using hk')]
  | uneven =>
    have hflat : op.flatStep? shape = none := by
      cases hflat : op.flatStep? shape with
      | none => rfl
      | some step => cases of_access?_of_flatStep? hflat haccess
    simp only [walkOffsets?] at h
    split at h
    · next hempty =>
      cases h
      rw [hempty]
      rfl
    · obtain ⟨first, hfirst, h⟩ := Option.bind_eq_some_iff.1 h
      rw [← of_offset? hfirst, offset_of_flatStep?_none hflat] at h
      have hne := op.dims_ne_zero hpos
      rw [odometer?_indices hne (lt_of_odometer? hne h)] at h
      rw [← Option.some.inj h]
      exact List.map_congr_left fun k _ => (offset_of_flatStep?_none hflat _).symm

/-- A block of an operand that can be worked on with numbers of 64 bits. -/
structure Counts (op : Strided) (shape : Shape) (block : Block) : Prop where
  access : ∃ access, op.access? shape block = some access
  offsets : ∃ offsets, op.offsets? shape block = some offsets
  /-- Elements in a row have an end behind them. -/
  stop : ∀ start, op.access? shape block = some (.even start 1) →
    start + block.len < UInt64.size

/-- Offsets in even steps are listed where they fit 64 bits. -/
theorem exists_offsets?_of_even {op : Strided} {shape : Shape} {block : Block} {start step : Nat}
    (haccess : op.access? shape block = some (.even start step))
    (hfits : ∀ k < block.len, start + k * step < UInt64.size) :
    ∃ offsets, op.offsets? shape block = some offsets := by
  have hlist : ∀ k ∈ List.range block.len, (fun k => do
      checkedSum start (← checkedProduct k step)) k = some (start + k * step) := by
    intro k hk
    have hk := hfits k (List.mem_range.1 hk)
    simp only
    rw [checkedProduct_eq_some (by omega), Option.bind_eq_bind, Option.bind_some,
      checkedSum_eq_some hk]
  simp only [offsets?, haccess, Option.bind_eq_bind, Option.bind_some]
  exact ⟨_, mapM_eq_some_iff.2 (List.forall₂_map_right_iff.2 (List.forall₂_same.2 hlist))⟩

/-- Elements in a row can be worked on where the end behind them fits 64 bits. -/
theorem counts_of_row {op : Strided} {shape : Shape} {block : Block} {start : Nat}
    (haccess : op.access? shape block = some (.even start 1))
    (hstop : start + block.len < UInt64.size) : op.Counts shape block := by
  refine ⟨⟨_, haccess⟩, exists_offsets?_of_even haccess fun k hk => by omega, fun start' hrow => ?_⟩
  cases haccess.symm.trans hrow
  exact hstop

/-- Blocks can be worked on where offsets, and what the odometer adds up to, fit 64
bits. -/
theorem counts {op : Strided} {shape : Shape} (hlen : op.strides.length = shape.length)
    (hfits : size shape ≤ maxSize) {block : Block} (hblock : 0 < block.len)
    (hstop : block.start + block.len ≤ size shape)
    (hoffset : ∀ k < block.len, op.offset shape (block.start + k) < maxSize)
    (hraised : op.flatStep? shape = none → ∀ k, k + 1 < block.len →
      ∀ n ∈ raised (op.dims shape) (block.start + k), op.base + n < UInt64.size) :
    op.Counts shape block := by
  have hmax : ∀ {n}, n < maxSize → n < UInt64.size := fun h =>
    Shape.lt_uint64_iff.2 (Nat.le_of_lt h)
  have hfirst : op.offset shape block.start < UInt64.size := hmax (hoffset 0 hblock)
  have hpos : size shape ≠ 0 := by omega
  obtain ⟨access, haccess⟩ : ∃ access, op.access? shape block = some access := exists_access? hfirst
    (Shape.lt_uint64_iff.2 (Nat.le_trans hstop hfits))
  refine ⟨⟨access, haccess⟩, ?_, fun start heven => ?_⟩
  · cases access with
    | even start step =>
      refine exists_offsets?_of_even haccess fun k hk => ?_
      rw [← offset_of_access? haccess hlen hk]
      exact hmax (hoffset k hk)
    | uneven =>
      have hflat : op.flatStep? shape = none := by
        cases hflat : op.flatStep? shape with
        | none => rfl
        | some step => cases of_access?_of_flatStep? hflat haccess
      simp only [offsets?, haccess, Option.bind_eq_bind, Option.bind_some]
      exact ⟨_, walkOffsets?_eq_some hpos hflat hfirst (hraised hflat)⟩
  · have hlast := hoffset (block.len - 1) (by omega)
    rw [offset_of_access?_one heven hlen (by omega)] at hlast
    exact Shape.lt_uint64_iff.2 (by omega)

/-! ## Operands that stand still or are contiguous -/

/-- Strides of 0 keep an operand at its base. -/
theorem flatStep?_zero {base : Nat} {strides : List Nat} (h : ∀ s ∈ strides, s = 0)
    (shape : Shape) : flatStep? ⟨base, strides⟩ shape = some 0 := by
  unfold flatStep?
  refine if_pos (List.all_eq_true.2 fun x hx => ?_)
  have hmem := (List.of_mem_zip (List.of_mem_zip (List.mem_filter.1 hx).1).2).1
  simpa using h _ hmem

/-- Blocks of an operand that stands still can be worked on. -/
theorem counts_still {base : Nat} {strides : List Nat} {shape : Shape} (h : ∀ s ∈ strides, s = 0)
    (hlen : strides.length = shape.length) (hfits : size shape ≤ maxSize) (hbase : base < maxSize)
    {block : Block} (hblock : 0 < block.len) (hstop : block.start + block.len ≤ size shape) :
    Counts ⟨base, strides⟩ shape block := by
  have hflat : flatStep? ⟨base, strides⟩ shape = some 0 := flatStep?_zero h shape
  refine counts hlen hfits hblock hstop (fun k _ => ?_) fun hnone => ?_
  · rwa [offset_of_flatStep? hflat, Nat.mul_zero]
  · rw [hflat] at hnone
    cases hnone

theorem base_le_offset (op : Strided) (shape : Shape) (p : Nat) : op.base ≤ op.offset shape p := by
  unfold offset
  split <;> exact Nat.le_add_right _ _

/-- Contiguous strides place each element at its position. -/
theorem offset_contiguous {shape : Shape} (base : Nat) (hfits : size shape ≤ maxSize) {p : Nat}
    (hp : p < size shape) : offset ⟨base, shape.contiguousStrides⟩ shape p = base + p := by
  rw [offset_eq_dot (Shape.length_contiguousStrides shape) hfits hp,
    Shape.dot_contiguousStrides (by omega) hfits, Shape.position_index hp]

/-- Contiguous strides move by one, where there are several positions. -/
theorem flatStep?_contiguous {shape : Shape} (base : Nat) (hfits : size shape ≤ maxSize)
    (hsize : 1 < size shape) :
    flatStep? ⟨base, shape.contiguousStrides⟩ shape = some 1 := by
  have hoffset := offset_contiguous base hfits hsize
  cases hflat : flatStep? ⟨base, shape.contiguousStrides⟩ shape with
  | some step =>
    rw [offset_of_flatStep? hflat] at hoffset
    obtain rfl : step = 1 := by
      simp only at hoffset
      omega
    rfl
  | none =>
    -- strides are compared with themselves
    have hself : ∀ x ∈ shape.zip (shape.contiguousStrides.zip shape.contiguousStrides),
        x.2.1 = x.2.2 := by
      intro x hx
      obtain ⟨i, _, heq⟩ := List.mem_iff_getElem.1 (List.of_mem_zip hx).2
      rw [← heq, List.getElem_zip]
    simp only [flatStep?] at hflat
    split at hflat
    · cases hflat
    · rw [if_pos] at hflat
      · cases hflat
      · simpa using fun d s c hmem => .inr (hself (d, s, c) hmem)

/-- Blocks of contiguous elements can be worked on. -/
theorem counts_contiguous {shape : Shape} (hfits : size shape ≤ maxSize) {block : Block}
    (hblock : 0 < block.len) (hstop : block.start + block.len ≤ size shape) :
    Counts ⟨0, shape.contiguousStrides⟩ shape block := by
  refine counts shape.length_contiguousStrides hfits hblock hstop (fun k hk => ?_)
    fun hnone k hk => ?_
  · rw [offset_contiguous 0 hfits (by omega)]
    omega
  · rw [flatStep?_contiguous 0 hfits (by omega)] at hnone
    cases hnone

end Strided

end Lanewise
