import Lanewise.Proofs.Broadcast
import Lanewise.Proofs.Offsets

/-!
# Addresses

Where an iteration finds the elements of an operand. The offset of one position and
the even steps through a block are two ways to the same numbers. The odometer over a
block is a third one, but it adds a stride before it knows whether the index goes
back: it lists the numbers where all of these sums fit 64 bits, and breaks off where
one does not (`Strided.addresses_agree`, `Strided.not_addresses_agree`). For an array
that is read over a common shape the numbers are its own positions
(`Shape.broadcastStrides?_addresses`), so no element outside of it is asked for.
-/

namespace Lanewise

open Shape (dot index size maxSize)

namespace Strided

/-! ## Three ways to an offset -/

/-- Where the element at a position lies: each of its indices times the stride, from
the base on. -/
def address (op : Strided) (shape : Shape) (p : Nat) : Nat :=
  op.base + dot (index shape p) op.strides

section Address

variable {op : Strided} {shape : Shape} (hlen : op.strides.length = shape.length)

include hlen

theorem address_eq_displacement (hpos : size shape ≠ 0) (p : Nat) :
    op.address shape p = op.base + displacement (op.dims shape) p := by
  rw [address, displacement_dims hpos hlen]

theorem offset?_eq_address (hfits : size shape ≤ maxSize) {p : Nat} (hp : p < size shape)
    (h : op.address shape p < UInt64.size) : op.offset? shape p = some (op.address shape p) := by
  have hoffset : op.offset shape p = op.address shape p := offset_eq_dot hlen hfits hp
  rw [← hoffset] at h ⊢
  exact offset?_eq_some h

/-- The odometer over a block lists the addresses of its positions, and it does so
exactly where what it adds up to can be counted. What it takes off it always has. -/
theorem walkOffsets?_eq_some_iff (hfits : size shape ≤ maxSize) {block : Block}
    (hblock : block.start + block.len ≤ size shape)
    (hwords : ∀ k < block.len, op.address shape (block.start + k) < UInt64.size)
    (offsets : List Nat) :
    op.walkOffsets? shape block = some offsets ↔
      offsets = ((List.range block.len).map fun k => op.address shape (block.start + k)) ∧
        ∀ k, k + 1 < block.len → ∀ n ∈ raised (op.dims shape) (block.start + k),
          op.base + n < UInt64.size := by
  unfold walkOffsets?
  split
  · next hempty => simp [hempty, eq_comm]
  · next hsome =>
    have hpos : size shape ≠ 0 := by omega
    have hdims := op.dims_ne_zero hpos
    have hfirst := hwords 0 (Nat.pos_of_ne_zero hsome)
    rw [Nat.add_zero] at hfirst
    simp only [address_eq_displacement hlen hpos]
    rw [offset?_eq_address hlen hfits (by omega) hfirst, Option.bind_eq_bind, Option.bind_some,
      address_eq_displacement hlen hpos]
    constructor
    · intro hwalk
      have hraised := lt_of_odometer? hdims hwalk
      rw [odometer?_indices hdims hraised] at hwalk
      exact ⟨(Option.some.inj hwalk).symm, hraised⟩
    · rintro ⟨rfl, hraised⟩
      exact odometer?_indices hdims hraised

/-- The offset of a position is its address, and an even access leads through the
addresses of a block in equal steps. The odometer lists the same addresses where what
it adds up to on the way fits 64 bits, as the addresses do; otherwise it breaks off at
a sum, and never because it would have to take off more than it has. -/
theorem addresses_agree (hfits : size shape < UInt64.size) :
    (∀ p < size shape, op.address shape p < UInt64.size →
      op.offset? shape p = some (op.address shape p)) ∧
    ∀ block : Block, 0 < block.len → block.start + block.len ≤ size shape →
      (∀ k < block.len, op.address shape (block.start + k) < UInt64.size) →
      (∃ access, op.access? shape block = some access) ∧
      (∀ start step, op.access? shape block = some (.even start step) →
        ∀ k < block.len, op.offset? shape (block.start + k) = some (start + k * step)) ∧
      ∀ offsets, op.walkOffsets? shape block = some offsets ↔
        offsets = ((List.range block.len).map fun k => op.address shape (block.start + k)) ∧
          ∀ k, k + 1 < block.len → ∀ n ∈ raised (op.dims shape) (block.start + k),
            op.base + n < UInt64.size := by
  have hmax : size shape ≤ maxSize := Shape.lt_uint64_iff.1 hfits
  have hoffset : ∀ p < size shape, op.address shape p < UInt64.size →
      op.offset? shape p = some (op.address shape p) := fun p hp h =>
    offset?_eq_address hlen hmax hp h
  refine ⟨hoffset, fun block hsome hblock hwords => ⟨?_, fun start step heven k hk => ?_, ?_⟩⟩
  · have hfirst := hoffset block.start (by omega) (by simpa using hwords 0 hsome)
    refine exists_access? ?_ (by omega)
    rw [of_offset? hfirst]
    simpa using hwords 0 hsome
  · have hk' := hoffset (block.start + k) (by omega) (hwords k hk)
    rw [hk', ← of_offset? hk', offset_of_access? heven hlen hk]
  · exact walkOffsets?_eq_some_iff hlen hmax hblock hwords

end Address

/-- A transposed operand, over the end of one row and the start of the next. -/
theorem addresses_agree_transposed :
    walkOffsets? ⟨5, [1, 2]⟩ [2, 3] ⟨1, 4⟩ = some [7, 9, 6, 8] ∧
      offset? ⟨5, [1, 2]⟩ [2, 3] 4 = some (5 + dot [1, 1] [1, 2]) ∧
      ∀ k < 3, offset? ⟨5, [1, 2]⟩ [2, 3] (3 + k) = some (6 + k * 2) := by
  obtain ⟨hoffset, hblocks⟩ :=
    @addresses_agree ⟨5, [1, 2]⟩ [2, 3] rfl (by decide)
  obtain ⟨-, -, hwalk⟩ := hblocks ⟨1, 4⟩ (by decide) (by decide) (by decide)
  obtain ⟨-, hrow, -⟩ := hblocks ⟨3, 3⟩ (by decide) (by decide) (by decide)
  have hraised : ∀ k < 3, ∀ n ∈ raised (dims ⟨5, [1, 2]⟩ [2, 3]) (1 + k), 5 + n < UInt64.size := by
    decide
  exact ⟨(hwalk _).2 ⟨by decide, fun k hk => hraised k (Nat.lt_of_succ_lt_succ hk)⟩,
    hoffset 4 (by decide) (by decide), hrow 6 2 (by decide)⟩

/-- An operand with the same two elements in each row, the second one the last that 64
bits can count. The offset of every position can be found, but the odometer steps past
the end before it goes back to the start of the row. -/
theorem not_addresses_agree :
    ¬ ∀ (op : Strided) (shape : Shape) (block : Block),
      op.strides.length = shape.length → size shape < UInt64.size →
      block.start + block.len ≤ size shape →
      (∀ k < block.len, op.offset? shape (block.start + k)
        = some (op.address shape (block.start + k))) →
      op.walkOffsets? shape block
        = some ((List.range block.len).map fun k => op.address shape (block.start + k)) := by
  intro h
  have hwalk := h ⟨2 ^ 63, [0, 2 ^ 63 - 1]⟩ [2, 2] ⟨0, 4⟩ rfl (by decide) (by decide) (by decide)
  have hnone : walkOffsets? ⟨2 ^ 63, [0, 2 ^ 63 - 1]⟩ [2, 2] ⟨0, 4⟩ = none := by decide
  rw [hnone] at hwalk
  cases hwalk

end Strided

namespace Shape

/-! ## Broadcast arrays -/

/-- A shape that fits a target has no more positions. -/
theorem size_le_of_fits {shape target : Shape} (h : Fits shape target) (hpos : size target ≠ 0) :
    size shape ≤ size target := by
  obtain ⟨lead, aligned, rfl, haligned⟩ := h
  rw [size_append] at hpos ⊢
  obtain ⟨hlead, haligned_pos⟩ := Nat.mul_ne_zero_iff.1 hpos
  refine Nat.le_trans ?_ (Nat.le_mul_of_pos_left _ (Nat.pos_of_ne_zero hlead))
  clear hpos
  induction haligned with
  | nil => exact Nat.le_refl _
  | @cons d t shape aligned hd _ ih =>
    rw [size_cons] at haligned_pos
    obtain ⟨ht, hrest⟩ := Nat.mul_ne_zero_iff.1 haligned_pos
    rw [size_cons, size_cons]
    exact Nat.mul_le_mul (by omega) (ih hrest)

/-- Every shape of a list that has a common one is read over it through the strides
that are found for it. They lead from each position of the common shape to an element
of the array: the one at the same indices, with shapes aligned at their last dimension
and index 0 along each dimension of extent 1. -/
theorem broadcastStrides?_addresses {shapes : List Shape} {target : Shape}
    (h : broadcast shapes = .ok target) (hpos : size target ≠ 0)
    (hfits : size target < UInt64.size) {shape : Shape} (hmem : shape ∈ shapes) :
    ∃ strides, shape.broadcastStrides? shape.contiguousStrides target = some strides ∧
      ∀ p < size target,
        let indices := clamp shape ((target.index p).drop (target.length - shape.length))
        Strided.offset? ⟨0, strides⟩ target p = some (shape.position indices) ∧
          dot (target.index p) strides = shape.position indices ∧
          InBounds indices shape ∧ shape.position indices < size shape ∧
          (shape = target → shape.position indices = p) := by
  have hshape := fits_of_broadcast h hmem
  have hsize := size_le_of_fits hshape hpos
  have hmax : size target ≤ maxSize := by
    unfold maxSize
    omega
  obtain ⟨strides, hstrides, hdot⟩ :=
    exists_broadcastStrides? hshape shape.length_contiguousStrides
  refine ⟨strides, hstrides, fun p hp => ?_⟩
  intro indices
  have hplaced : dot (target.index p) strides = shape.position indices := by
    rw [hdot _ (length_index target p), dot_contiguousStrides
      (size_ne_zero_of_fits hshape hpos) (Nat.le_trans hsize hmax)]
  have hinside : InBounds indices shape := inBounds_clamp_drop hshape (inBounds_index hp)
  refine ⟨?_, hplaced, hinside, position_lt hinside, ?_⟩
  · have haddress : Strided.address ⟨0, strides⟩ target p = shape.position indices := by
      rw [Strided.address, hplaced, Nat.zero_add]
    have hlt := position_lt hinside
    rw [← haddress]
    exact Strided.offset?_eq_address (length_broadcastStrides? hstrides) hmax hp (by omega)
  · rintro rfl
    exact broadcastPosition_self hp

/-- A column and a row over the table that they span. -/
theorem broadcastStrides?_addresses_table :
    ∃ strides, broadcastStrides? [3, 1] (contiguousStrides [3, 1]) [2, 3, 4] = some strides ∧
      Strided.offset? ⟨0, strides⟩ [2, 3, 4] 22 = some 2 := by
  obtain ⟨strides, hstrides, hplaced⟩ := @broadcastStrides?_addresses
    [[3, 1], [4], [2, 1, 1]] [2, 3, 4] (by decide) (by decide) (by decide) [3, 1] (by decide)
  exact ⟨strides, hstrides, (hplaced 22 (by decide)).1⟩

end Shape

end Lanewise
