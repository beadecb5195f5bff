import Lanewise.Proofs.Rounding

/-!
# Shortest decimals

The decimal that is printed for a number lies in the rounding interval of the
number, so reading it to the nearest gives the number back. It has as few digits
as the interval allows, and it is never on a finer grid than it has to be: a
power of ten that fits in half the last place divides it (`near_shortest`,
`exists_shortest_eq`).
-/

namespace Lanewise.BinaryFormat

/-! ## Dropped places -/

/-- The number lies between the bounds, which count when `closed`. -/
def Within (low high : Nat) (closed : Bool) (x : Nat) : Prop :=
  if closed then low ≤ x ∧ x ≤ high else low < x ∧ x < high

instance (low high : Nat) (closed : Bool) (x : Nat) : Decidable (Within low high closed x) :=
  inferInstanceAs (Decidable (if closed then low ≤ x ∧ x ≤ high else low < x ∧ x < high))

section Places

variable {exact low high : Nat} {closed : Bool}

theorem dropPlaces_succ (places : Nat) :
    dropPlaces exact low high closed (places + 1) =
      let lower := exact / 10 ^ (places + 1)
      if Within low high closed (lower * 10 ^ (places + 1)) ∧
          (¬ Within low high closed ((lower + 1) * 10 ^ (places + 1)) ∨
            ¬ 10 ^ (places + 1) ≤ 2 * (exact % 10 ^ (places + 1))) then
        (lower, places + 1)
      else if Within low high closed ((lower + 1) * 10 ^ (places + 1)) then
        (lower + 1, places + 1)
      else dropPlaces exact low high closed places :=
  rfl

theorem within_of_lt {x : Nat} (hlow : low < x) (hhigh : x < high) :
    Within low high closed x := by
  unfold Within
  split
  · exact ⟨hlow.le, hhigh.le⟩
  · exact ⟨hlow, hhigh⟩

/-- What is kept of a number between the bounds lies between them, too. -/
theorem within_dropPlaces (h : Within low high closed exact) (places : Nat) :
    Within low high closed ((dropPlaces exact low high closed places).1 *
      10 ^ (dropPlaces exact low high closed places).2) := by
  induction places with
  | zero => simpa [dropPlaces] using h
  | succ places ih =>
    rw [dropPlaces_succ]
    dsimp only
    split
    · next hlower => exact hlower.1
    · split
      · next hupper => exact hupper
      · exact ih

/-- As many places are dropped as leave one of the grid neighbours between the
bounds. -/
theorem le_dropPlaces {k places : Nat} (hk : k ≤ places)
    (h : Within low high closed (exact / 10 ^ k * 10 ^ k) ∨
      Within low high closed ((exact / 10 ^ k + 1) * 10 ^ k)) :
    k ≤ (dropPlaces exact low high closed places).2 := by
  induction places with
  | zero =>
    obtain rfl := Nat.le_zero.1 hk
    exact Nat.zero_le _
  | succ places ih =>
    rw [dropPlaces_succ]
    dsimp only
    split
    · exact hk
    · next hlower =>
      split
      · exact hk
      · next hupper =>
        apply ih
        -- at this number of places neither neighbour lies between the bounds
        by_contra hlt
        obtain rfl : k = places + 1 := by omega
        rcases h with h | h
        · exact hlower ⟨h, .inl hupper⟩
        · exact hupper h

/-- A grid that fits between the number and the upper bound has a neighbour of the
number between the bounds. -/
theorem within_neighbour {k : Nat} (hlow : low < exact) (hgrid : exact + 10 ^ k ≤ high) :
    Within low high closed (exact / 10 ^ k * 10 ^ k) ∨
      Within low high closed ((exact / 10 ^ k + 1) * 10 ^ k) := by
  have hpos : 0 < 10 ^ k := Nat.pow_pos (by decide)
  have hsplit := Nat.div_add_mod' exact (10 ^ k)
  have hmod := Nat.mod_lt exact hpos
  by_cases hzero : exact % 10 ^ k = 0
  · left
    rw [hzero, Nat.add_zero] at hsplit
    rw [hsplit]
    exact within_of_lt hlow (by omega)
  · right
    rw [Nat.add_mul, Nat.one_mul]
    exact within_of_lt (by omega) (by omega)

end Places

/-! ## Trailing zeros -/

/-- Zeros that become part of the exponent leave the number as it is. -/
theorem trimZeros_value (e : Int) (n fuel : Nat) :
    ((trimZeros e n fuel).1 : ℚ) * 10 ^ (trimZeros e n fuel).2 = n * 10 ^ e := by
  induction fuel generalizing e n with
  | zero => rfl
  | succ fuel ih =>
    rw [trimZeros]
    split
    · next hzero =>
      have hn : (n : ℚ) = (n / 10 : Nat) * 10 := by
        exact_mod_cast (Nat.div_mul_cancel (Nat.dvd_of_mod_eq_zero hzero)).symm
      rw [ih, zpow_add_one₀ (by norm_num), hn]
      ring
    · rfl

/-! ## The shortest decimal -/

variable {fmt : BinaryFormat} {m : Nat} {q : Int}

/-- The lower end of a rounding interval is positive. -/
theorem Near.pos {v : ℚ} (hm : 0 < m) (h : fmt.Near m q v) : 0 < v := by
  have hlow := (h.bounds hm).1
  have hone : (1 : ℚ) ≤ m := by exact_mod_cast hm
  have hplace : (0 : ℚ) < 2 ^ q := by positivity
  nlinarith

/-- A decimal in the rounding interval of a number is read as the number. -/
theorem ofDecimal_of_near (hproper : fmt.Proper) (hrep : fmt.Represents m q) (hm : 0 < m)
    {n : Nat} {e : Int} (hnear : fmt.Near m q (n * 10 ^ e)) :
    fmt.ofDecimal n e = fmt.bitsOf m q := by
  have hn : 0 < n := by exact_mod_cast pos_of_mul_pos_left (hnear.pos hm) (by positivity)
  obtain ⟨num, den, hnum, hden, hvalue, hround⟩ :=
    exists_ofDecimal hproper hn (hnear.inRange hrep hm)
  rw [hround]
  exact roundRatio_of_near hproper hrep hm hnum hden (hvalue ▸ hnear)

theorem lt_digitCount {n j : Nat} (hn : 0 < n) (h : 10 ^ j ≤ n) : j < digitCount n := by
  have hhigh := (digitCount_bounds hn).2
  rw [zpow_natCast] at hhigh
  have hhigh : n < 10 ^ digitCount n := by exact_mod_cast hhigh
  exact (Nat.pow_lt_pow_iff_right (by decide)).1 (h.trans_lt hhigh)

/-- A quarter of the last place, as a number of units of a power of ten. -/
def quarter (q : Int) : Nat :=
  if 0 ≤ q - 2 then Nat.pow 2 (q - 2).toNat else Nat.pow 5 (-(q - 2)).toNat

theorem quarter_pos (q : Int) : 0 < quarter q := by
  unfold quarter
  split
  · exact Nat.two_pow_pos _
  · exact Nat.pow_pos (Nat.succ_pos 4)

theorem quarter_eq (q : Int) : (quarter q : ℚ) * 10 ^ min (q - 2) 0 = 2 ^ (q - 2) := by
  unfold quarter
  generalize q - 2 = unit
  split
  · next h =>
    obtain ⟨k, rfl⟩ := Int.eq_ofNat_of_zero_le h
    simp
  · next h =>
    obtain ⟨k, hk⟩ := Int.eq_ofNat_of_zero_le (show 0 ≤ -unit by omega)
    obtain rfl : unit = -(k : Int) := by omega
    rw [min_eq_left (by omega), neg_neg, Int.toNat_natCast, zpow_neg, zpow_neg, zpow_natCast,
      zpow_natCast, Nat.pow_eq]
    push_cast
    rw [← div_eq_mul_inv, ← div_pow, ← inv_pow]
    norm_num

/-- A power of ten that is at most half the last place, as a number of those units. -/
theorem pow_le_quarter {k : Int} {j : Nat} (hj : k = j + min (q - 2) 0)
    (hk : (10 : ℚ) ^ k ≤ 2 ^ (q - 1)) : 10 ^ j ≤ 2 * quarter q := by
  have hpos : (0 : ℚ) < 10 ^ min (q - 2) 0 := by positivity
  have hplace := two_zpow (q - 1)
  rw [show q - 1 - 1 = q - 2 by ring, ← quarter_eq, ← mul_assoc] at hplace
  rw [hj, zpow_add₀ (by norm_num), zpow_natCast, hplace, mul_le_mul_iff_of_pos_right hpos] at hk
  exact_mod_cast hk

/-- Between the bounds of the search lies the rounding interval. -/
theorem near_of_within {x : Nat}
    (h : Within ((4 * m - fmt.below m q) * quarter q) ((4 * m + 2) * quarter q) (m % 2 == 0) x) :
    fmt.Near m q (x * 10 ^ min (q - 2) 0) := by
  have hpos : (0 : ℚ) < 10 ^ min (q - 2) 0 := by positivity
  have hscaled (k : Nat) : (k : ℚ) * 2 ^ (q - 2) =
      ((k * quarter q : Nat) : ℚ) * 10 ^ min (q - 2) 0 := by
    rw [← quarter_eq]
    push_cast
    ring
  unfold Within at h
  by_cases heven : m % 2 = 0
  · rw [if_pos (by simpa using heven)] at h
    refine ⟨?_, ?_, fun hodd => by omega⟩
    · rw [hscaled, mul_le_mul_iff_of_pos_right hpos]
      exact_mod_cast h.1
    · rw [hscaled, mul_le_mul_iff_of_pos_right hpos]
      exact_mod_cast h.2
  · rw [if_neg (by simpa using heven)] at h
    have hstrict : ((4 * m - fmt.below m q : Nat) : ℚ) * 2 ^ (q - 2) <
          x * 10 ^ min (q - 2) 0 ∧
        (x : ℚ) * 10 ^ min (q - 2) 0 < ((4 * m + 2 : Nat) : ℚ) * 2 ^ (q - 2) := by
      rw [hscaled, hscaled, mul_lt_mul_iff_of_pos_right hpos, mul_lt_mul_iff_of_pos_right hpos]
      exact_mod_cast h
    exact ⟨hstrict.1.le, hstrict.2.le, fun _ => hstrict⟩

/-- What the search keeps of a number, with the places it drops. -/
def kept (fmt : BinaryFormat) (m : Nat) (q : Int) : Nat × Nat :=
  dropPlaces (4 * m * quarter q) ((4 * m - fmt.below m q) * quarter q) ((4 * m + 2) * quarter q)
    (m % 2 == 0) (digitCount (4 * m * quarter q) - 1)

/-- The printed decimal is what the search keeps, without the zeros at its end. -/
theorem shortest_eq (fmt : BinaryFormat) (m : Nat) (q : Int) :
    fmt.shortest m q = trimZeros (min (q - 2) 0 + (fmt.kept m q).2) (fmt.kept m q).1
      (digitCount (4 * m * quarter q)) :=
  rfl

theorem shortest_value (fmt : BinaryFormat) (m : Nat) (q : Int) :
    ((fmt.shortest m q).1 : ℚ) * 10 ^ (fmt.shortest m q).2 =
      (fmt.kept m q).1 * 10 ^ (min (q - 2) 0 + (fmt.kept m q).2) := by
  rw [shortest_eq, trimZeros_value]

theorem low_lt_exact (fmt : BinaryFormat) (q : Int) (hm : 0 < m) :
    (4 * m - fmt.below m q) * quarter q < 4 * m * quarter q := by
  have hbelow := (Near.below_pos fmt m q).1
  exact Nat.mul_lt_mul_of_pos_right (by omega) (quarter_pos q)

theorem exact_lt_high (m : Nat) (q : Int) : 4 * m * quarter q < (4 * m + 2) * quarter q :=
  Nat.mul_lt_mul_of_pos_right (by omega) (quarter_pos q)

/-- The printed decimal lies in the rounding interval of the number. -/
theorem near_shortest (fmt : BinaryFormat) (q : Int) (hm : 0 < m) :
    fmt.Near m q ((fmt.shortest m q).1 * 10 ^ (fmt.shortest m q).2) := by
  have hnear : fmt.Near m q (((fmt.kept m q).1 * 10 ^ (fmt.kept m q).2 : Nat) *
      10 ^ min (q - 2) 0) :=
    near_of_within
      (within_dropPlaces (within_of_lt (low_lt_exact fmt q hm) (exact_lt_high m q)) _)
  have hvalue : (((fmt.kept m q).1 * 10 ^ (fmt.kept m q).2 : Nat) : ℚ) * 10 ^ min (q - 2) 0 =
      (fmt.kept m q).1 * 10 ^ (min (q - 2) 0 + (fmt.kept m q).2) := by
    rw [zpow_add₀ (by norm_num), zpow_natCast]
    push_cast
    ring
  rwa [shortest_value, ← hvalue]

theorem shortest_pos (fmt : BinaryFormat) (q : Int) (hm : 0 < m) : 0 < (fmt.shortest m q).1 := by
  have hpositive := (near_shortest fmt q hm).pos hm
  exact_mod_cast pos_of_mul_pos_left hpositive (by positivity)

/-- As many places are dropped as the units of a power of ten have that is at most half
the last place. -/
theorem le_kept (fmt : BinaryFormat) (hm : 0 < m) {k : Int} (hk : (10 : ℚ) ^ k ≤ 2 ^ (q - 1)) :
    k ≤ min (q - 2) 0 + (fmt.kept m q).2 := by
  by_contra hlt
  obtain ⟨j, hj⟩ := Int.eq_ofNat_of_zero_le (show 0 ≤ k - min (q - 2) 0 by omega)
  have hgrid : 10 ^ j ≤ 2 * quarter q := pow_le_quarter (by omega) hk
  have hcount : j ≤ digitCount (4 * m * quarter q) - 1 := by
    have hquarter := quarter_pos q
    have hexact : 10 ^ j ≤ 4 * m * quarter q :=
      hgrid.trans (Nat.mul_le_mul_right _ (by omega))
    have hlt := lt_digitCount (by positivity) hexact
    omega
  have hdropped : j ≤ (fmt.kept m q).2 := by
    apply le_dropPlaces hcount
    apply within_neighbour (low_lt_exact fmt q hm)
    rw [Nat.add_mul]
    omega
  omega

/-- The printed decimal is a multiple of every power of ten that is at most half the
last place. -/
theorem exists_shortest_eq (fmt : BinaryFormat) (hm : 0 < m) {k : Int}
    (hk : (10 : ℚ) ^ k ≤ 2 ^ (q - 1)) :
    ∃ n : Nat, ((fmt.shortest m q).1 : ℚ) * 10 ^ (fmt.shortest m q).2 = n * 10 ^ k := by
  obtain ⟨more, hmore⟩ := Int.eq_ofNat_of_zero_le (sub_nonneg.2 (le_kept fmt hm hk))
  refine ⟨(fmt.kept m q).1 * 10 ^ more, ?_⟩
  rw [shortest_value, show min (q - 2) 0 + ((fmt.kept m q).2 : Int) = more + k by omega,
    zpow_add₀ (by norm_num), zpow_natCast]
  push_cast
  ring

end Lanewise.BinaryFormat
