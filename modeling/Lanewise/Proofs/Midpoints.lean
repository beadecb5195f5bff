import Lanewise.Proofs.Narrowing

/-!
# Decimals next to midpoints

A printed 32-bit number is a multiple of a power of ten that is coarse for its
size, and such multiples are seldom close to a midpoint between two 32-bit
numbers. The few midpoints for each exponent are found with two fractions that
enclose the ratio of the two units: any other pair of multiples that nearly
agree is a combination of the two with small factors (`Bracket.mem_nearby`). Of the
numbers next to these midpoints a single one is not read back
(`narrowed_shortest`).
-/

namespace Lanewise.BinaryFormat

/-! ## Multiples that nearly agree -/

/-- Two pairs of a multiple of `num` and a multiple of `den`: in the first the one of
`num` is larger, in the second the one of `den`. -/
structure Bracket where
  highNum : Nat
  highDen : Nat
  lowNum : Nat
  lowDen : Nat

namespace Bracket

/-- How much larger the multiple of `num` is in the first pair. -/
def excess (br : Bracket) (num den : Nat) : Nat :=
  br.highNum * num - br.highDen * den

/-- How much larger the multiple of `den` is in the second pair. -/
def lack (br : Bracket) (num den : Nat) : Nat :=
  br.lowDen * den - br.lowNum * num

/-- The pairs enclose the ratio, and as neighbouring fractions: all other pairs are
combinations of them, and positive ones have `bound` times `den` or more. -/
def Tight (br : Bracket) (num den bound : Nat) : Prop :=
  br.highDen * den < br.highNum * num ∧ br.lowNum * num < br.lowDen * den ∧
    br.highNum * br.lowDen = br.lowNum * br.highDen + 1 ∧
    bound ≤ br.highDen + br.lowDen

instance (br : Bracket) (num den bound : Nat) : Decidable (br.Tight num den bound) :=
  inferInstanceAs (Decidable (_ ∧ _ ∧ _ ∧ _))

/-- The multiples of `den` that are combinations of the pairs with a difference of at
most `gap` to the multiple of `num`. -/
def nearby (br : Bracket) (num den gap : Nat) : List Nat :=
  (List.range (gap / br.excess num den + 1)).flatMap fun x =>
    ((List.range (gap / br.lack num den + 1)).filter fun y =>
      x * br.excess num den + y * br.lack num den ≤ gap).map fun y =>
        (x * br.highDen - y * br.lowDen) + (y * br.lowDen - x * br.highDen)

section Combinations

variable {br : Bracket} {num den bound gap : Nat}

theorem excess_eq (htight : br.Tight num den bound) :
    (br.excess num den : ℤ) = br.highNum * num - br.highDen * den := by
  rw [excess, Nat.cast_sub htight.1.le]
  push_cast
  ring

theorem lack_eq (htight : br.Tight num den bound) :
    (br.lack num den : ℤ) = br.lowDen * den - br.lowNum * num := by
  rw [lack, Nat.cast_sub htight.2.1.le]
  push_cast
  ring

/-- Every pair of multiples is a combination of the two pairs, and so is its
difference. -/
theorem exists_combination (htight : br.Tight num den bound) (n m : ℤ) :
    ∃ x y : ℤ, m = x * br.highDen + y * br.lowDen ∧
      n * num - m * den = x * br.excess num den - y * br.lack num den := by
  have hdet : (br.highNum : ℤ) * br.lowDen = br.lowNum * br.highDen + 1 := by
    exact_mod_cast htight.2.2.1
  refine ⟨n * br.lowDen - m * br.lowNum, m * br.highNum - n * br.highDen, ?_, ?_⟩
  · linear_combination (-m) * hdet
  · rw [excess_eq htight, lack_eq htight]
    linear_combination (-(n * num - m * den)) * hdet

/-- What `nearby` lists: combinations with factors of opposite signs. -/
theorem mem_nearby_of_eq (htight : br.Tight num den bound) {x y m : Nat}
    (hle : x * br.excess num den + y * br.lack num den ≤ gap)
    (hm : m = (x * br.highDen - y * br.lowDen) + (y * br.lowDen - x * br.highDen)) :
    m ∈ br.nearby num den gap := by
  have hexcess : 0 < br.excess num den := Nat.sub_pos_of_lt htight.1
  have hlack : 0 < br.lack num den := Nat.sub_pos_of_lt htight.2.1
  have hx : x ≤ gap / br.excess num den := (Nat.le_div_iff_mul_le hexcess).2 (by omega)
  have hy : y ≤ gap / br.lack num den := (Nat.le_div_iff_mul_le hlack).2 (by omega)
  rw [nearby, List.mem_flatMap]
  refine ⟨x, List.mem_range.2 (by omega), List.mem_map.2 ⟨y, ?_, hm.symm⟩⟩
  exact List.mem_filter.2 ⟨List.mem_range.2 (by omega), decide_eq_true hle⟩

/-- Two multiples that differ by at most `gap` are a combination of the pairs with
opposite signs. -/
theorem mem_nearby (htight : br.Tight num den bound) {n m : Nat} (hm : 0 < m) (hbound : m < bound)
    (hgap : |(n : ℤ) * num - m * den| ≤ gap) : m ∈ br.nearby num den gap := by
  obtain ⟨x, y, hcombined, hdifference⟩ := exists_combination htight n m
  rw [hdifference, abs_le] at hgap
  have hm : (0 : ℤ) < m := by exact_mod_cast hm
  have hbound : (m : ℤ) < br.highDen + br.lowDen := by
    exact_mod_cast hbound.trans_le htight.2.2.2
  by_cases hxPos : 0 < x
  · by_cases hyPos : 0 < y
    · -- a combination of both pairs with positive factors is too large
      have hfirst : (br.highDen : ℤ) ≤ x * br.highDen := le_mul_of_one_le_left (by positivity) hxPos
      have hsecond : (br.lowDen : ℤ) ≤ y * br.lowDen := le_mul_of_one_le_left (by positivity) hyPos
      omega
    · obtain ⟨x, rfl⟩ := Int.eq_ofNat_of_zero_le hxPos.le
      obtain ⟨z, hz⟩ := Int.eq_ofNat_of_zero_le (show 0 ≤ -y by omega)
      obtain rfl : y = -(z : ℤ) := by omega
      apply mem_nearby_of_eq (x := x) (y := z) htight
      · have hle := hgap.2
        rw [neg_mul, sub_neg_eq_add] at hle
        exact_mod_cast hle
      · have hsplit : ((m + z * br.lowDen : Nat) : ℤ) = (x * br.highDen : Nat) := by
          push_cast
          linarith
        have hsplit : m + z * br.lowDen = x * br.highDen := by exact_mod_cast hsplit
        omega
  · by_cases hyPos : 0 < y
    · obtain ⟨y, rfl⟩ := Int.eq_ofNat_of_zero_le hyPos.le
      obtain ⟨z, hz⟩ := Int.eq_ofNat_of_zero_le (show 0 ≤ -x by omega)
      obtain rfl : x = -(z : ℤ) := by omega
      apply mem_nearby_of_eq (x := z) (y := y) htight
      · have hle := hgap.1
        have hle : (z : ℤ) * br.excess num den + y * br.lack num den ≤ gap := by linarith
        exact_mod_cast hle
      · have hsplit : ((m + z * br.highDen : Nat) : ℤ) = (y * br.lowDen : Nat) := by
          push_cast
          linarith
        have hsplit : m + z * br.highDen = y * br.lowDen := by exact_mod_cast hsplit
        omega
    · have hfirst : x * (br.highDen : ℤ) ≤ 0 :=
        mul_nonpos_of_nonpos_of_nonneg (by omega) (by positivity)
      have hsecond : y * (br.lowDen : ℤ) ≤ 0 :=
        mul_nonpos_of_nonpos_of_nonneg (by omega) (by positivity)
      omega

end Combinations

/-- Closer and closer pairs, many steps in one as in Euclid's algorithm, until they
are as far up as asked. -/
def refine (num den bound : Nat) : Nat → Bracket → Bracket
  | 0, br => br
  | fuel + 1, br =>
    if bound ≤ br.highDen + br.lowDen then br
    else
      let missing := bound - br.highDen - br.lowDen
      if br.lack num den ≤ br.excess num den then
        let steps := max 1 (min ((br.excess num den - 1) / br.lack num den)
          (missing / br.lowDen + 1))
        refine num den bound fuel
          { br with
            highNum := br.highNum + steps * br.lowNum
            highDen := br.highDen + steps * br.lowDen }
      else
        let steps := max 1 (min ((br.lack num den - 1) / br.excess num den)
          (missing / br.highDen + 1))
        refine num den bound fuel
          { br with
            lowNum := br.lowNum + steps * br.highNum
            lowDen := br.lowDen + steps * br.highDen }

end Bracket

/-! ## Powers of ten and half places -/

/-- The largest power of ten that is at most half the last place. -/
def tenExponent (q : Int) : Int :=
  (q - 1) * 30103 / 100000

/-- Numerator of that power of ten as a fraction of half the last place. -/
def tenNum (q : Int) : Nat :=
  5 ^ (tenExponent q).toNat * 2 ^ (tenExponent q - (q - 1)).toNat

/-- Denominator of that power of ten as a fraction of half the last place. -/
def tenDen (q : Int) : Nat :=
  5 ^ (-tenExponent q).toNat * 2 ^ (q - 1 - tenExponent q).toNat

theorem zpow_eq_div {x : ℚ} (hx : x ≠ 0) (k : Int) : x ^ k = x ^ k.toNat / x ^ (-k).toNat := by
  rw [← zpow_natCast, ← zpow_natCast, ← zpow_sub₀ hx]
  congr 1
  omega

theorem ten_eq (q : Int) :
    (10 : ℚ) ^ tenExponent q / 2 ^ (q - 1) = (tenNum q : ℚ) / tenDen q := by
  have hfive := zpow_eq_div (x := 5) (by norm_num) (tenExponent q)
  have htwo := zpow_eq_div (x := 2) (by norm_num) (tenExponent q - (q - 1))
  have hten : (10 : ℚ) ^ tenExponent q = 5 ^ tenExponent q * 2 ^ tenExponent q := by
    rw [← mul_zpow]
    norm_num
  rw [hten, mul_div_assoc, ← zpow_sub₀ (by norm_num), hfive, htwo, div_mul_div_comm, tenNum, tenDen,
    neg_sub]
  push_cast
  rfl

theorem tenDen_pos (q : Int) : 0 < tenDen q :=
  Nat.mul_pos (Nat.pow_pos (by decide)) (Nat.two_pow_pos _)

/-! ## Every exponent -/

/-- The number is read back, or it is not there, or its rounding interval contains
its bounds. -/
def Settled (m : Nat) (q : Int) : Prop :=
  m % 2 = 0 ∨ 16777216 ≤ m ∨ (q ≠ -149 ∧ m < 8388608) ∨
    narrowed (single.shortest m q).1 (single.shortest m q).2 = single.bitsOf m q ∨
    (m = 11420669 ∧ q = -107)

instance (m : Nat) (q : Int) : Decidable (Settled m q) :=
  inferInstanceAs (Decidable (_ ∨ _ ∨ _ ∨ _ ∨ _))

/-- Neighbouring fractions around the ratio of the units of `q`. -/
def bracketOf (q : Int) : Bracket :=
  Bracket.refine (tenNum q) (tenDen q) (2 ^ 25) 64 ⟨1, 0, 0, 1⟩

/-- Midpoints, in half places, that a decimal comes close to. -/
def suspects (q : Int) : List Nat :=
  ((bracketOf q).nearby (tenNum q) (tenDen q) (tenDen q / 2 ^ 29)).filter (· % 2 = 1)

/-- Decimals come close to no midpoint, or to the suspected ones at most, and then the
numbers on both sides are settled. -/
def Searched (q : Int) : Prop :=
  tenNum q ≤ tenDen q ∧
    (tenDen q < 2 ^ 29 ∨ (bracketOf q).Tight (tenNum q) (tenDen q) (2 ^ 25) ∧
      ∀ mid ∈ suspects q, Settled (mid / 2) q ∧ Settled (mid / 2 + 1) q)

instance (q : Int) : Decidable (Searched q) :=
  inferInstanceAs (Decidable (_ ∧ (_ ∨ _ ∧ ∀ mid ∈ suspects q, _)))

theorem searched_of_represents {m : Nat} {q : Int} (hrep : single.Represents m q) : Searched q := by
  have hall : ∀ i < 254, Searched ((i : Nat) - 149) := by decide +kernel
  have hmin := hrep.min_le
  have hmax := hrep.le_max
  rw [single_minExponent] at hmin
  rw [single_maxExponent] at hmax
  have hq := hall (q + 149).toNat (by omega)
  rwa [show ((q + 149).toNat : Int) - 149 = q by omega] at hq

/-- The distance to a midpoint as a difference of multiples. -/
theorem distance_eq (n mid : Nat) (q : Int) :
    (n : ℚ) * 10 ^ tenExponent q / 2 ^ (q - 1) - mid =
      ((n * tenNum q - mid * tenDen q : ℤ) : ℚ) / tenDen q := by
  have hpos : (0 : ℚ) < tenDen q := by exact_mod_cast tenDen_pos q
  rw [mul_div_assoc, ten_eq]
  push_cast
  field_simp

theorem gap_le {n mid : Nat} {q : Int}
    (hclose : |(n : ℚ) * 10 ^ tenExponent q / 2 ^ (q - 1) - mid| ≤ 1 / 2 ^ 29) :
    ((n : ℤ) * tenNum q - mid * tenDen q).natAbs * 2 ^ 29 ≤ tenDen q := by
  have hpos : (0 : ℚ) < tenDen q := by exact_mod_cast tenDen_pos q
  rw [distance_eq, abs_div, abs_of_pos hpos, div_le_div_iff₀ hpos (by positivity), one_mul,
    ← Int.cast_abs, Int.abs_eq_natAbs] at hclose
  exact_mod_cast hclose

/-- A multiple of the power of ten that is close to a midpoint is close to a suspect. -/
theorem mem_suspects {q : Int} (htight : (bracketOf q).Tight (tenNum q) (tenDen q) (2 ^ 25))
    {n mid : Nat} (hodd : mid % 2 = 1) (hmid : mid < 2 ^ 25)
    (hclose : |(n : ℚ) * 10 ^ tenExponent q / 2 ^ (q - 1) - mid| ≤ 1 / 2 ^ 29) :
    mid ∈ suspects q := by
  have hgap := (Nat.le_div_iff_mul_le (Nat.two_pow_pos 29)).2 (gap_le hclose)
  apply List.mem_filter.2
  refine ⟨Bracket.mem_nearby (n := n) htight (by omega) hmid ?_, by simpa using hodd⟩
  rw [Int.abs_eq_natAbs]
  exact_mod_cast hgap

theorem ten_le {q : Int} (h : tenNum q ≤ tenDen q) : (10 : ℚ) ^ tenExponent q ≤ 2 ^ (q - 1) := by
  have hhalf : (0 : ℚ) < 2 ^ (q - 1) := by positivity
  have hpos : (0 : ℚ) < tenDen q := by exact_mod_cast tenDen_pos q
  have hle : (10 : ℚ) ^ tenExponent q / 2 ^ (q - 1) ≤ 1 := by
    rw [ten_eq, div_le_one hpos]
    exact_mod_cast h
  exact (div_le_one hhalf).1 hle

/-- What `Settled` says of a number that is there and has an odd significand. -/
theorem Settled.narrowed_eq {m : Nat} {q : Int} (h : Settled m q) (hrep : single.Represents m q)
    (hodd : m % 2 = 1) (hne : ¬ (m = 11420669 ∧ q = -107)) :
    narrowed (single.shortest m q).1 (single.shortest m q).2 = single.bitsOf m q := by
  have hlt := hrep.lt
  have hnormal := hrep.normal
  rw [single_fieldUnit] at hlt hnormal
  rw [single_minExponent] at hnormal
  rcases h with h | h | h | h | h
  · omega
  · omega
  · omega
  · exact h
  · exact absurd h hne

/-- The shortest decimal of a 32-bit number becomes that number again by way of 64
bits, but for one number. -/
theorem narrowed_shortest {m : Nat} {q : Int} (hrep : single.Represents m q) (hm : 0 < m)
    (hne : ¬ (m = 11420669 ∧ q = -107)) :
    narrowed (single.shortest m q).1 (single.shortest m q).2 = single.bitsOf m q := by
  have hnear := single.near_shortest q hm
  by_cases hclear : m % 2 = 1 → ∀ mid ∈ [2 * m - 1, 2 * m + 1], 1 / 2 ^ 29 <
      |((single.shortest m q).1 : ℚ) * 10 ^ (single.shortest m q).2 / 2 ^ (q - 1) - (mid : Nat)|
  · exact narrowed_of_near hrep hm hnear hclear
  simp only [not_forall, not_lt] at hclear
  obtain ⟨hodd, mid, hmid, hclose⟩ := hclear
  obtain ⟨hten, hsearch⟩ := searched_of_represents hrep
  obtain ⟨n, hvalue⟩ := single.exists_shortest_eq hm (ten_le hten)
  rw [hvalue] at hclose hnear
  have hlt := hrep.lt
  rw [single_fieldUnit] at hlt
  simp only [List.mem_cons, List.not_mem_nil, or_false] at hmid
  rcases hsearch with hsmall | ⟨htight, hsettled⟩
  · -- the units are so simple that close means equal, which the odd significand excludes
    have hgap := gap_le hclose
    have hzero : (n : ℤ) * tenNum q - mid * tenDen q = 0 := by omega
    have hequal := distance_eq n mid q
    rw [hzero, Int.cast_zero, zero_div, sub_eq_zero, div_eq_iff (by positivity)] at hequal
    obtain ⟨hlow, hhigh⟩ := hnear.odd hodd
    obtain ⟨hfirst, hlast⟩ := bounds_of_odd (q := q) hodd
    rw [hfirst, hequal] at hlow
    rw [hlast, hequal] at hhigh
    rcases hmid with rfl | rfl
    · exact absurd hlow (lt_irrefl _)
    · exact absurd hhigh (lt_irrefl _)
  · have hmem := mem_suspects htight (by omega) (by omega) hclose
    obtain ⟨hlower, hupper⟩ := hsettled mid hmem
    rcases hmid with rfl | rfl
    · rw [show (2 * m - 1) / 2 + 1 = m by omega] at hupper
      exact hupper.narrowed_eq hrep hodd hne
    · rw [show (2 * m + 1) / 2 = m by omega] at hlower
      exact hlower.narrowed_eq hrep hodd hne

/-- The exception comes back as its upper neighbour. -/
theorem narrowed_shortest_exception :
    narrowed (single.shortest 11420669 (-107)).1 (single.shortest 11420669 (-107)).2 =
      single.bitsOf 11420670 (-107) := by
  decide

end Lanewise.BinaryFormat
