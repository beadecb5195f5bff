import Lanewise.Proofs.Shortest

/-!
# Decimals read as 64-bit numbers and narrowed

A decimal that is meant for a 32-bit number is rounded twice, first to 64 bits.
The bounds of the 32-bit rounding intervals are 64-bit numbers, so the first
rounding does not leave the interval; it can only reach a bound. That matters
where the bound belongs to the neighbour, and happens only when the decimal is
within `2 ^ -29` half places of the bound (`narrowed_of_near`).
-/

namespace Lanewise.BinaryFormat

/-! ## Signs -/

theorem ofDecimal_le_infinity (fmt : BinaryFormat) (n : Nat) (e : Int) :
    fmt.ofDecimal n e ≤ fmt.infinity := by
  have hratio (num den : Nat) : fmt.roundRatio num den ≤ fmt.infinity := by
    unfold roundRatio
    split
    · exact Nat.zero_le _
    · exact Nat.min_le_right _ _
  unfold ofDecimal
  dsimp only
  split
  · exact Nat.zero_le _
  split
  · exact le_refl _
  split
  · exact Nat.zero_le _
  split
  · exact hratio _ _
  · exact hratio _ _

/-- Conversion keeps the sign. -/
theorem convert_withSign (source target : BinaryFormat) (negative : Bool) {bits : Nat}
    (h : bits < source.signUnit) :
    source.convert target (source.withSign negative bits) =
      target.withSign negative (source.convert target bits) := by
  have hplain := source.decode_withSign false h
  have hsigned := source.decode_withSign negative h
  rw [withSign, if_neg Bool.false_ne_true] at hplain
  rw [convert, convert, hplain, hsigned]
  split_ifs <;> rfl

theorem convert_bitsOf {source target : BinaryFormat} (hproper : source.Proper) {m : Nat}
    {q : Int} (hrep : source.Represents m q) :
    source.convert target (source.bitsOf m q) = target.roundBinary m q := by
  have hdecode := decode_bitsOf hproper false hrep
  rw [withSign, if_neg Bool.false_ne_true] at hdecode
  rw [convert, hdecode]
  rfl

/-! ## Two roundings -/

theorem single_minExponent : single.minExponent = -149 :=
  rfl

theorem single_maxExponent : single.maxExponent = 104 := by
  decide

theorem single_fieldUnit : single.fieldUnit = 8388608 :=
  rfl

theorem double_minExponent : double.minExponent = -1074 :=
  rfl

theorem double_maxExponent : double.maxExponent = 971 := by
  decide

theorem double_fieldUnit : double.fieldUnit = 4503599627370496 :=
  rfl

/-- Bits of the 32-bit number that a decimal becomes by way of 64 bits. -/
def narrowed (n : Nat) (e : Int) : Nat :=
  double.convert single (double.ofDecimal n e)

section Narrowing

variable {m : Nat} {q : Int} {v : ℚ}

/-- 32-bit numbers are far inside the range of 64-bit ones. -/
theorem lt_of_single (h : single.InRange v) : v < double.fieldUnit * 2 ^ double.maxExponent := by
  have hhigh := h.high
  rw [single_fieldUnit, single_maxExponent] at hhigh
  rw [double_fieldUnit, double_maxExponent]
  have hplace : (2 : ℚ) ^ (104 : Int) ≤ 2 ^ (971 : Int) :=
    zpow_le_zpow_right₀ (by norm_num) (by norm_num)
  have hpos : (0 : ℚ) < 2 ^ (104 : Int) := by positivity
  generalize (2 : ℚ) ^ (971 : Int) = top at hplace ⊢
  generalize (2 : ℚ) ^ (104 : Int) = largest at hhigh hplace hpos
  push_cast at hhigh ⊢
  linarith

theorem double_inRange (h : single.InRange v) : double.InRange v := by
  constructor
  · have hlow := h.low
    rw [single_minExponent] at hlow
    rw [double_minExponent]
    exact (zpow_le_zpow_right₀ (by norm_num) (by norm_num)).trans hlow
  · have hhigh := lt_of_single h
    have hunit : (0 : ℚ) < double.fieldUnit := by exact_mod_cast double.fieldUnit_pos
    have hpos : (0 : ℚ) < double.fieldUnit * 2 ^ double.maxExponent := by positivity
    rw [mul_assoc]
    linarith

/-- The last place of a 64-bit number is 29 binary places finer at least. -/
theorem lastPlace_le (hrep : single.Represents m q) (hm : 0 < m) (hnear : single.Near m q v)
    {place : Int} (hplace : double.LastPlace v place) : place ≤ q - 29 := by
  have hmin := hrep.min_le
  rw [single_minExponent] at hmin
  rcases hplace.normal with heq | hnormal
  · rw [heq, double_minExponent]
    omega
  · have hlt := hnormal.trans_lt (hnear.lt hm hrep.lt)
    rw [double_fieldUnit, single_fieldUnit] at hlt
    have hlt : (2 : ℚ) ^ (52 + place) < 2 ^ (24 + q) := by
      rw [zpow_add₀ (by norm_num), zpow_add₀ (by norm_num)]
      norm_num at hlt ⊢
      linarith
    have := (zpow_lt_zpow_iff_right₀ (by norm_num)).1 hlt
    omega

/-- The bounds of a rounding interval are multiples of a finer place. -/
theorem exists_multiple {place : Int} (hplace : place ≤ q - 2) (k : Nat) :
    ∃ n : Nat, (k : ℚ) * 2 ^ (q - 2) = n * 2 ^ place := by
  obtain ⟨d, hd⟩ := Int.eq_ofNat_of_zero_le (show 0 ≤ q - 2 - place by omega)
  refine ⟨k * 2 ^ d, ?_⟩
  rw [show q - 2 = d + place by omega, zpow_add₀ (by norm_num), zpow_natCast]
  push_cast
  ring

/-- The rounding interval of an odd significand ends at two odd multiples of half
the last place. -/
theorem bounds_of_odd (hodd : m % 2 = 1) :
    ((4 * m - single.below m q : Nat) : ℚ) * 2 ^ (q - 2) = (2 * m - 1 : Nat) * 2 ^ (q - 1) ∧
      ((4 * m + 2 : Nat) : ℚ) * 2 ^ (q - 2) = (2 * m + 1 : Nat) * 2 ^ (q - 1) := by
  have hunit := fieldUnit_even single_proper
  have hbelow : single.below m q = 2 := by
    rw [below, if_neg]
    rintro ⟨rfl, -⟩
    omega
  have hhalf := two_zpow (q - 1)
  rw [show q - 1 - 1 = q - 2 by ring] at hhalf
  rw [hbelow, hhalf, Nat.cast_sub (by omega), Nat.cast_sub (by omega)]
  push_cast
  constructor <;> ring

/-- What is rounded to a midpoint is close to it. -/
theorem close_of_midpoint {place : Int} (hplace : place ≤ q - 29) {k mid : Nat}
    (hk : Nearest (v / 2 ^ place) k) (hmid : (k : ℚ) * 2 ^ place = mid * 2 ^ (q - 1)) :
    |v / 2 ^ (q - 1) - mid| ≤ 1 / 2 ^ 29 := by
  have hpos : (0 : ℚ) < 2 ^ place := by positivity
  have hhalf : (0 : ℚ) < 2 ^ (q - 1) := by positivity
  have hlow := (le_div_iff₀ hpos).1 hk.low
  have hhigh := (div_le_iff₀ hpos).1 hk.high
  have hfine : (2 : ℚ) ^ place ≤ 2 / 2 ^ 29 * 2 ^ (q - 1) := by
    calc (2 : ℚ) ^ place ≤ 2 ^ (q - 29) := zpow_le_zpow_right₀ (by norm_num) hplace
      _ = 2 / 2 ^ 29 * 2 ^ (q - 1) := by
        rw [show q - 29 = q - 1 + -28 by ring, zpow_add₀ (by norm_num)]
        norm_num
        ring
  have hdistance : v / 2 ^ (q - 1) - mid = (v - mid * 2 ^ (q - 1)) / 2 ^ (q - 1) := by
    field_simp
  rw [hdistance, abs_div, abs_of_pos hhalf, div_le_iff₀ hhalf, abs_le]
  constructor <;> linarith

/-- Rounding to a finer place does not leave the rounding interval of a number, if what
is rounded is not very close to a bound that belongs to a neighbour. -/
theorem near_of_nearest {place : Int} (hplace : place ≤ q - 29) {k : Nat}
    (hk : Nearest (v / 2 ^ place) k) (hnear : single.Near m q v)
    (hclear : m % 2 = 1 → ∀ mid ∈ [2 * m - 1, 2 * m + 1],
      1 / 2 ^ 29 < |v / 2 ^ (q - 1) - (mid : Nat)|) :
    single.Near m q (k * 2 ^ place) := by
  have hpos : (0 : ℚ) < 2 ^ place := by positivity
  have hlow : ((4 * m - single.below m q : Nat) : ℚ) * 2 ^ (q - 2) ≤ k * 2 ^ place := by
    obtain ⟨low, hlow⟩ := exists_multiple (show place ≤ q - 2 by omega) (4 * m - single.below m q)
    have hle := hk.le_of_le ((le_div_iff₀ hpos).2 (hlow ▸ hnear.low))
    have hle : (low : ℚ) ≤ k := by exact_mod_cast hle
    rw [hlow]
    exact mul_le_mul_of_nonneg_right hle hpos.le
  have hhigh : (k : ℚ) * 2 ^ place ≤ ((4 * m + 2 : Nat) : ℚ) * 2 ^ (q - 2) := by
    obtain ⟨high, hhigh⟩ := exists_multiple (show place ≤ q - 2 by omega) (4 * m + 2)
    have hle := hk.ge_of_ge ((div_le_iff₀ hpos).2 (hhigh ▸ hnear.high))
    have hle : (k : ℚ) ≤ high := by exact_mod_cast hle
    rw [hhigh]
    exact mul_le_mul_of_nonneg_right hle hpos.le
  refine ⟨hlow, hhigh, fun hodd => ?_⟩
  -- for an odd significand the rounding would have to reach a bound
  obtain ⟨hfirst, hlast⟩ := bounds_of_odd (q := q) hodd
  have hfar := hclear hodd
  constructor
  · apply lt_of_le_of_ne hlow
    intro heq
    have hclose := close_of_midpoint hplace hk (by rw [← heq, hfirst])
    exact absurd (hfar _ (.head _)) (not_lt.2 hclose)
  · apply lt_of_le_of_ne hhigh
    intro heq
    have hclose := close_of_midpoint hplace hk (by rw [heq, hlast])
    exact absurd (hfar _ (.tail _ (.head _))) (not_lt.2 hclose)

/-- A decimal in the rounding interval of a 32-bit number becomes that number, if it
is not very close to a bound that belongs to a neighbour. -/
theorem narrowed_of_near (hrep : single.Represents m q) (hm : 0 < m) {n : Nat} {e : Int}
    (hnear : single.Near m q (n * 10 ^ e))
    (hclear : m % 2 = 1 → ∀ mid ∈ [2 * m - 1, 2 * m + 1],
      1 / 2 ^ 29 < |(n : ℚ) * 10 ^ e / 2 ^ (q - 1) - (mid : Nat)|) :
    narrowed n e = single.bitsOf m q := by
  have hn : 0 < n := by exact_mod_cast pos_of_mul_pos_left (hnear.pos hm) (by positivity)
  have hrange := hnear.inRange hrep hm
  obtain ⟨num, den, hnum, hden, hvalue, hread⟩ :=
    exists_ofDecimal double_proper hn (double_inRange hrange)
  have hfinite := lt_of_single hrange
  rw [← hvalue] at hfinite
  obtain ⟨m', q', k, place, hrep', hbits, hplace, hk, hround⟩ :=
    exists_roundRatio double_proper hnum hden hfinite
  rw [hvalue] at hplace hk
  have hrounded : single.Near m q (m' * 2 ^ q') := by
    rw [hround]
    exact near_of_nearest (lastPlace_le hrep hm hnear hplace) hk hnear hclear
  have hm' : 0 < m' := by exact_mod_cast pos_of_mul_pos_left (hrounded.pos hm) (by positivity)
  obtain ⟨num', den', hnum', hden', hvalue', hnarrow⟩ := exists_roundBinary single hm' q'
  rw [narrowed, hread, hbits, convert_bitsOf double_proper hrep', hnarrow]
  exact roundRatio_of_near single_proper hrep hm hnum' hden' (hvalue' ▸ hrounded)

/-- Which decimal is written for a number does not matter. -/
theorem narrowed_congr {n n' : Nat} {e e' : Int} (hn : 0 < n)
    (hrange : single.InRange (n * 10 ^ e)) (h : (n : ℚ) * 10 ^ e = n' * 10 ^ e') :
    narrowed n e = narrowed n' e' := by
  rw [narrowed, narrowed, ofDecimal_congr double_proper hn (double_inRange hrange) h]

end Narrowing

end Lanewise.BinaryFormat
