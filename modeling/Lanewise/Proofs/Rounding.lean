import Mathlib
import Lanewise.Number.Decimal

/-!
# Rounding to a binary format

What the nearest bits are, in terms of the rational number alone. A number has
one exponent for its last place (`LastPlace.unique`) and one nearest multiple of
that place, so every number in the rounding interval of a significand and an
exponent has their bits (`roundRatio_of_near`), and in any case rounding does
not pass a multiple of the last place (`exists_roundRatio`). Reading a decimal
is rounding the number it stands for (`exists_ofDecimal`).
-/

namespace Lanewise.BinaryFormat

/-! ## The nearest natural number -/

/-- The natural number is nearest to `x`, and an odd one is alone so. -/
structure Nearest (x : ℚ) (n : Nat) : Prop where
  low : (n : ℚ) - 1 / 2 ≤ x
  high : x ≤ n + 1 / 2
  odd : n % 2 = 1 → (n : ℚ) - 1 / 2 < x ∧ x < n + 1 / 2

namespace Nearest

variable {x : ℚ} {m n : Nat}

theorem not_lt (hm : Nearest x m) (hn : Nearest x n) : ¬ m < n := by
  intro hlt
  have hnext : (m : ℚ) + 1 ≤ n := by exact_mod_cast hlt
  have hhigh := hm.high
  have hlow := hn.low
  -- both are a half away, so they are neighbours and one of them is odd
  have hsame : n = m + 1 := by
    have hle : (n : ℚ) ≤ m + 1 := by linarith
    have hle : n ≤ m + 1 := by exact_mod_cast hle
    omega
  rcases Nat.mod_two_eq_zero_or_one m with heven | hodd
  · have hstrict := (hn.odd (by omega)).1
    linarith
  · have hstrict := (hm.odd hodd).2
    linarith

theorem unique (hm : Nearest x m) (hn : Nearest x n) : m = n :=
  Nat.le_antisymm (Nat.le_of_not_lt (hn.not_lt hm)) (Nat.le_of_not_lt (hm.not_lt hn))

/-- Rounding does not pass a natural number. -/
theorem le_of_le {k : Nat} (hn : Nearest x n) (hk : (k : ℚ) ≤ x) : k ≤ n := by
  have hhigh := hn.high
  have hlt : (k : ℚ) < n + 1 := by linarith
  have hlt : k < n + 1 := by exact_mod_cast hlt
  omega

theorem ge_of_ge {k : Nat} (hn : Nearest x n) (hk : x ≤ k) : n ≤ k := by
  have hlow := hn.low
  have hlt : (n : ℚ) < k + 1 := by linarith
  have hlt : n < k + 1 := by exact_mod_cast hlt
  omega

end Nearest

/-- Whether a fraction reaches a half. -/
theorem half_le_div_iff (num : Nat) {den : Nat} (hden : 0 < den) :
    (1 : ℚ) / 2 ≤ num / den ↔ den ≤ 2 * num := by
  have hcast : (0 : ℚ) < den := by exact_mod_cast hden
  rw [div_le_div_iff₀ two_pos hcast, one_mul, mul_comm]
  exact_mod_cast Iff.rfl

/-- Whether a fraction passes a half. -/
theorem half_lt_div_iff (num : Nat) {den : Nat} (hden : 0 < den) :
    (1 : ℚ) / 2 < num / den ↔ den < 2 * num := by
  have hcast : (0 : ℚ) < den := by exact_mod_cast hden
  rw [div_lt_div_iff₀ two_pos hcast, one_mul, mul_comm]
  exact_mod_cast Iff.rfl

theorem nearest_roundDiv (num : Nat) {den : Nat} (hden : 0 < den) :
    Nearest ((num : ℚ) / den) (roundDiv num den) := by
  have hcast : (0 : ℚ) < den := by exact_mod_cast hden
  have hsplit := Nat.div_add_mod num den
  have hmod := Nat.mod_lt num hden
  unfold roundDiv
  generalize num / den = quotient at hsplit
  generalize num % den = remainder at hsplit hmod
  subst hsplit
  have hvalue : ((den * quotient + remainder : Nat) : ℚ) / den = quotient + remainder / den := by
    push_cast
    field_simp
  have hless : (remainder : ℚ) / den < 1 := by
    rw [div_lt_one hcast]
    exact_mod_cast hmod
  have hnonneg : (0 : ℚ) ≤ remainder / den := by positivity
  rw [hvalue]
  dsimp only
  split
  · next hup =>
    have hhalf := (half_le_div_iff remainder hden).2 (by omega)
    refine ⟨?_, ?_, fun hodd => ?_⟩
    · push_cast
      linarith
    · push_cast
      linarith
    · have hstrict := (half_lt_div_iff remainder hden).2 (by omega)
      push_cast
      constructor <;> linarith
  · next hdown =>
    have hhalf := not_lt.1 (mt (half_lt_div_iff remainder hden).1 (by omega))
    refine ⟨by linarith, by linarith, fun hodd => ?_⟩
    have hstrict := not_le.1 (mt (half_le_div_iff remainder hden).1 (by omega))
    constructor <;> linarith

/-! ## The exponent of the last place -/

theorem scale_eq (num den : Nat) (q : Int) :
    ((scale num den q).1 : ℚ) / (scale num den q).2 = num / den / 2 ^ q := by
  unfold scale
  split
  · next h =>
    obtain ⟨k, rfl⟩ := Int.eq_ofNat_of_zero_le h
    simp [div_div]
  · next h =>
    obtain ⟨k, hk⟩ := Int.eq_ofNat_of_zero_le (show 0 ≤ -q by omega)
    obtain rfl : q = -(k : Int) := by omega
    simp
    ring

theorem scale_pos (num : Nat) {den : Nat} (hden : 0 < den) (q : Int) : 0 < (scale num den q).2 := by
  unfold scale
  split
  · exact Nat.mul_pos hden (Nat.two_pow_pos _)
  · exact hden

theorem two_zpow (q : Int) : (2 : ℚ) ^ q = 2 * 2 ^ (q - 1) := by
  rw [zpow_sub_one₀ (by norm_num)]
  ring

/-- Formats with a fraction and with normal numbers. -/
structure Proper (fmt : BinaryFormat) : Prop where
  precision : 2 ≤ fmt.precision
  exponentBits : 2 ≤ fmt.exponentBits

theorem double_proper : double.Proper :=
  ⟨by decide, by decide⟩

theorem single_proper : single.Proper :=
  ⟨by decide, by decide⟩

theorem fieldUnit_pos (fmt : BinaryFormat) : 0 < fmt.fieldUnit :=
  Nat.two_pow_pos _

variable {fmt : BinaryFormat}

theorem fieldUnit_even (h : fmt.Proper) : fmt.fieldUnit % 2 = 0 := by
  have hprecision := h.precision
  obtain ⟨k, hk⟩ : ∃ k, fmt.precision - 1 = k + 1 := ⟨fmt.precision - 2, by omega⟩
  rw [fieldUnit, hk, Nat.pow_eq, Nat.pow_succ]
  exact Nat.mul_mod_left _ _

theorem pow_precision (h : fmt.Proper) : Nat.pow 2 fmt.precision = 2 * fmt.fieldUnit := by
  have hprecision := h.precision
  obtain ⟨k, hk⟩ : ∃ k, fmt.precision = k + 1 := ⟨fmt.precision - 1, by omega⟩
  rw [fieldUnit, hk, Nat.pow_eq, Nat.pow_eq, Nat.pow_succ, Nat.add_sub_cancel, Nat.mul_comm]

/-- The last place of a number `v` counts `2 ^ q`. -/
structure LastPlace (fmt : BinaryFormat) (v : ℚ) (q : Int) : Prop where
  min_le : fmt.minExponent ≤ q
  lt : v < 2 * fmt.fieldUnit * 2 ^ q
  normal : q = fmt.minExponent ∨ fmt.fieldUnit * (2 : ℚ) ^ q ≤ v

theorem LastPlace.not_lt {v : ℚ} {q r : Int} (hq : fmt.LastPlace v q) (hr : fmt.LastPlace v r) :
    ¬ q < r := by
  intro hlt
  have hnormal := hr.normal.resolve_left (by have := hq.min_le; omega)
  have hpow : (2 : ℚ) ^ (q + 1) ≤ 2 ^ r := zpow_le_zpow_right₀ (by norm_num) hlt
  have hunit : (0 : ℚ) < fmt.fieldUnit := by exact_mod_cast fmt.fieldUnit_pos
  have hscaled := mul_le_mul_of_nonneg_left hpow hunit.le
  rw [zpow_add_one₀ (by norm_num)] at hscaled
  have hhigh := hq.lt
  linarith

theorem LastPlace.unique {v : ℚ} {q r : Int} (hq : fmt.LastPlace v q)
    (hr : fmt.LastPlace v r) : q = r :=
  Int.le_antisymm (Int.le_of_not_gt (hr.not_lt hq)) (Int.le_of_not_gt (hq.not_lt hr))

/-- Bounds of a fraction by the numbers of binary digits. -/
theorem log2_bounds {num den : Nat} (hnum : 0 < num) (hden : 0 < den) :
    (2 : ℚ) ^ ((num.log2 : Int) - den.log2 - 1) < num / den ∧
      (num : ℚ) / den < 2 ^ ((num.log2 : Int) - den.log2 + 1) := by
  have hcast : (0 : ℚ) < den := by exact_mod_cast hden
  have hnumLow : (2 : ℚ) ^ (num.log2 : Int) ≤ num := by
    rw [zpow_natCast]
    exact_mod_cast Nat.log2_self_le hnum.ne'
  have hnumHigh : (num : ℚ) < 2 ^ ((num.log2 : Int) + 1) := by
    rw [← Nat.cast_succ, zpow_natCast]
    exact_mod_cast Nat.lt_log2_self
  have hdenLow : (2 : ℚ) ^ (den.log2 : Int) ≤ den := by
    rw [zpow_natCast]
    exact_mod_cast Nat.log2_self_le hden.ne'
  have hdenHigh : (den : ℚ) < 2 ^ ((den.log2 : Int) + 1) := by
    rw [← Nat.cast_succ, zpow_natCast]
    exact_mod_cast Nat.lt_log2_self
  constructor
  · rw [lt_div_iff₀ hcast]
    calc (2 : ℚ) ^ ((num.log2 : Int) - den.log2 - 1) * den
        < 2 ^ ((num.log2 : Int) - den.log2 - 1) * 2 ^ ((den.log2 : Int) + 1) := by gcongr
      _ = 2 ^ (num.log2 : Int) := by
        rw [← zpow_add₀ (by norm_num)]
        congr 1
        ring
      _ ≤ num := hnumLow
  · rw [div_lt_iff₀ hcast]
    calc (num : ℚ) < 2 ^ ((num.log2 : Int) + 1) := hnumHigh
      _ = 2 ^ ((num.log2 : Int) - den.log2 + 1) * 2 ^ (den.log2 : Int) := by
        rw [← zpow_add₀ (by norm_num)]
        congr 1
        ring
      _ ≤ 2 ^ ((num.log2 : Int) - den.log2 + 1) * den := by gcongr

/-- `num / den` reaches a power of two in units of `2 ^ q` when the whole part of
its quotient does. -/
theorem pow_le_scale_iff {num den : Nat} (hden : 0 < den) (q : Int) (k : Nat) :
    k ≤ (scale num den q).1 / (scale num den q).2 ↔ k * (2 : ℚ) ^ q ≤ num / den := by
  have hpos : (0 : ℚ) < (scale num den q).2 := by exact_mod_cast scale_pos num hden q
  rw [Nat.le_div_iff_mul_le (scale_pos num hden q), ← le_div_iff₀ (by positivity), ← scale_eq,
    le_div_iff₀ hpos]
  exact_mod_cast Iff.rfl

theorem lastPlace_exponentFor (hproper : fmt.Proper) {num den : Nat} (hnum : 0 < num)
    (hden : 0 < den) : fmt.LastPlace (num / den) (fmt.exponentFor num den) := by
  obtain ⟨hlow, hhigh⟩ := log2_bounds hnum hden
  have hunit : (2 : ℚ) * fmt.fieldUnit = 2 ^ (fmt.precision : Int) := by
    rw [zpow_natCast]
    exact_mod_cast (pow_precision hproper).symm
  unfold exponentFor
  generalize hestimate : max ((num.log2 : Int) - den.log2 - fmt.precision) fmt.minExponent =
    estimate
  have hmin : fmt.minExponent ≤ estimate := hestimate ▸ le_max_right _ _
  have hbelow : (num.log2 : Int) - den.log2 ≤ fmt.precision + estimate := by
    have := le_max_left ((num.log2 : Int) - den.log2 - fmt.precision) fmt.minExponent
    omega
  have hupper : (num : ℚ) / den < 2 * fmt.fieldUnit * 2 ^ (estimate + 1) := by
    rw [hunit, ← zpow_add₀ (by norm_num)]
    exact hhigh.trans_le (zpow_le_zpow_right₀ (by norm_num) (by omega))
  dsimp only
  split
  · next hreached =>
    rw [pow_precision hproper, pow_le_scale_iff hden] at hreached
    push_cast at hreached
    refine ⟨by omega, hupper, .inr ?_⟩
    rw [zpow_add_one₀ (by norm_num)]
    linarith
  · next hreached =>
    rw [pow_precision hproper, pow_le_scale_iff hden] at hreached
    push_cast at hreached
    refine ⟨hmin, not_le.1 hreached, ?_⟩
    by_cases heq : estimate = fmt.minExponent
    · exact .inl heq
    · right
      have hexact : estimate = (num.log2 : Int) - den.log2 - fmt.precision := by
        have := max_choice ((num.log2 : Int) - den.log2 - fmt.precision) fmt.minExponent
        omega
      have hhalf : (fmt.fieldUnit : ℚ) * 2 ^ estimate =
          2 ^ ((num.log2 : Int) - den.log2 - 1) := by
        have hsum : (num.log2 : Int) - den.log2 - 1 = fmt.precision + estimate - 1 := by omega
        rw [hsum, zpow_sub_one₀ (by norm_num), zpow_add₀ (by norm_num), ← hunit]
        ring
      rw [hhalf]
      exact hlow.le

/-! ## Significands and exponents -/

/-- The largest exponent of a last place. -/
def maxExponent (fmt : BinaryFormat) : Int :=
  fmt.minExponent + Nat.pow 2 fmt.exponentBits - 3

/-- The format has the number `m * 2 ^ q`, with this significand and exponent. -/
structure Represents (fmt : BinaryFormat) (m : Nat) (q : Int) : Prop where
  lt : m < 2 * fmt.fieldUnit
  min_le : fmt.minExponent ≤ q
  le_max : q ≤ fmt.maxExponent
  normal : q = fmt.minExponent ∨ fmt.fieldUnit ≤ m

/-- The bits of `m * 2 ^ q`, without sign. -/
def bitsOf (fmt : BinaryFormat) (m : Nat) (q : Int) : Nat :=
  (q - fmt.minExponent).toNat * fmt.fieldUnit + m

/-- How far the rounding interval reaches down, in quarters of the last place: two,
or one where the numbers below lie closer together. -/
def below (fmt : BinaryFormat) (m : Nat) (q : Int) : Nat :=
  if m = fmt.fieldUnit ∧ fmt.minExponent < q then 1 else 2

/-- The number lies in the rounding interval of `m * 2 ^ q`, which is closed when
`m` is even. -/
structure Near (fmt : BinaryFormat) (m : Nat) (q : Int) (v : ℚ) : Prop where
  low : ((4 * m - fmt.below m q : Nat) : ℚ) * 2 ^ (q - 2) ≤ v
  high : v ≤ ((4 * m + 2 : Nat) : ℚ) * 2 ^ (q - 2)
  odd : m % 2 = 1 → ((4 * m - fmt.below m q : Nat) : ℚ) * 2 ^ (q - 2) < v ∧
    v < ((4 * m + 2 : Nat) : ℚ) * 2 ^ (q - 2)

theorem infinity_eq (hproper : fmt.Proper) :
    fmt.infinity = (fmt.maxExponent - fmt.minExponent).toNat * fmt.fieldUnit +
      2 * fmt.fieldUnit := by
  have hfield : 2 ^ 2 ≤ 2 ^ fmt.exponentBits :=
    Nat.pow_le_pow_right (by decide) hproper.exponentBits
  have hsum : Nat.pow 2 fmt.exponentBits - 1 =
      (fmt.maxExponent - fmt.minExponent).toNat + 2 := by
    rw [maxExponent, Nat.pow_eq]
    omega
  rw [infinity, hsum, Nat.add_mul]

theorem Represents.bitsOf_lt {m : Nat} {q : Int} (hproper : fmt.Proper)
    (h : fmt.Represents m q) : fmt.bitsOf m q < fmt.infinity := by
  have hlt := h.lt
  have hmax := h.le_max
  have hfield : (q - fmt.minExponent).toNat * fmt.fieldUnit ≤
      (fmt.maxExponent - fmt.minExponent).toNat * fmt.fieldUnit :=
    Nat.mul_le_mul_right _ (by omega)
  rw [infinity_eq hproper, bitsOf]
  omega

/-! ## Rounding -/

/-- Some multiple of a place is nearest. -/
theorem exists_nearest (num : Nat) {den : Nat} (hden : 0 < den) (q : Int) :
    ∃ n, Nearest ((num : ℚ) / den / 2 ^ q) n := by
  have hnearest := nearest_roundDiv (scale num den q).1 (scale_pos num hden q)
  rw [scale_eq] at hnearest
  exact ⟨_, hnearest⟩

/-- The bits from the exponent of the last place and the nearest multiple of it. -/
theorem roundRatio_eq (hproper : fmt.Proper) {num den : Nat} (hnum : 0 < num) (hden : 0 < den)
    {n : Nat} {q : Int} (hplace : fmt.LastPlace (num / den) q)
    (hnearest : Nearest (num / den / 2 ^ q) n) :
    fmt.roundRatio num den = min (fmt.bitsOf n q) fmt.infinity := by
  have hexponent : fmt.exponentFor num den = q :=
    (lastPlace_exponentFor hproper hnum hden).unique hplace
  have hround : roundDiv (scale num den q).1 (scale num den q).2 = n := by
    have hspec := nearest_roundDiv (scale num den q).1 (scale_pos num hden q)
    rw [scale_eq] at hspec
    exact hspec.unique hnearest
  rw [roundRatio, if_neg hnum.ne', hexponent]
  show min (_ + roundDiv (scale num den q).1 (scale num den q).2) _ = _
  rw [hround, bitsOf]

/-- Fractions of the same number have the same bits. -/
theorem roundRatio_congr (hproper : fmt.Proper) {num den num' den' : Nat} (hnum : 0 < num)
    (hden : 0 < den) (hnum' : 0 < num') (hden' : 0 < den')
    (h : (num : ℚ) / den = num' / den') : fmt.roundRatio num den = fmt.roundRatio num' den' := by
  have hplace := lastPlace_exponentFor hproper hnum hden
  obtain ⟨n, hn⟩ := exists_nearest num hden (fmt.exponentFor num den)
  rw [roundRatio_eq hproper hnum hden hplace hn]
  rw [h] at hplace hn
  rw [roundRatio_eq hproper hnum' hden' hplace hn]

/-- Twice the weight of the exponent field is the smallest significand one exponent
up. -/
theorem bitsOf_carry (fmt : BinaryFormat) {q : Int} (hq : fmt.minExponent < q) :
    fmt.bitsOf (2 * fmt.fieldUnit) (q - 1) = fmt.bitsOf fmt.fieldUnit q := by
  have hfield : (q - fmt.minExponent).toNat = (q - 1 - fmt.minExponent).toNat + 1 := by omega
  rw [bitsOf, bitsOf, hfield]
  ring

namespace Near

variable {m : Nat} {q : Int} {v : ℚ}

theorem below_pos (fmt : BinaryFormat) (m : Nat) (q : Int) :
    1 ≤ fmt.below m q ∧ fmt.below m q ≤ 2 := by
  unfold below
  split <;> decide

/-- The bounds in terms of the last place. -/
theorem bounds (hm : 0 < m) (h : fmt.Near m q v) :
    ((m : ℚ) - 1 / 2) * 2 ^ q ≤ v ∧ v ≤ (m + 1 / 2) * 2 ^ q ∧
      (m % 2 = 1 → ((m : ℚ) - 1 / 2) * 2 ^ q < v ∧ v < (m + 1 / 2) * 2 ^ q) := by
  have hplace : (2 : ℚ) ^ q = 4 * 2 ^ (q - 2) := by
    rw [two_zpow q, two_zpow (q - 1), sub_sub]
    ring_nf
  have hquarter : (0 : ℚ) < 2 ^ (q - 2) := by positivity
  have hbelow : ((m : ℚ) - 1 / 2) * 2 ^ q ≤ ((4 * m - fmt.below m q : Nat) : ℚ) * 2 ^ (q - 2) := by
    have hle := (below_pos fmt m q).2
    have hcast : ((fmt.below m q : Nat) : ℚ) ≤ 2 := by exact_mod_cast hle
    rw [hplace, Nat.cast_sub (by omega)]
    push_cast
    nlinarith
  have habove : ((4 * m + 2 : Nat) : ℚ) * 2 ^ (q - 2) = (m + 1 / 2) * 2 ^ q := by
    rw [hplace]
    push_cast
    ring
  refine ⟨hbelow.trans h.low, habove ▸ h.high, fun hodd => ?_⟩
  obtain ⟨hlow, hhigh⟩ := h.odd hodd
  exact ⟨hbelow.trans_lt hlow, habove ▸ hhigh⟩

/-- Where the last place is that of the significand, the significand is nearest. -/
theorem nearest (hm : 0 < m) (h : fmt.Near m q v) : Nearest (v / 2 ^ q) m := by
  have hpos : (0 : ℚ) < 2 ^ q := by positivity
  obtain ⟨hlow, hhigh, hodd⟩ := h.bounds hm
  refine ⟨(le_div_iff₀ hpos).2 hlow, (div_le_iff₀ hpos).2 hhigh, fun h1 => ?_⟩
  obtain ⟨hlow, hhigh⟩ := hodd h1
  exact ⟨(lt_div_iff₀ hpos).2 hlow, (div_lt_iff₀ hpos).2 hhigh⟩

theorem lt (hm : 0 < m) (hlt : m < 2 * fmt.fieldUnit) (h : fmt.Near m q v) :
    v < 2 * fmt.fieldUnit * 2 ^ q := by
  have hpos : (0 : ℚ) < 2 ^ q := by positivity
  have hcast : (m : ℚ) + 1 ≤ 2 * fmt.fieldUnit := by exact_mod_cast hlt
  have hhigh := (h.bounds hm).2.1
  nlinarith

/-- A value below the binade of its significand lies just below a power of two, which the
significand stands for. -/
theorem eq_fieldUnit (hrep : fmt.Represents m q) (hm : 0 < m) (hq : q ≠ fmt.minExponent)
    (hshort : v < fmt.fieldUnit * 2 ^ q) (h : fmt.Near m q v) : m = fmt.fieldUnit := by
  have hpos : (0 : ℚ) < 2 ^ q := by positivity
  have hlow := (h.bounds hm).1
  have hle := hrep.normal.resolve_left hq
  have hlt : ((m : ℚ) - 1 / 2) < fmt.fieldUnit := by
    by_contra hge
    have := mul_le_mul_of_nonneg_right (not_lt.1 hge) hpos.le
    linarith
  have hlt : (m : ℚ) < fmt.fieldUnit + 1 := by linarith
  have hlt : m < fmt.fieldUnit + 1 := by exact_mod_cast hlt
  omega

/-- Just below a power of two the last place is finer, and rounding carries. -/
theorem carries (hq : fmt.minExponent < q) (hshort : v < fmt.fieldUnit * 2 ^ q)
    (h : fmt.Near fmt.fieldUnit q v) :
    fmt.LastPlace v (q - 1) ∧ Nearest (v / 2 ^ (q - 1)) (2 * fmt.fieldUnit) := by
  have hbelow : fmt.below fmt.fieldUnit q = 1 := if_pos ⟨rfl, hq⟩
  have hunit := fmt.fieldUnit_pos
  have hone : (1 : ℚ) ≤ fmt.fieldUnit := by exact_mod_cast hunit
  have hhalf : (0 : ℚ) < 2 ^ (q - 1) := by positivity
  have hquarter : (2 : ℚ) ^ (q - 1) = 2 * 2 ^ (q - 2) := by
    rw [two_zpow (q - 1), sub_sub]
    norm_num
  have hlow : (2 * (fmt.fieldUnit : ℚ) - 1 / 2) * 2 ^ (q - 1) ≤ v := by
    have hlow := h.low
    rw [hbelow, Nat.cast_sub (by omega)] at hlow
    push_cast at hlow
    rw [hquarter]
    linarith
  rw [two_zpow q] at hshort
  refine ⟨⟨by omega, ?_, .inr ?_⟩, ?_, ?_, fun hodd => by omega⟩
  · linarith
  · nlinarith
  · push_cast
    exact (le_div_iff₀ hhalf).2 hlow
  · push_cast
    rw [div_le_iff₀ hhalf]
    nlinarith

end Near

/-- A number in the rounding interval of a significand and an exponent has their
bits. -/
theorem roundRatio_of_near (hproper : fmt.Proper) {m : Nat} {q : Int}
    (hrep : fmt.Represents m q) (hm : 0 < m) {num den : Nat} (hnum : 0 < num) (hden : 0 < den)
    (hnear : fmt.Near m q (num / den)) : fmt.roundRatio num den = fmt.bitsOf m q := by
  have hfinite := hrep.bitsOf_lt hproper
  by_cases hplace : q = fmt.minExponent ∨ fmt.fieldUnit * (2 : ℚ) ^ q ≤ num / den
  · rw [roundRatio_eq hproper hnum hden ⟨hrep.min_le, hnear.lt hm hrep.lt, hplace⟩
      (hnear.nearest hm)]
    exact Nat.min_eq_left hfinite.le
  · simp only [not_or, not_le] at hplace
    obtain ⟨hne, hshort⟩ := hplace
    have hq : fmt.minExponent < q := lt_of_le_of_ne hrep.min_le (Ne.symm hne)
    obtain rfl : m = fmt.fieldUnit := hnear.eq_fieldUnit hrep hm hne hshort
    obtain ⟨hfiner, hcarried⟩ := hnear.carries hq hshort
    rw [roundRatio_eq hproper hnum hden hfiner hcarried, fmt.bitsOf_carry hq]
    exact Nat.min_eq_left hfinite.le

theorem minExponent_lt_maxExponent (hproper : fmt.Proper) : fmt.minExponent < fmt.maxExponent := by
  have hfield : 2 ^ 2 ≤ 2 ^ fmt.exponentBits :=
    Nat.pow_le_pow_right (by decide) hproper.exponentBits
  rw [maxExponent, Nat.pow_eq]
  omega

/-- Below the largest numbers rounding gives a number of the format: the nearest
multiple of the last place. -/
theorem exists_roundRatio (hproper : fmt.Proper) {num den : Nat} (hnum : 0 < num) (hden : 0 < den)
    (hhigh : (num : ℚ) / den < fmt.fieldUnit * 2 ^ fmt.maxExponent) :
    ∃ m q n place, fmt.Represents m q ∧ fmt.roundRatio num den = fmt.bitsOf m q ∧
      fmt.LastPlace (num / den) place ∧ Nearest (num / den / 2 ^ place) n ∧
      (m : ℚ) * 2 ^ q = n * 2 ^ place := by
  obtain ⟨place, hplace⟩ : ∃ place, fmt.LastPlace (num / den) place :=
    ⟨_, lastPlace_exponentFor hproper hnum hden⟩
  obtain ⟨n, hn⟩ := exists_nearest num hden place
  have hpos : (0 : ℚ) < 2 ^ place := by positivity
  have hunit : (0 : ℚ) < fmt.fieldUnit := by exact_mod_cast fmt.fieldUnit_pos
  have hmax : place < fmt.maxExponent := by
    rcases hplace.normal with rfl | hnormal
    · exact minExponent_lt_maxExponent hproper
    · have hlt := lt_of_mul_lt_mul_left (hnormal.trans_lt hhigh) hunit.le
      exact (zpow_lt_zpow_iff_right₀ (by norm_num)).1 hlt
  have hle : n ≤ 2 * fmt.fieldUnit := by
    apply hn.ge_of_ge
    push_cast
    rw [div_le_iff₀ hpos]
    exact hplace.lt.le
  have hround := roundRatio_eq hproper hnum hden hplace hn
  by_cases hcarry : n = 2 * fmt.fieldUnit
  · have hrep : fmt.Represents fmt.fieldUnit (place + 1) := by
      have hmin := hplace.min_le
      have hpositive := fmt.fieldUnit_pos
      exact ⟨by omega, by omega, by omega, .inr (le_refl _)⟩
    have hbits := fmt.bitsOf_carry (q := place + 1) (by have := hplace.min_le; omega)
    rw [add_sub_cancel_right] at hbits
    refine ⟨fmt.fieldUnit, place + 1, n, place, hrep, ?_, hplace, hn, ?_⟩
    · rw [hround, hcarry, hbits]
      exact Nat.min_eq_left (hrep.bitsOf_lt hproper).le
    · rw [hcarry, zpow_add_one₀ (by norm_num)]
      push_cast
      ring
  · have hrep : fmt.Represents n place := by
      refine ⟨by omega, hplace.min_le, hmax.le, ?_⟩
      rcases hplace.normal with hmin | hnormal
      · exact .inl hmin
      · exact .inr (hn.le_of_le ((le_div_iff₀ hpos).2 hnormal))
    refine ⟨n, place, n, place, hrep, ?_, hplace, hn, rfl⟩
    rw [hround]
    exact Nat.min_eq_left (hrep.bitsOf_lt hproper).le

/-! ## Bits and what they stand for -/

theorem infinity_lt_signUnit (fmt : BinaryFormat) : fmt.infinity < fmt.signUnit := by
  have hpow := Nat.two_pow_pos fmt.exponentBits
  rw [infinity, signUnit]
  apply Nat.mul_lt_mul_of_pos_right _ fmt.fieldUnit_pos
  rw [Nat.pow_eq]
  omega

/-- The sign and the bits behind it are found again. -/
theorem decode_withSign (fmt : BinaryFormat) (negative : Bool) {bits : Nat}
    (hbits : bits < fmt.signUnit) :
    fmt.decode (fmt.withSign negative bits) =
      if fmt.infinity < bits then .nan negative
      else if fmt.infinity = bits then .infinite negative
      else if bits / fmt.fieldUnit = 0 then
        .finite negative (bits % fmt.fieldUnit) fmt.minExponent
      else
        .finite negative (fmt.fieldUnit + bits % fmt.fieldUnit)
          (fmt.minExponent + (bits / fmt.fieldUnit : Nat) - 1) := by
  have hpos : 0 < fmt.signUnit := by omega
  have hsign : (fmt.withSign negative bits / fmt.signUnit % 2 == 1) = negative := by
    cases negative with
    | false => simp [withSign, Nat.div_eq_of_lt hbits]
    | true => simp [withSign, Nat.add_div_left _ hpos, Nat.div_eq_of_lt hbits]
  have hmagnitude : fmt.withSign negative bits % fmt.signUnit = bits := by
    cases negative with
    | false => simp [withSign, Nat.mod_eq_of_lt hbits]
    | true => simp [withSign, Nat.mod_eq_of_lt hbits]
  simp only [decode, hsign, hmagnitude]

theorem decode_infinity (fmt : BinaryFormat) (negative : Bool) :
    fmt.decode (fmt.withSign negative fmt.infinity) = .infinite negative := by
  rw [fmt.decode_withSign negative fmt.infinity_lt_signUnit, if_neg (lt_irrefl _), if_pos rfl]

theorem decode_bitsOf (hproper : fmt.Proper) (negative : Bool) {m : Nat} {q : Int}
    (hrep : fmt.Represents m q) :
    fmt.decode (fmt.withSign negative (fmt.bitsOf m q)) = .finite negative m q := by
  have hfinite := hrep.bitsOf_lt hproper
  have hlt := hrep.lt
  have hmin := hrep.min_le
  have hunit := fmt.fieldUnit_pos
  rw [fmt.decode_withSign negative (hfinite.trans fmt.infinity_lt_signUnit),
    if_neg hfinite.not_gt, if_neg hfinite.ne']
  by_cases hsmall : m < fmt.fieldUnit
  · obtain rfl := hrep.normal.resolve_right (by omega)
    simp [bitsOf, Nat.div_eq_of_lt hsmall, Nat.mod_eq_of_lt hsmall]
  · obtain ⟨fraction, rfl⟩ := Nat.exists_eq_add_of_le (Nat.le_of_not_lt hsmall)
    have hfraction : fraction < fmt.fieldUnit := by omega
    have hbits : fmt.bitsOf (fmt.fieldUnit + fraction) q =
        fraction + fmt.fieldUnit * ((q - fmt.minExponent).toNat + 1) := by
      rw [bitsOf]
      ring
    have hfield : fmt.bitsOf (fmt.fieldUnit + fraction) q / fmt.fieldUnit =
        (q - fmt.minExponent).toNat + 1 := by
      rw [hbits, Nat.add_mul_div_left _ _ hunit, Nat.div_eq_of_lt hfraction, Nat.zero_add]
    have hrest : fmt.bitsOf (fmt.fieldUnit + fraction) q % fmt.fieldUnit = fraction := by
      rw [hbits, Nat.add_mul_mod_self_left, Nat.mod_eq_of_lt hfraction]
    rw [hfield, hrest, if_neg (Nat.succ_ne_zero _)]
    congr 1
    push_cast
    omega

/-- Bits without a NaN are an infinity or a number of the format. -/
theorem exists_of_not_isNaN (hproper : fmt.Proper) {bits : Nat} (hbits : bits < 2 * fmt.signUnit)
    (hnan : fmt.isNaN bits = false) :
    (∃ negative, bits = fmt.withSign negative fmt.infinity) ∨
      ∃ negative m q, fmt.Represents m q ∧ bits = fmt.withSign negative (fmt.bitsOf m q) := by
  obtain ⟨negative, magnitude, hmagnitude, rfl⟩ :
      ∃ negative magnitude, magnitude < fmt.signUnit ∧ bits = fmt.withSign negative magnitude := by
    by_cases hsign : bits < fmt.signUnit
    · exact ⟨false, bits, hsign, rfl⟩
    · refine ⟨true, bits - fmt.signUnit, by omega, ?_⟩
      rw [withSign, if_pos rfl]
      omega
  have hunit := fmt.fieldUnit_pos
  rw [isNaN, fmt.decode_withSign negative hmagnitude] at hnan
  by_cases hinfinity : fmt.infinity < magnitude
  · rw [if_pos hinfinity] at hnan
    cases hnan
  by_cases hsame : fmt.infinity = magnitude
  · exact .inl ⟨negative, by rw [hsame]⟩
  right
  have hfinite : magnitude < fmt.infinity := by omega
  have hlast : magnitude / fmt.fieldUnit < 2 ^ fmt.exponentBits - 1 :=
    (Nat.div_lt_iff_lt_mul hunit).2 hfinite
  have hfraction := Nat.mod_lt magnitude hunit
  have hsplit := Nat.div_add_mod' magnitude fmt.fieldUnit
  generalize magnitude / fmt.fieldUnit = field at hlast hsplit
  generalize magnitude % fmt.fieldUnit = fraction at hfraction hsplit
  subst hsplit
  by_cases hfield : field = 0
  · subst hfield
    refine ⟨negative, fraction, fmt.minExponent, ⟨by omega, le_refl _,
      (minExponent_lt_maxExponent hproper).le, .inl rfl⟩, ?_⟩
    simp [bitsOf]
  · obtain ⟨field, rfl⟩ := Nat.exists_eq_succ_of_ne_zero hfield
    refine ⟨negative, fmt.fieldUnit + fraction, fmt.minExponent + field,
      ⟨by omega, by omega, ?_, .inr (Nat.le_add_right _ _)⟩, ?_⟩
    · rw [maxExponent, Nat.pow_eq]
      omega
    · rw [bitsOf, add_sub_cancel_left, Int.toNat_natCast, Nat.succ_mul, Nat.add_assoc]

/-! ## Reading -/

/-- The number is neither far below the smallest nor far above the largest numbers. -/
structure InRange (fmt : BinaryFormat) (v : ℚ) : Prop where
  low : (2 : ℚ) ^ (fmt.minExponent - 1) ≤ v
  high : v < 2 * fmt.fieldUnit * 2 ^ fmt.maxExponent

theorem Near.inRange {m : Nat} {q : Int} {v : ℚ} (hrep : fmt.Represents m q) (hm : 0 < m)
    (h : fmt.Near m q v) : fmt.InRange v := by
  have hone : (1 : ℚ) ≤ m := by exact_mod_cast hm
  have hunit : (0 : ℚ) < fmt.fieldUnit := by exact_mod_cast fmt.fieldUnit_pos
  constructor
  · have hlow := (h.bounds hm).1
    have hplace : (2 : ℚ) ^ (fmt.minExponent - 1) ≤ 2 ^ (q - 1) :=
      zpow_le_zpow_right₀ (by norm_num) (by have := hrep.min_le; omega)
    have hhalf := two_zpow q
    have hpos : (0 : ℚ) < 2 ^ (q - 1) := by positivity
    nlinarith
  · have hplace : (2 : ℚ) ^ q ≤ 2 ^ fmt.maxExponent :=
      zpow_le_zpow_right₀ (by norm_num) hrep.le_max
    calc v < 2 * fmt.fieldUnit * 2 ^ q := h.lt hm hrep.lt
      _ ≤ 2 * fmt.fieldUnit * 2 ^ fmt.maxExponent := by gcongr

/-- The bound of the numbers of a format is a power of two by itself. -/
theorem bound_eq (hproper : fmt.Proper) :
    2 * (fmt.fieldUnit : ℚ) * 2 ^ fmt.maxExponent =
      2 ^ ((Nat.pow 2 (fmt.exponentBits - 1) : Nat) : Int) := by
  have hbits := hproper.exponentBits
  obtain ⟨k, hk⟩ : ∃ k, fmt.exponentBits = k + 1 := ⟨fmt.exponentBits - 1, by omega⟩
  have hunit : (2 : ℚ) * fmt.fieldUnit = 2 ^ (fmt.precision : Int) := by
    rw [zpow_natCast]
    exact_mod_cast (pow_precision hproper).symm
  rw [hunit, ← zpow_add₀ (by norm_num), maxExponent, minExponent, hk, Nat.add_sub_cancel,
    Nat.pow_eq, Nat.pow_eq, Nat.pow_succ]
  congr 1
  push_cast
  ring

theorem minExponent_neg (hproper : fmt.Proper) : fmt.minExponent < 0 := by
  have hprecision := hproper.precision
  have hpow : 2 ^ 1 ≤ 2 ^ (fmt.exponentBits - 1) :=
    Nat.pow_le_pow_right (by decide) (by have := hproper.exponentBits; omega)
  rw [minExponent, Nat.pow_eq]
  omega

theorem digitCount_bounds {n : Nat} (hn : 0 < n) :
    (10 : ℚ) ^ ((digitCount n : Int) - 1) ≤ n ∧ (n : ℚ) < 10 ^ (digitCount n : Int) := by
  have hcount : 0 < digitCount n := Nat.length_toDigits_pos
  constructor
  · obtain ⟨k, hk⟩ : ∃ k, digitCount n = k + 1 := ⟨digitCount n - 1, by omega⟩
    have hle : 10 ^ k ≤ n := by
      by_contra hlt
      rcases Nat.eq_zero_or_pos k with rfl | hpos
      · omega
      · have := (Nat.length_toDigits_le_iff (by decide) hpos).2 (Nat.lt_of_not_le hlt)
        rw [digitCount] at hk
        omega
    rw [hk, Nat.cast_succ, add_sub_cancel_right, zpow_natCast]
    exact_mod_cast hle
  · rw [zpow_natCast]
    exact_mod_cast (Nat.length_toDigits_le_iff (by decide) hcount).1 (le_refl _)

/-- The decimal point of a number in range stands where reading rounds the number,
neither so far to the left nor so far to the right that the answer is known. -/
theorem InRange.point_bounds (hproper : fmt.Proper) {n : Nat} {e : Int} (hn : 0 < n)
    (hrange : fmt.InRange (n * 10 ^ e)) :
    fmt.minExponent ≤ digitCount n + e ∧
      digitCount n + e ≤ ((Nat.pow 2 (fmt.exponentBits - 1) : Nat) : Int) := by
  obtain ⟨hcountLow, hcountHigh⟩ := digitCount_bounds hn
  have hten : (0 : ℚ) < 10 ^ e := by positivity
  constructor
  · by_contra hpoint
    have hhigh : (n : ℚ) * 10 ^ e < 10 ^ ((digitCount n : Int) + e) := by
      rw [zpow_add₀ (by norm_num)]
      exact mul_lt_mul_of_pos_right hcountHigh hten
    have hnegative := minExponent_neg hproper
    obtain ⟨k, hk⟩ := Int.eq_ofNat_of_zero_le (show 0 ≤ 1 - fmt.minExponent by omega)
    have htiny : (10 : ℚ) ^ ((digitCount n : Int) + e) ≤ 2 ^ (fmt.minExponent - 1) :=
      calc (10 : ℚ) ^ ((digitCount n : Int) + e)
          ≤ 10 ^ (fmt.minExponent - 1) := zpow_le_zpow_right₀ (by norm_num) (by omega)
        _ ≤ 2 ^ (fmt.minExponent - 1) := by
          rw [show fmt.minExponent - 1 = -(k : Int) by omega, zpow_neg, zpow_neg, zpow_natCast,
            zpow_natCast]
          exact inv_anti₀ (by positivity) (pow_le_pow_left₀ (by norm_num) (by norm_num) _)
    have hmin := hrange.low
    linarith
  · by_contra hpoint
    have hlow : (10 : ℚ) ^ ((digitCount n : Int) + e - 1) ≤ n * 10 ^ e := by
      have hscaled := mul_le_mul_of_nonneg_right hcountLow hten.le
      rwa [← zpow_add₀ (by norm_num), sub_add_eq_add_sub] at hscaled
    have hhuge : (2 : ℚ) ^ ((Nat.pow 2 (fmt.exponentBits - 1) : Nat) : Int) ≤
        10 ^ ((digitCount n : Int) + e - 1) :=
      calc (2 : ℚ) ^ ((Nat.pow 2 (fmt.exponentBits - 1) : Nat) : Int)
          ≤ 10 ^ ((Nat.pow 2 (fmt.exponentBits - 1) : Nat) : Int) := by
            rw [zpow_natCast, zpow_natCast]
            exact pow_le_pow_left₀ (by norm_num) (by norm_num) _
        _ ≤ 10 ^ ((digitCount n : Int) + e - 1) :=
          zpow_le_zpow_right₀ (by norm_num) (by omega)
    have hmax := hrange.high
    rw [bound_eq hproper] at hmax
    linarith

/-- A decimal in range is rounded as the fraction that it is. -/
theorem exists_ofDecimal (hproper : fmt.Proper) {n : Nat} {e : Int} (hn : 0 < n)
    (hrange : fmt.InRange (n * 10 ^ e)) :
    ∃ num den : Nat, 0 < num ∧ 0 < den ∧ (num : ℚ) / den = n * 10 ^ e ∧
      fmt.ofDecimal n e = fmt.roundRatio num den := by
  obtain ⟨hlow, hhigh⟩ := hrange.point_bounds hproper hn
  rw [ofDecimal, if_neg hn.ne', if_neg hhigh.not_gt, if_neg hlow.not_gt]
  split
  · next h =>
    obtain ⟨k, rfl⟩ := Int.eq_ofNat_of_zero_le h
    refine ⟨_, _, Nat.mul_pos hn (Nat.pow_pos (Nat.succ_pos 9)), Nat.one_pos, ?_, rfl⟩
    simp
  · next h =>
    obtain ⟨k, hk⟩ := Int.eq_ofNat_of_zero_le (show 0 ≤ -e by omega)
    obtain rfl : e = -(k : Int) := by omega
    refine ⟨_, _, hn, Nat.pow_pos (Nat.succ_pos 9), ?_, rfl⟩
    simp
    ring

/-- Decimals of the same number have the same bits. -/
theorem ofDecimal_congr (hproper : fmt.Proper) {n n' : Nat} {e e' : Int} (hn : 0 < n)
    (hrange : fmt.InRange (n * 10 ^ e)) (h : (n : ℚ) * 10 ^ e = n' * 10 ^ e') :
    fmt.ofDecimal n e = fmt.ofDecimal n' e' := by
  have hpositive : (0 : ℚ) < n' * 10 ^ e' := by
    rw [← h]
    positivity
  have hn' : 0 < n' := by exact_mod_cast pos_of_mul_pos_left hpositive (by positivity)
  obtain ⟨num, den, hnum, hden, hvalue, hround⟩ := exists_ofDecimal hproper hn hrange
  obtain ⟨num', den', hnum', hden', hvalue', hround'⟩ := exists_ofDecimal hproper hn' (h ▸ hrange)
  rw [hround, hround']
  exact roundRatio_congr hproper hnum hden hnum' hden' (by rw [hvalue, hvalue', h])

/-- A number of another format is rounded as the fraction that it is. -/
theorem exists_roundBinary (fmt : BinaryFormat) {m : Nat} (hm : 0 < m) (q : Int) :
    ∃ num den : Nat, 0 < num ∧ 0 < den ∧ (num : ℚ) / den = m * 2 ^ q ∧
      fmt.roundBinary m q = fmt.roundRatio num den := by
  unfold roundBinary
  split
  · next h =>
    obtain ⟨k, rfl⟩ := Int.eq_ofNat_of_zero_le h
    refine ⟨_, _, Nat.mul_pos hm (Nat.two_pow_pos _), Nat.one_pos, ?_, rfl⟩
    simp
  · next h =>
    obtain ⟨k, hk⟩ := Int.eq_ofNat_of_zero_le (show 0 ≤ -q by omega)
    obtain rfl : q = -(k : Int) := by omega
    refine ⟨_, _, hm, Nat.two_pow_pos _, ?_, rfl⟩
    simp
    ring

end Lanewise.BinaryFormat
