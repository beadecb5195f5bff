import Mathlib
import Lanewise.Rule

/-!
# Integer powers

Repeated squaring wraps at every multiplication, and all the same its result is
the exact power, brought once into the range of 64 bits (`toInt_mulPow_modEq`).
Cutting the 64 bits down to 32 loses nothing more, because the smaller modulus
divides the larger one. A power with a negative exponent is a fraction, of which
the whole part is left (`truncate_zpow`). `isPower_pow` says both for each width.
-/

namespace Lanewise.Integer

/-- A fraction without what stands behind its point. -/
def truncate (q : ℚ) : ℤ :=
  if 0 ≤ q then ⌊q⌋ else ⌈q⌉

/-- The value of a power in integers of `bits` bits with sign: for an exponent of
zero or more the number in range that is congruent to the exact power, for a
negative one the exact fraction rounded toward zero. Zero to a negative power is
zero. -/
structure IsPower (bits : Nat) (base exponent value : ℤ) : Prop where
  natural : 0 ≤ exponent → value = (base ^ exponent.toNat).bmod (2 ^ bits)
  negative : exponent < 0 → value = truncate ((base : ℚ) ^ exponent)

/-! ## Repeated squaring -/

theorem toInt_mul_modEq (a b : Int64) : (a * b).toInt ≡ a.toInt * b.toInt [ZMOD 2 ^ 64] := by
  rw [Int64.toInt_mul]
  exact Int.bmod_emod

/-- One round keeps the product of the result so far with the power that is still
to come. -/
theorem round_modEq (result base : Int64) (n : Nat) :
    (if n % 2 = 1 then result * base else result).toInt * (base * base).toInt ^ (n / 2) ≡
      result.toInt * base.toInt ^ n [ZMOD 2 ^ 64] := by
  have hsquare : (base * base).toInt ^ (n / 2) ≡ (base.toInt * base.toInt) ^ (n / 2)
      [ZMOD 2 ^ 64] := (toInt_mul_modEq base base).pow (n / 2)
  have hn : 2 * (n / 2) + n % 2 = n := Nat.div_add_mod n 2
  split
  · next hodd =>
    rw [hodd] at hn
    calc (result * base).toInt * (base * base).toInt ^ (n / 2)
        ≡ result.toInt * base.toInt * (base.toInt * base.toInt) ^ (n / 2) [ZMOD 2 ^ 64] :=
          (toInt_mul_modEq result base).mul hsquare
      _ = result.toInt * base.toInt ^ (2 * (n / 2) + 1) := by ring
      _ = result.toInt * base.toInt ^ n := by rw [hn]
  · next heven =>
    rw [Nat.mod_two_ne_one.1 heven] at hn
    calc result.toInt * (base * base).toInt ^ (n / 2)
        ≡ result.toInt * (base.toInt * base.toInt) ^ (n / 2) [ZMOD 2 ^ 64] := hsquare.mul_left _
      _ = result.toInt * base.toInt ^ (2 * (n / 2) + 0) := by ring
      _ = result.toInt * base.toInt ^ n := by rw [hn]

theorem toInt_mulPow_modEq (result base : Int64) (n : Nat) :
    (mulPow result base n).toInt ≡ result.toInt * base.toInt ^ n [ZMOD 2 ^ 64] := by
  fun_induction mulPow result base n with
  | case1 result base => simp
  | case2 result base n hn ih => exact ih.trans (round_modEq result base n)

theorem bmod_congr {a b : ℤ} {m : Nat} (h : a ≡ b [ZMOD m]) : a.bmod m = b.bmod m := by
  rw [← Int.emod_bmod a, h, Int.emod_bmod]

section Natural

variable {base exponent : Int64} (h : 0 ≤ exponent.toInt)
include h

theorem toInt_pow_modEq :
    (pow base exponent).toInt ≡ base.toInt ^ exponent.toInt.toNat [ZMOD 2 ^ 64] := by
  have hexponent : 0 ≤ exponent := Int64.le_iff_toInt_le.2 h
  rw [pow, if_pos hexponent]
  simpa using toInt_mulPow_modEq 1 base exponent.toInt.toNat

theorem toInt_pow : (pow base exponent).toInt =
    (base.toInt ^ exponent.toInt.toNat).bmod (2 ^ 64) := by
  rw [← bmod_congr (toInt_pow_modEq h)]
  exact (Int64.toInt_bmod _).symm

theorem toInt32_pow : (pow base exponent).toInt32.toInt =
    (base.toInt ^ exponent.toInt.toNat).bmod (2 ^ 32) := by
  have hdvd : (2 : Nat) ^ 32 ∣ 2 ^ 64 := pow_dvd_pow 2 (by decide)
  rw [Int64.toInt_toInt32, toInt_pow h, Int.bmod_bmod_of_dvd hdvd]

end Natural

/-! ## Negative exponents -/

theorem truncate_intCast (n : ℤ) : truncate n = n := by
  simp [truncate]

theorem truncate_of_abs_lt {q : ℚ} (h : |q| < 1) : truncate q = 0 := by
  obtain ⟨hlow, hhigh⟩ := abs_lt.1 h
  unfold truncate
  split
  · next hq => exact Int.floor_eq_zero_iff.2 ⟨hq, hhigh⟩
  · next hq =>
    refine Int.ceil_eq_zero_iff.2 ⟨?_, ?_⟩
    · exact hlow
    · exact (not_le.1 hq).le

/-- The whole part of a power with a negative exponent: only the bases 1 and -1
leave one. -/
def reciprocal (base exponent : ℤ) : ℤ :=
  if base = 1 then 1
  else if base = -1 then if exponent % 2 = 0 then 1 else -1
  else 0

theorem truncate_zpow {base exponent : ℤ} (h : exponent < 0) :
    truncate ((base : ℚ) ^ exponent) = reciprocal base exponent := by
  unfold reciprocal
  split
  · next hone => simpa [hone] using truncate_intCast 1
  split
  · next hminus =>
    subst hminus
    split
    · next heven =>
      have hpow : (-1 : ℚ) ^ exponent = 1 := (Int.even_iff.2 heven).neg_one_zpow
      simpa [hpow] using truncate_intCast 1
    · next hodd =>
      have hodd' : Odd exponent := Int.not_even_iff_odd.1 (mt Int.even_iff.1 hodd)
      have hpow : (-1 : ℚ) ^ exponent = -1 := hodd'.neg_one_zpow
      simpa [hpow] using truncate_intCast (-1)
  · next hone hminus =>
    refine truncate_of_abs_lt ?_
    rcases eq_or_ne base 0 with rfl | hzero
    · simp [zero_zpow _ h.ne]
    · have habs : 1 < |base| := by
        have hpos := abs_pos.2 hzero
        have hne : |base| ≠ 1 := fun h => (eq_or_eq_neg_of_abs_eq h).elim hone hminus
        omega
      have hlarge : 1 < |(base : ℚ)| := by exact_mod_cast habs
      rw [abs_zpow]
      exact zpow_lt_one_of_neg₀ hlarge h

section Negative

variable {base exponent : Int64} (h : exponent.toInt < 0)
include h

theorem toInt_pow_of_neg :
    (pow base exponent).toInt = reciprocal base.toInt exponent.toInt := by
  have hexponent : ¬ 0 ≤ exponent := fun hle => h.not_ge (Int64.le_iff_toInt_le.1 hle)
  have hone : base = 1 ↔ base.toInt = 1 := Int64.toInt_inj.symm
  have hminus : base = -1 ↔ base.toInt = -1 := Int64.toInt_inj.symm
  have heven : exponent % 2 = 0 ↔ exponent.toInt % 2 = 0 := by
    rw [← Int64.toInt_inj, Int64.toInt_mod]
    exact Int.dvd_iff_tmod_eq_zero.symm.trans Int.dvd_iff_emod_eq_zero
  rw [pow, if_neg hexponent, reciprocal]
  simp only [hone, hminus, heven]
  split_ifs <;> rfl

theorem toInt32_pow_of_neg :
    (pow base exponent).toInt32.toInt = reciprocal base.toInt exponent.toInt := by
  rw [Int64.toInt_toInt32, toInt_pow_of_neg h, reciprocal]
  split_ifs <;> rfl

end Negative

/-! ## Powers -/

theorem isPower_toInt (base exponent : Int64) :
    IsPower 64 base.toInt exponent.toInt (pow base exponent).toInt where
  natural := toInt_pow
  negative h := by rw [toInt_pow_of_neg h, truncate_zpow h]

theorem isPower_toInt32 (base exponent : Int64) :
    IsPower 32 base.toInt exponent.toInt (pow base exponent).toInt32.toInt where
  natural := toInt32_pow
  negative h := by rw [toInt32_pow_of_neg h, truncate_zpow h]

/-- Powers of 64-bit integers, their lower halves, and powers of 32-bit integers,
which are the lower halves of the powers in 64 bits. -/
theorem isPower_pow :
    (∀ base exponent : Int64,
      IsPower 64 base.toInt exponent.toInt (Arithmetic.pow.onLong base exponent).toInt ∧
      IsPower 32 base.toInt exponent.toInt (Arithmetic.pow.onLong base exponent).toInt32.toInt) ∧
    ∀ base exponent : Int32,
      Arithmetic.pow.onInt base exponent =
        (Arithmetic.pow.onLong base.toInt64 exponent.toInt64).toInt32 ∧
      IsPower 32 base.toInt exponent.toInt (Arithmetic.pow.onInt base exponent).toInt := by
  refine ⟨fun base exponent => ⟨isPower_toInt base exponent, isPower_toInt32 base exponent⟩,
    fun base exponent => ⟨rfl, ?_⟩⟩
  have hpower := isPower_toInt32 base.toInt64 exponent.toInt64
  rw [Int32.toInt_toInt64, Int32.toInt_toInt64] at hpower
  exact hpower

end Lanewise.Integer
