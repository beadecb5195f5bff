import Mathlib
import Lanewise.Rule
import Lanewise.Proofs.Numerals

/-!
# Floored modulo

The remainder of a division rounded toward zero has the sign of the dividend. Where
that is not the sign of the divisor, adding the divisor once takes the remainder to
the other side of zero (`between_corrected`), and two numbers of different signs
have a sum in range (`toInt_add_of_signs`). So the result is the exact one for every
dividend and every divisor but zero, and lies between zero and the divisor, which is
why a modulo of 32 bits loses nothing on its way through 64. `floorMod_eq_remainder`
says so for each width.
-/

namespace Lanewise.Integer

open Assembly (int64? int64?_toInt)

/-- What a quotient rounded down leaves of `a`. -/
def floorRemainder (a b : ℤ) : ℤ :=
  a - b * ⌊(a : ℚ) / b⌋

/-- Floored modulo in steps on exact integers, given up at the first number that
does not fit 64 bits with sign. -/
def checkedFloorMod? (a b : Int64) : Option Int64 :=
  if b = 0 then some 0
  else do
    let r ← int64? (a.toInt.tmod b.toInt)
    if r ≠ 0 ∧ (decide (r < 0) ≠ decide (b < 0)) then int64? (r.toInt + b.toInt)
    else some r

/-! ## Exact integers -/

/-- From zero, which is included, toward `b`, which is not. -/
def Between (b r : ℤ) : Prop :=
  0 ≤ r ∧ r < b ∨ b < r ∧ r ≤ 0

/-- A remainder on the side of zero that the divisor is on. -/
def corrected (r b : ℤ) : ℤ :=
  if r ≠ 0 ∧ (decide (r < 0) ≠ decide (b < 0)) then r + b else r

theorem between_corrected (a : ℤ) {b : ℤ} (hb : b ≠ 0) : Between b (corrected (a.tmod b) b) := by
  -- the remainder is nearer to zero than the divisor, so adding it once is enough
  have habs : (a.tmod b).natAbs < b.natAbs := by
    rw [Int.natAbs_tmod]
    exact Nat.mod_lt _ (Int.natAbs_pos.2 hb)
  unfold corrected Between
  split <;> simp only [ne_eq, decide_eq_decide] at * <;> omega

theorem dvd_sub_corrected (a b : ℤ) : b ∣ a - corrected (a.tmod b) b := by
  have hdvd : b ∣ a - a.tmod b := ⟨a.tdiv b, by rw [Int.tmod_def]; ring⟩
  unfold corrected
  split
  · rw [← sub_sub]
    exact dvd_sub_self_right.2 hdvd
  · exact hdvd

/-- A rest toward the divisor determines the quotient rounded down. -/
theorem floor_div_of_between {a b q r : ℤ} (h : Between b r) (ha : a = b * q + r) :
    ⌊(a : ℚ) / b⌋ = q := by
  have hb : (b : ℚ) ≠ 0 := by
    rw [Int.cast_ne_zero]
    rintro rfl
    rcases h with h | h <;> omega
  have hquotient : (a : ℚ) / b = q + r / b := by
    rw [ha]
    push_cast
    field_simp
  have hrest : 0 ≤ (r : ℚ) / b ∧ (r : ℚ) / b < 1 := by
    rcases h with ⟨hzero, hlt⟩ | ⟨hlt, hzero⟩
    · have hpos : (0 : ℚ) < b := by exact_mod_cast hzero.trans_lt hlt
      exact ⟨div_nonneg (by exact_mod_cast hzero) hpos.le,
        (div_lt_one hpos).2 (by exact_mod_cast hlt)⟩
    · have hneg : (b : ℚ) < 0 := by exact_mod_cast hlt.trans_le hzero
      exact ⟨div_nonneg_of_nonpos (by exact_mod_cast hzero) hneg.le,
        (div_lt_one_of_neg hneg).2 (by exact_mod_cast hlt)⟩
  rw [hquotient, Int.floor_eq_iff]
  constructor <;> linarith

theorem corrected_tmod (a : ℤ) {b : ℤ} (hb : b ≠ 0) :
    corrected (a.tmod b) b = floorRemainder a b := by
  obtain ⟨q, hq⟩ := dvd_sub_corrected a b
  have ha : a = b * q + corrected (a.tmod b) b := by omega
  rw [floorRemainder, floor_div_of_between (between_corrected a hb) ha]
  omega

/-! ## Integers of 64 bits -/

/-- Numbers on different sides of zero have a sum in range. -/
theorem toInt_add_of_signs {a b : Int64} (h : decide (a < 0) ≠ decide (b < 0)) :
    (a + b).toInt = a.toInt + b.toInt := by
  have halow := a.le_toInt
  have hahigh := a.toInt_lt
  have hblow := b.le_toInt
  have hbhigh := b.toInt_lt
  simp only [ne_eq, decide_eq_decide, Int64.lt_iff_toInt_lt, Int64.toInt_zero] at h
  rw [Int64.toInt_add]
  exact Int.bmod_eq_of_le (by omega) (by omega)

theorem checkedFloorMod?_eq (a b : Int64) : checkedFloorMod? a b = some (floorMod a b) := by
  unfold checkedFloorMod? floorMod
  split
  · rfl
  · simp only [← Int64.toInt_mod, int64?_toInt, Option.bind_eq_bind, Option.bind_some]
    split
    · next h => rw [← toInt_add_of_signs h.2, int64?_toInt]
    · rfl

theorem toInt_floorMod (a : Int64) {b : Int64} (hb : b ≠ 0) :
    (floorMod a b).toInt = corrected (a.toInt.tmod b.toInt) b.toInt := by
  have hsigns : a % b ≠ 0 ∧ decide (a % b < 0) ≠ decide (b < 0) ↔
      a.toInt.tmod b.toInt ≠ 0 ∧ decide (a.toInt.tmod b.toInt < 0) ≠ decide (b.toInt < 0) := by
    simp only [ne_eq, decide_eq_decide, Int64.lt_iff_toInt_lt, ← Int64.toInt_inj, Int64.toInt_mod,
      Int64.toInt_zero]
  simp only [floorMod, if_neg hb, corrected, ← hsigns]
  split
  · next h => rw [toInt_add_of_signs h.2, Int64.toInt_mod]
  · exact Int64.toInt_mod a b

theorem toInt_ne_zero {b : Int64} (hb : b ≠ 0) : b.toInt ≠ 0 :=
  fun h => hb (Int64.toInt_inj.1 h)

theorem toInt_floorMod_eq_floorRemainder (a : Int64) {b : Int64} (hb : b ≠ 0) :
    (floorMod a b).toInt = floorRemainder a.toInt b.toInt := by
  rw [toInt_floorMod a hb, corrected_tmod _ (toInt_ne_zero hb)]

/-! ## Integers of 32 bits -/

theorem toInt_toInt32_of_between {b : Int32} {r : Int64} (h : Between b.toInt r.toInt) :
    r.toInt32.toInt = r.toInt := by
  have hlow := b.le_toInt
  have hhigh := b.toInt_lt
  rw [Int64.toInt_toInt32]
  refine Int.bmod_eq_of_le ?_ ?_ <;> rcases h with h | h <;> omega

theorem toInt_floorMod32 (a : Int32) {b : Int32} (hb : b ≠ 0) :
    (floorMod32 a b).toInt = floorRemainder a.toInt b.toInt := by
  have hdivisor : b.toInt64 ≠ 0 := by
    intro h
    refine hb (Int32.toInt_inj.1 ?_)
    rw [← Int32.toInt_toInt64, h]
    rfl
  have hbetween : Between b.toInt (floorMod a.toInt64 b.toInt64).toInt := by
    rw [toInt_floorMod _ hdivisor, Int32.toInt_toInt64 b]
    refine between_corrected _ ?_
    rw [← Int32.toInt_toInt64]
    exact toInt_ne_zero hdivisor
  rw [floorMod32, toInt_toInt32_of_between hbetween, toInt_floorMod_eq_floorRemainder _ hdivisor,
    Int32.toInt_toInt64, Int32.toInt_toInt64]

/-! ## Modulo -/

/-- The modulo of 64-bit integers is what the quotient rounded down leaves, and every
number on the way to it fits 64 bits. The modulo of 32-bit integers goes through 64
bits and is exact as well. -/
theorem floorMod_eq_remainder :
    (∀ a b : Int64, b ≠ 0 →
      (Arithmetic.mod.onLong a b).toInt = floorRemainder a.toInt b.toInt ∧
        checkedFloorMod? a b = some (Arithmetic.mod.onLong a b)) ∧
    ∀ a b : Int32, b ≠ 0 →
      Arithmetic.mod.onInt a b = (Arithmetic.mod.onLong a.toInt64 b.toInt64).toInt32 ∧
        (Arithmetic.mod.onInt a b).toInt = floorRemainder a.toInt b.toInt := by
  refine ⟨fun a b hb => ⟨?_, checkedFloorMod?_eq a b⟩, fun a b hb => ⟨rfl, ?_⟩⟩
  · exact toInt_floorMod_eq_floorRemainder a hb
  · exact toInt_floorMod32 a hb

/-- The least number over -1, where the quotient does not fit, the sum that comes
closest to the end of the range, and both signs in 32 bits. -/
theorem floorMod_eq_remainder_extremes :
    ((-1 : Int64) ≠ 0 ∧ floorRemainder (-9223372036854775808) (-1) = 0 ∧
      checkedFloorMod? Int64.minValue (-1) = some 0) ∧
    (Int64.minValue ≠ 0 ∧ floorRemainder 1 (-9223372036854775808) = -9223372036854775807 ∧
      checkedFloorMod? 1 Int64.minValue = some (-9223372036854775807)) ∧
    ((3 : Int32) ≠ 0 ∧ floorRemainder (-7) 3 = 2) ∧
    (-3 : Int32) ≠ 0 ∧ floorRemainder 7 (-3) = -2 := by
  obtain ⟨hlong, hint⟩ := floorMod_eq_remainder
  have hminus : (-1 : Int64) ≠ 0 := by decide
  have hmin : Int64.minValue ≠ 0 := by decide
  have hthree : (3 : Int32) ≠ 0 := by decide
  have hminusThree : (-3 : Int32) ≠ 0 := by decide
  obtain ⟨hleast, hchecked⟩ := hlong Int64.minValue (-1) hminus
  obtain ⟨hclose, hcheckedClose⟩ := hlong 1 Int64.minValue hmin
  exact ⟨⟨hminus, hleast.symm, hchecked⟩, ⟨hmin, hclose.symm, hcheckedClose⟩,
    ⟨hthree, (hint (-7) 3 hthree).2.symm⟩, hminusThree, (hint 7 (-3) hminusThree).2.symm⟩

end Lanewise.Integer
