import Lanewise.Proofs.Padding

/-!
# The order of padded strings

Strings stored at different widths are compared in place, and the sign is that of
the lexicographic order at any common width (`comparePadded_eq_compare`). So the
comparison takes its laws from the order of byte vectors: it is a total preorder
whose ties are the strings that differ in padding only, and it does not see how
wide a string is stored. `isPaddedOrder_comparePadded` says so, and that the four
relations between strings ask for nothing but the sign.
-/

namespace Lanewise

namespace Text

/-- A comparison that sees two strings as if both were filled up to one width. The
two halves of a total preorder are `swap` and `trans`. -/
structure IsPaddedOrder (cmp : List UInt8 → List UInt8 → Ordering) : Prop where
  /-- Lexicographic by unsigned bytes, at every width that holds both strings. -/
  lexicographic (s t : List UInt8) (width : Nat) : max s.length t.length ≤ width →
    cmp s t = compare (padded width s) (padded width t)
  swap (s t : List UInt8) : cmp t s = (cmp s t).swap
  trans (s t u : List UInt8) : (cmp s t).isLE → (cmp t u).isLE → (cmp s u).isLE
  eq_iff (s t : List UInt8) : cmp s t = .eq ↔ trimPadding s = trimPadding t
  /-- A copy that is not cut off compares like the string itself. -/
  stored_left (s t : List UInt8) (width : Nat) : s.length ≤ width →
    cmp (padded width s).toList t = cmp s t
  stored_right (s t : List UInt8) (width : Nat) : t.length ≤ width →
    cmp s (padded width t).toList = cmp s t

/-! ## Strings at a common width -/

/-- Strings of one length leave nothing to fill up. -/
theorem comparePadded_eq_compare_of_length {s t : List UInt8} (h : s.length = t.length) :
    comparePadded s t = compare s t := by
  induction s generalizing t with
  | nil =>
    rw [List.length_eq_zero_iff.1 h.symm]
    rfl
  | cons x xs ih =>
    cases t with
    | nil => cases h
    | cons y ys =>
      rw [comparePadded, List.compare_cons_cons, ih (Nat.succ.inj h)]

theorem comparePadded_padded {s t : List UInt8} {m n : Nat} (hs : s.length ≤ m)
    (ht : t.length ≤ n) :
    comparePadded (padded m s).toList (padded n t).toList = comparePadded s t :=
  comparePadded_congr (trimPadding_padded hs) (trimPadding_padded ht)

theorem comparePadded_eq_compare {s t : List UInt8} {width : Nat} (hs : s.length ≤ width)
    (ht : t.length ≤ width) :
    comparePadded s t = compare (padded width s) (padded width t) := by
  calc comparePadded s t
      = comparePadded (padded width s).toList (padded width t).toList :=
        (comparePadded_padded hs ht).symm
    _ = compare (padded width s).toList (padded width t).toList :=
        comparePadded_eq_compare_of_length (by simp only [Vector.length_toList])
    _ = compare (padded width s) (padded width t) := Vector.compare_eq_compare_toList.symm

/-- Three strings have a width that holds them all, and there the order is that of
vectors of bytes. -/
instance : Std.TransCmp comparePadded where
  eq_swap := (comparePadded_swap _ _).symm
  isLE_trans {s t u} hst htu := by
    obtain ⟨width, hs, ht, hu⟩ : ∃ width, s.length ≤ width ∧ t.length ≤ width ∧
        u.length ≤ width :=
      ⟨max s.length (max t.length u.length), by omega, by omega, by omega⟩
    rw [comparePadded_eq_compare hs ht] at hst
    rw [comparePadded_eq_compare ht hu] at htu
    rw [comparePadded_eq_compare hs hu]
    exact Std.TransCmp.isLE_trans hst htu

/-- Strings that no comparison tells apart are fillings of one string. -/
theorem comparePadded_eq_eq_iff (s t : List UInt8) :
    comparePadded s t = .eq ↔ trimPadding s = trimPadding t := by
  constructor
  · intro h
    have hs : s.length ≤ max s.length t.length := Nat.le_max_left ..
    have ht : t.length ≤ max s.length t.length := Nat.le_max_right ..
    rw [comparePadded_eq_compare hs ht] at h
    rw [← trimPadding_padded hs, Std.LawfulEqCmp.compare_eq_iff_eq.1 h, trimPadding_padded ht]
  · intro h
    rw [comparePadded_congr h rfl]
    exact Std.ReflCmp.compare_self

end Text

/-! ## Relations between strings -/

/-- The answer of a relation, from the order of its operands. -/
def Relation.holds : Relation → Ordering → Bool
  | gt => Ordering.isGT
  | ge => Ordering.isGE
  | eq => Ordering.isEq
  | ne => Ordering.isNe

/-- Two of the relations compare their operands the other way round. -/
theorem Relation.on?_str (r : Relation) :
    r.on? .str = some fun s t : List UInt8 => r.holds (Text.comparePadded s t) := by
  refine congrArg some (funext₂ fun s t => ?_)
  have hswap : Text.comparePadded t s = (Text.comparePadded s t).swap :=
    (Text.comparePadded_swap t s).symm
  cases r <;> simp only [ofOrder, holds, hswap] <;> cases Text.comparePadded s t <;> rfl

/-- Strings are compared as if they were filled up with NUL to one width, and the
relations between them ask for the sign of that comparison. -/
theorem Text.isPaddedOrder_comparePadded :
    IsPaddedOrder comparePadded ∧
      ∀ r : Relation, r.on? .str = some fun s t : List UInt8 => r.holds (comparePadded s t) where
  left := {
    lexicographic _ _ _ h := comparePadded_eq_compare (Nat.max_le.1 h).1 (Nat.max_le.1 h).2
    swap _ _ := Std.OrientedCmp.eq_swap
    trans _ _ _ := Std.TransCmp.isLE_trans
    eq_iff := comparePadded_eq_eq_iff
    stored_left _ _ _ h := comparePadded_congr (trimPadding_padded h) rfl
    stored_right _ _ _ h := comparePadded_congr rfl (trimPadding_padded h) }
  right := Relation.on?_str

-- a NUL inside a string is no padding, and bytes have no sign
example : Text.comparePadded [97, 0, 0] [97] = .eq ∧ Text.comparePadded [97, 0, 1] [97] = .gt ∧
    Text.comparePadded [0x80] [97] = .gt := by decide

end Lanewise
