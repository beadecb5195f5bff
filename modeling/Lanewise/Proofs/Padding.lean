import Lanewise.Proofs.Columns

/-!
# Padding

The NULs at the end of a string do not matter to any operation: comparisons go on as
if there were more of them (`Text.comparePadded_trimPadding`), and storing a string
at a width that holds it adds some (`Text.trimPadding_padded`). So a rule makes the
same of values that differ in padding only (`Operation.rule?_natural`).
-/

namespace Lanewise

/-! ## Strings -/

namespace Text

/-- Fillings of a string. -/
theorem exists_trimPadding_append (s : List UInt8) :
    ∃ n, s = trimPadding s ++ List.replicate n 0 := by
  have hsplit := List.takeWhile_append_dropWhile (p := (· == 0)) (l := s.reverse)
  have hzeros : s.reverse.takeWhile (· == 0)
      = List.replicate (s.reverse.takeWhile (· == 0)).length 0 :=
    List.eq_replicate_iff.2 ⟨rfl, fun x hx =>
      eq_of_beq (List.all_eq_true.1 List.all_takeWhile x hx)⟩
  refine ⟨(s.reverse.takeWhile (· == 0)).length, ?_⟩
  calc s = (s.reverse.takeWhile (· == 0) ++ s.reverse.dropWhile (· == 0)).reverse := by
        rw [hsplit, List.reverse_reverse]
    _ = trimPadding s ++ (s.reverse.takeWhile (· == 0)).reverse := List.reverse_append ..
    _ = _ := by
        rw [hzeros, List.reverse_replicate, List.length_replicate]

theorem trimPadding_append_zeros (s : List UInt8) (n : Nat) :
    trimPadding (s ++ List.replicate n 0) = trimPadding s := by
  unfold trimPadding
  rw [List.reverse_append, List.reverse_replicate, List.dropWhile_append]
  simp

theorem compareEmpty_append_zeros (s : List UInt8) (n : Nat) :
    compareEmpty (s ++ List.replicate n 0) = compareEmpty s := by
  induction s with
  | nil =>
    induction n with
    | zero => rfl
    | succ n ih => simpa [List.replicate_succ, compareEmpty] using ih
  | cons x xs ih => simp only [List.cons_append, compareEmpty, ih]

theorem comparePadded_nil_right (s : List UInt8) : comparePadded s [] = compareEmpty s := by
  cases s <;> rfl

theorem comparePadded_nil_left (s : List UInt8) : comparePadded [] s = (compareEmpty s).swap := by
  cases s <;> rfl

theorem comparePadded_swap (s t : List UInt8) : (comparePadded t s).swap = comparePadded s t := by
  induction s generalizing t with
  | nil => rw [comparePadded_nil_left, comparePadded_nil_right]
  | cons x xs ih =>
    cases t with
    | nil => rw [comparePadded_nil_left, comparePadded_nil_right, Ordering.swap_swap]
    | cons y ys =>
      rw [comparePadded, comparePadded, Ordering.swap_then, ih, ← Std.OrientedCmp.eq_swap]

theorem comparePadded_append_zeros (s t : List UInt8) (n : Nat) :
    comparePadded (s ++ List.replicate n 0) t = comparePadded s t := by
  induction s generalizing t with
  | nil =>
    rw [List.nil_append, comparePadded_nil_left]
    induction n generalizing t with
    | zero => exact comparePadded_nil_left t
    | succ n ih =>
      rw [List.replicate_succ]
      cases t with
      | nil =>
        exact (comparePadded_nil_right _).trans (compareEmpty_append_zeros [] (n + 1))
      | cons y ys =>
        rw [comparePadded, ih, compareEmpty, Ordering.swap_then, ← Std.OrientedCmp.eq_swap]
  | cons x xs ih =>
    cases t with
    | nil => rw [comparePadded_nil_right, comparePadded_nil_right, compareEmpty_append_zeros]
    | cons y ys => rw [List.cons_append, comparePadded, comparePadded, ih]

/-- Comparing does not see padding. -/
theorem comparePadded_trimPadding (s t : List UInt8) :
    comparePadded (trimPadding s) (trimPadding t) = comparePadded s t := by
  obtain ⟨m, hs⟩ := exists_trimPadding_append s
  obtain ⟨n, ht⟩ := exists_trimPadding_append t
  calc comparePadded (trimPadding s) (trimPadding t)
      = comparePadded s (trimPadding t) := by
        conv_rhs => rw [hs, comparePadded_append_zeros]
    _ = (comparePadded (trimPadding t) s).swap := (comparePadded_swap _ _).symm
    _ = (comparePadded t s).swap := by
        conv_rhs => rw [ht, comparePadded_append_zeros]
    _ = comparePadded s t := comparePadded_swap _ _

theorem comparePadded_congr {s t s' t' : List UInt8} (hs : trimPadding s = trimPadding s')
    (ht : trimPadding t = trimPadding t') : comparePadded s t = comparePadded s' t' := by
  rw [← comparePadded_trimPadding s t, hs, ht, comparePadded_trimPadding]

theorem toList_padded {width : Nat} {s : List UInt8} (h : s.length ≤ width) :
    (padded width s).toList = s ++ List.replicate (width - s.length) 0 := by
  apply List.ext_getElem
  · simp
    omega
  · intro i h₁ h₂
    by_cases hi : i < s.length
    · simp [padded, hi]
    · rw [List.getElem_append_right (by omega), List.getElem_replicate]
      simp [padded, hi]

/-- A string that fits is stored whole. -/
theorem trimPadding_padded {width : Nat} {s : List UInt8} (h : s.length ≤ width) :
    trimPadding (padded width s).toList = trimPadding s := by
  rw [toList_padded h, trimPadding_append_zeros]

end Text

/-! ## Values -/

/-- The strings that occur in two evaluations, without their padding, and the width of
results in each of the two. -/
structure Vocabulary where
  width : Nat
  width' : Nat
  Has : List UInt8 → Prop
  empty : Has []

/-- Values that stand for each other in two evaluations: the same value, or two fillings of a
string. Each fits the results of its own evaluation. -/
def Vocabulary.Akin (v : Vocabulary) : (t : ElementType) → t.Value → t.Value → Prop
  | .str, (x : List UInt8), (y : List UInt8) =>
    Text.trimPadding x = Text.trimPadding y ∧ v.Has (Text.trimPadding x) ∧
      x.length ≤ v.width ∧ y.length ≤ v.width'
  | .bool, x, y | .int, x, y | .long, x, y | .float, x, y | .double, x, y | .complex, x, y => x = y

namespace Vocabulary

variable {v : Vocabulary} {t : ElementType}

theorem akin_iff_eq (h : t ≠ .str) {x y : t.Value} : v.Akin t x y ↔ x = y := by
  cases t with
  | str => exact absurd rfl h
  | _ => exact Iff.rfl

/-- Strings that are stored at widths that hold them. -/
theorem akin_padded {x y : List UInt8} (hsame : Text.trimPadding x = Text.trimPadding y)
    (hhas : v.Has (Text.trimPadding x)) {m n : Nat} (hx : x.length ≤ m) (hy : y.length ≤ n)
    (hm : m ≤ v.width) (hn : n ≤ v.width') :
    v.Akin .str (Text.padded m x).toList (Text.padded n y).toList := by
  refine ⟨?_, ?_, ?_, ?_⟩
  · rw [Text.trimPadding_padded hx, Text.trimPadding_padded hy, hsame]
  · rwa [Text.trimPadding_padded hx]
  · rwa [Vector.length_toList]
  · rwa [Vector.length_toList]

/-- A result takes a string whole. -/
theorem Akin.padded {x y : List UInt8} (h : v.Akin .str x y) :
    v.Akin .str (Text.padded v.width x).toList (Text.padded v.width' y).toList :=
  akin_padded h.1 h.2.1 h.2.2.1 h.2.2.2 (Nat.le_refl _) (Nat.le_refl _)

end Vocabulary

/-- One value after the other. -/
def Values.Akin (v : Vocabulary) : {ts : List ElementType} → Values ts → Values ts → Prop
  | _, .nil, .nil => True
  | _, .cons x xs, .cons y ys => v.Akin _ x y ∧ xs.Akin v ys

variable {v : Vocabulary}

theorem Values.Akin.eq_of_plain {ts : List ElementType} {xs ys : Values ts} (h : xs.Akin v ys)
    (hplain : ∀ t ∈ ts, t ≠ .str) : xs = ys := by
  induction xs with
  | nil =>
    cases ys
    rfl
  | cons x xs ih =>
    cases ys with
    | cons y ys =>
      obtain rfl := (Vocabulary.akin_iff_eq (hplain _ (.head _))).1 h.1
      rw [ih h.2 fun t ht => hplain t (.tail _ ht)]

/-! ## Rules -/

/-- A rule that does not see padding, and makes no strings of its own. -/
def Rule.Natural (v : Vocabulary) : Rule → Prop
  | .map arguments result f =>
    ∀ xs ys : Values arguments, xs.Akin v ys → v.Akin result (f xs) (f ys)
  | .fold t _ => t ≠ .str

theorem Rule.natural_of_plain {arguments : List ElementType} {result : ElementType}
    {f : Values arguments → result.Value} (harguments : ∀ t ∈ arguments, t ≠ .str)
    (hresult : result ≠ .str) : (Rule.map arguments result f).Natural v := by
  intro xs ys h
  rw [h.eq_of_plain harguments, Vocabulary.akin_iff_eq hresult]

theorem Rule.natural_unary {a r : ElementType} {f : a.Value → r.Value} (ha : a ≠ .str)
    (hr : r ≠ .str) : (Rule.unary a r f).Natural v :=
  natural_of_plain (by simpa using ha) hr

theorem Rule.natural_binary {a b r : ElementType} {f : a.Value → b.Value → r.Value} (ha : a ≠ .str)
    (hb : b ≠ .str) (hr : r ≠ .str) : (Rule.binary a b r f).Natural v :=
  natural_of_plain (by simp [ha, hb]) hr

theorem Rule.natural_select (t : ElementType) : (Rule.select t).Natural v := by
  intro xs ys h
  match xs, ys, h with
  | .cons c (.cons x (.cons y .nil)), .cons d (.cons x' (.cons y' .nil)), ⟨hc, hx, hy, _⟩ =>
    obtain rfl : c = d := hc
    cases (show Bool from c) with
    | true => exact hx
    | false => exact hy

/-- Relations between strings are relations between their orders. -/
theorem Relation.congr_of_on? {r : Relation} {f : List UInt8 → List UInt8 → Bool}
    (h : r.on? .str = some f) {s t s' t' : List UInt8}
    (hs : Text.trimPadding s = Text.trimPadding s')
    (ht : Text.trimPadding t = Text.trimPadding t') :
    f s t = f s' t' := by
  cases h
  cases r <;>
    simp only [ofOrder, Text.comparePadded_congr hs ht, Text.comparePadded_congr ht hs]

theorem Rule.natural_compare {r : Relation} {f : List UInt8 → List UInt8 → Bool}
    (h : r.on? .str = some f) : (Rule.binary .str .str .bool f).Natural v := by
  intro xs ys hakin
  match xs, ys, hakin with
  | .cons x (.cons y .nil), .cons x' (.cons y' .nil), ⟨hx, hy, _⟩ =>
    exact r.congr_of_on? h hx.1 hy.1

theorem ElementType.ne_str_of_cast? {s t : ElementType} {f : s.Value → t.Value}
    (h : s.cast? t = some f) : s ≠ .str ∧ t ≠ .str := by
  cases s <;> cases t <;> first | cases h; done | decide

/-- No operation sees the padding of a string. -/
theorem Operation.rule?_natural {op : Operation} {index : UInt8} {rule : Rule}
    (h : op.rule? index = some rule) : rule.Natural v := by
  cases op with
  | noop => cases h
  | copy t =>
    cases h
    intro xs ys hakin
    match xs, ys, hakin with
    | .cons x .nil, .cons y .nil, ⟨hx, _⟩ => exact hx
  | invert =>
    cases h
    exact Rule.natural_unary (by decide) (by decide)
  | and | or =>
    cases h
    exact Rule.natural_binary (by decide) (by decide) (by decide)
  | compare r t =>
    obtain ⟨f, hf, rfl⟩ := Option.map_eq_some_iff.1 h
    by_cases ht : t = .str
    · subst ht
      exact Rule.natural_compare hf
    · exact Rule.natural_binary ht ht (by decide)
  | cast source target =>
    obtain ⟨f, hf, rfl⟩ := Option.map_eq_some_iff.1 h
    obtain ⟨hsource, htarget⟩ := ElementType.ne_str_of_cast? hf
    exact Rule.natural_unary hsource htarget
  | onesLike t | neg t | sqrt t =>
    obtain ⟨f, hf, rfl⟩ := Option.map_eq_some_iff.1 h
    have ht : t ≠ .str := by
      rintro rfl
      cases hf
    exact Rule.natural_unary ht ht
  | arithmetic f t =>
    obtain ⟨f, hf, rfl⟩ := Option.map_eq_some_iff.1 h
    have ht : t ≠ .str := by
      rintro rfl
      cases hf
    exact Rule.natural_binary ht ht ht
  | select t =>
    cases h
    exact Rule.natural_select t
  | call family =>
    cases family <;>
    · obtain ⟨f, -, rfl⟩ := Option.map_eq_some_iff.1 h
      first
        | exact Rule.natural_unary (by decide) (by decide)
        | exact Rule.natural_binary (by decide) (by decide) (by decide)
  | real | imag =>
    cases h
    exact Rule.natural_unary (by decide) (by decide)
  | complex =>
    cases h
    exact Rule.natural_binary (by decide) (by decide) (by decide)
  | reduce r t =>
    obtain ⟨f, hf, rfl⟩ := Option.map_eq_some_iff.1 h
    rintro rfl
    cases r <;> cases hf

end Lanewise
