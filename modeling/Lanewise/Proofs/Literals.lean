import Lanewise.Proofs.Lines
import Lanewise.Proofs.Numerals
import Lanewise.Proofs.Shortest

/-!
# Floating-point literals

A decimal literal is digits with a fraction, an exponent or both. However a
number is laid out, its text is such a literal of the same value
(`exists_literal_layoutDecimal`), and with or without a sign a literal is a single
token that holds the nearest bits (`Literal.isToken`).
-/

namespace Lanewise.Assembly

open BinaryFormat

/-! ## Digits in front of something else -/

/-- The text does not go on with a digit. -/
def EndsDigits (rest : List Char) : Prop :=
  ∀ c, rest.head? = some c → c.isDigit = false

theorem takeWhile_digits {digits rest : List Char} (hdigits : ∀ c ∈ digits, c.isDigit = true)
    (hend : EndsDigits rest) : (digits ++ rest).takeWhile Char.isDigit = digits := by
  rw [List.takeWhile_append_of_pos hdigits]
  cases rest with
  | nil => simp
  | cons c rest => simp [hend c rfl]

theorem dropWhile_digits {digits rest : List Char} (hdigits : ∀ c ∈ digits, c.isDigit = true)
    (hend : EndsDigits rest) : (digits ++ rest).dropWhile Char.isDigit = rest := by
  rw [List.dropWhile_append_of_pos hdigits]
  cases rest with
  | nil => rfl
  | cons c rest => simp [hend c rfl]

theorem foldl_digits (digits : List Char) (n : Nat) :
    digits.foldl (fun n c => 10 * n + (c.toNat - '0'.toNat)) n =
      n * 10 ^ digits.length + digitsValue digits := by
  induction digits generalizing n with
  | nil => simp [digitsValue]
  | cons c digits ih =>
    simp only [digitsValue, List.foldl_cons, List.length_cons, ih (10 * n + _), ih (10 * 0 + _)]
    ring

theorem digitsValue_append (front back : List Char) :
    digitsValue (front ++ back) = digitsValue front * 10 ^ back.length + digitsValue back := by
  rw [digitsValue, List.foldl_append, foldl_digits]
  rfl

theorem digitsValue_zeros (count : Nat) : digitsValue (List.replicate count '0') = 0 := by
  induction count with
  | zero => rfl
  | succ count ih =>
    rw [List.replicate_succ, ← List.singleton_append, digitsValue_append, ih]
    simp [digitsValue]

/-! ## Exponents -/

theorem exponentValue_integerChars (x : Int) : exponentValue (integerChars x) = x := by
  cases x with
  | negSucc n =>
    simp only [integerChars, exponentValue, digitsValue_toDigits]
    rfl
  | ofNat n =>
    have hdigits : ∀ c ∈ Nat.toDigits 10 n, c.isDigit = true := fun c => isDigit_of_mem_toDigits
    simp only [integerChars]
    unfold exponentValue
    split
    · next rest h => cases hdigits '-' (h ▸ .head rest)
    · next rest h => cases hdigits '+' (h ▸ .head rest)
    · rw [digitsValue_toDigits]
      rfl

theorem exponentLength_integerChars (x : Int) :
    exponentLength ('e' :: integerChars x) = (integerChars x).length + 1 := by
  rw [exponentLength_cons, if_pos (.inl rfl)]
  cases x with
  | negSucc n =>
    rw [integerChars, if_pos (.inr rfl), List.tail_cons,
      leadLength_digits (fun c => isDigit_of_mem_toDigits) (toDigits_ne_nil _), List.length_cons]
    omega
  | ofNat n =>
    have hsign :
        ¬ ((Nat.toDigits 10 n).head? = some '+' ∨ (Nat.toDigits 10 n).head? = some '-') := by
      rintro (h | h)
      · cases isDigit_of_mem_toDigits (List.mem_of_mem_head? h)
      · cases isDigit_of_mem_toDigits (List.mem_of_mem_head? h)
    rw [integerChars, if_neg hsign,
      leadLength_digits (fun c => isDigit_of_mem_toDigits) (toDigits_ne_nil _)]
    omega

theorem mem_integerChars {x : Int} {c : Char} (h : c ∈ integerChars x) :
    c.isDigit = true ∨ c = '-' := by
  cases x with
  | negSucc n => exact (List.mem_cons.1 h).symm.imp_left isDigit_of_mem_toDigits
  | ofNat n => exact .inl (isDigit_of_mem_toDigits h)

/-! ## Literals -/

/-- A decimal number without sign that is not written as an integer. -/
structure Literal where
  whole : List Char
  /-- Digits behind the point; without any there is no point. -/
  fraction : List Char
  exponent? : Option Int
  whole_ne_nil : whole ≠ []
  isDigit_whole : ∀ c ∈ whole, c.isDigit = true
  isDigit_fraction : ∀ c ∈ fraction, c.isDigit = true
  not_integer : fraction ≠ [] ∨ exponent? ≠ none

namespace Literal

def pointChars (t : Literal) : List Char :=
  if t.fraction = [] then [] else '.' :: t.fraction

def exponentChars (t : Literal) : List Char :=
  match t.exponent? with
  | none => []
  | some x => 'e' :: integerChars x

def chars (t : Literal) : List Char :=
  t.whole ++ (t.pointChars ++ t.exponentChars)

/-- The digits as one number. -/
def digits (t : Literal) : Nat :=
  digitsValue (t.whole ++ t.fraction)

/-- The power of ten that the last digit counts. -/
def exponent (t : Literal) : Int :=
  t.exponent?.getD 0 - t.fraction.length

variable (t : Literal)

theorem endsDigits_exponentChars : EndsDigits t.exponentChars := by
  unfold exponentChars
  split
  · exact nofun
  · rintro _ ⟨⟩
    rfl

theorem endsDigits_tail : EndsDigits (t.pointChars ++ t.exponentChars) := by
  unfold pointChars
  split
  · exact t.endsDigits_exponentChars
  · rintro _ ⟨⟩
    rfl

theorem head?_exponentChars : t.exponentChars.head? ≠ some '.' := by
  unfold exponentChars
  split <;> simp

theorem tail_of_nil (h : t.fraction = []) : t.pointChars ++ t.exponentChars = t.exponentChars := by
  rw [pointChars, if_pos h, List.nil_append]

theorem tail_of_ne_nil (h : t.fraction ≠ []) :
    t.pointChars ++ t.exponentChars = '.' :: (t.fraction ++ t.exponentChars) := by
  rw [pointChars, if_neg h, List.cons_append]

theorem exponentValue_exponentChars :
    exponentValue (t.exponentChars.drop 1) = t.exponent?.getD 0 := by
  unfold exponentChars
  cases t.exponent? with
  | none => rfl
  | some x => exact exponentValue_integerChars x

/-- A literal is read as its digits and its exponent. -/
theorem ofUnsignedLiteral_chars (fmt : BinaryFormat) :
    fmt.ofUnsignedLiteral t.chars = fmt.ofDecimal t.digits t.exponent := by
  have hwhole := takeWhile_digits t.isDigit_whole t.endsDigits_tail
  have htail := dropWhile_digits t.isDigit_whole t.endsDigits_tail
  have hexponent := t.exponentValue_exponentChars
  simp only [ofUnsignedLiteral, chars, hwhole, htail, digits, exponent]
  by_cases hfraction : t.fraction = []
  · rw [t.tail_of_nil hfraction, hfraction]
    split
    · next rest h => exact absurd (h ▸ rfl) t.head?_exponentChars
    · rw [hexponent]
  · have hpoint := takeWhile_digits t.isDigit_fraction t.endsDigits_exponentChars
    have hrest := dropWhile_digits t.isDigit_fraction t.endsDigits_exponentChars
    simp only [t.tail_of_ne_nil hfraction, hpoint, hrest, hexponent]

theorem exponentLength_exponentChars :
    exponentLength t.exponentChars = t.exponentChars.length := by
  unfold exponentChars
  split
  · rfl
  · exact exponentLength_integerChars _

theorem mem_chars {c : Char} (h : c ∈ t.chars) : c.isDigit = true ∨ c ∈ ['.', 'e', '-'] := by
  rw [chars, List.mem_append, List.mem_append] at h
  rcases h with h | h | h
  · exact .inl (t.isDigit_whole c h)
  · unfold pointChars at h
    split at h
    · cases h
    · rcases List.mem_cons.1 h with rfl | h
      · exact .inr (by decide)
      · exact .inl (t.isDigit_fraction c h)
  · unfold exponentChars at h
    split at h
    · cases h
    · rcases List.mem_cons.1 h with rfl | h
      · exact .inr (by decide)
      · rcases mem_integerChars h with h | rfl
        · exact .inl h
        · exact .inr (by decide)

/-! ## Tokens -/

/-- The sign in front of a literal. -/
def signChars (negative : Bool) : List Char :=
  if negative then ['-'] else []

theorem exists_cons_chars : ∃ c cs, t.chars = c :: cs ∧ c.isDigit = true := by
  obtain ⟨c, whole, hwhole⟩ := List.exists_cons_of_ne_nil t.whole_ne_nil
  refine ⟨c, whole ++ (t.pointChars ++ t.exponentChars), ?_, ?_⟩
  · rw [chars, hwhole, List.cons_append]
  · exact t.isDigit_whole c (hwhole ▸ .head _)

theorem integerLength_signed (negative : Bool) :
    integerLength (signChars negative ++ t.chars) =
      (signChars negative).length + t.whole.length := by
  have hspan : spanLength Char.isDigit t.chars = t.whole.length := by
    rw [spanLength, chars, takeWhile_digits t.isDigit_whole t.endsDigits_tail]
  have hlead (lead : Nat) : leadLength lead Char.isDigit t.chars = lead + t.whole.length := by
    rw [leadLength, hspan]
    split
    · next h => exact absurd (List.eq_nil_of_length_eq_zero h) t.whole_ne_nil
    · rfl
  cases negative with
  | true =>
    show integerLength ('-' :: t.chars) = 1 + t.whole.length
    rw [integerLength_cons, if_pos rfl, hlead]
  | false =>
    show integerLength t.chars = 0 + t.whole.length
    obtain ⟨c, cs, hchars, hc⟩ := t.exists_cons_chars
    rw [hchars, integerLength_cons, if_neg (ne_of_isDigit hc rfl), ← hchars, hlead]

theorem decimalLength_signed (negative : Bool) :
    decimalLength (signChars negative ++ t.chars) = (signChars negative ++ t.chars).length := by
  have hwhole := t.integerLength_signed negative
  have hpos : 0 < t.whole.length := List.length_pos_of_ne_nil t.whole_ne_nil
  have htail : (signChars negative ++ t.chars).drop
      ((signChars negative).length + t.whole.length) = t.pointChars ++ t.exponentChars := by
    rw [chars, ← List.append_assoc, ← List.length_append, List.drop_left]
  have hlength : (signChars negative ++ t.chars).length =
      (signChars negative).length + t.whole.length + (t.pointChars ++ t.exponentChars).length := by
    simp [chars, Nat.add_assoc]
  simp only [decimalLength_eq, hwhole, htail, hlength]
  rw [if_neg (by omega)]
  by_cases hfraction : t.fraction = []
  · have hexponent : t.exponentChars ≠ [] := by
      have hsome := t.not_integer.resolve_left (fun h => h hfraction)
      unfold exponentChars
      split
      · next hnone => exact absurd hnone hsome
      · exact List.cons_ne_nil _ _
    have hlong : t.exponentChars.length ≠ 0 := fun h => hexponent (List.eq_nil_of_length_eq_zero h)
    rw [t.tail_of_nil hfraction, if_neg t.head?_exponentChars, t.exponentLength_exponentChars,
      if_neg hlong]
  · have hspan : spanLength Char.isDigit (t.fraction ++ t.exponentChars) = t.fraction.length := by
      rw [spanLength, takeWhile_digits t.isDigit_fraction t.endsDigits_exponentChars]
    simp only [t.tail_of_ne_nil hfraction, List.head?_cons, if_true, List.tail_cons, hspan,
      List.drop_left, t.exponentLength_exponentChars, List.length_cons, List.length_append]
    omega

theorem exists_cons_signed (negative : Bool) : ∃ first others,
    signChars negative ++ t.chars = first :: others ∧ (first = '-' ∨ first.isDigit = true) := by
  obtain ⟨c, cs, hchars, hc⟩ := t.exists_cons_chars
  cases negative with
  | true => exact ⟨'-', t.chars, rfl, .inl rfl⟩
  | false => exact ⟨c, cs, hchars, .inr hc⟩

theorem namedNumberLength_signed (negative : Bool) :
    namedNumberLength (signChars negative ++ t.chars) = 0 := by
  obtain ⟨c, cs, hchars, hc⟩ := t.exists_cons_chars
  cases negative with
  | true =>
    show namedNumberLength ('-' :: t.chars) = 0
    rw [namedNumberLength_cons, if_pos rfl, hchars, bare_digit hc, if_pos rfl]
  | false =>
    show namedNumberLength t.chars = 0
    rw [hchars, namedNumberLength_cons, if_neg (ne_of_isDigit hc rfl), bare_digit hc]

/-- No letter of a literal could start a hexadecimal number. -/
theorem hexLength_signed (negative : Bool) : hexLength (signChars negative ++ t.chars) = 0 := by
  obtain ⟨first, others, htext, -⟩ := t.exists_cons_signed negative
  rw [htext, hexLength_cons, if_neg]
  rintro ⟨-, hx⟩
  have hmem : 'x' ∈ signChars negative ++ t.chars :=
    htext ▸ List.mem_cons_of_mem _ (List.mem_of_mem_head? hx)
  rcases List.mem_append.1 hmem with h | h
  · cases negative <;> simp [signChars] at h
  · rcases t.mem_chars h with h | h
    · cases h
    · simp at h

/-- A literal with its sign is matched as a whole, by the rule for decimals. -/
theorem longestMatch_signed (negative : Bool) :
    longestMatch (signChars negative ++ t.chars) =
      ((signChars negative ++ t.chars).length, some ⟨decimalLength, floatToken?⟩) := by
  have hdecimal := t.decimalLength_signed negative
  have hinteger := integerLength_le (signChars negative ++ t.chars)
  have hnamed := t.namedNumberLength_signed negative
  have hhex := t.hexLength_signed negative
  obtain ⟨first, others, htext, hfirst⟩ := t.exists_cons_signed negative
  rw [htext] at hdecimal hinteger hnamed hhex ⊢
  have hmatch := @longestMatch_eq (first :: others) ⟨decimalLength, floatToken?⟩ (rules.take 4)
    (rules.drop 5) rfl
  simp only [hdecimal] at hmatch
  refine hmatch (by simp) ?_ ?_
  · simp [rules, registerLength_numeral hfirst, hnamed, wordLength_numeral hfirst, hhex]
  · simp only [List.length_cons] at hinteger
    simp [rules, stringLength_numeral hfirst, directiveLength_numeral hfirst,
      matchLength_numeral hfirst, hinteger]

theorem ofLiteral_signed (fmt : BinaryFormat) (negative : Bool) :
    fmt.ofLiteral (signChars negative ++ t.chars) =
      fmt.withSign negative (fmt.ofDecimal t.digits t.exponent) := by
  obtain ⟨c, cs, hchars, hc⟩ := t.exists_cons_chars
  have hsplit : splitMinus (signChars negative ++ t.chars) = (negative, t.chars) := by
    cases negative with
    | true => rfl
    | false =>
      show splitMinus t.chars = _
      unfold splitMinus
      split
      · next rest h =>
        rw [h] at hchars
        obtain rfl := (List.cons.inj hchars).1
        cases hc
      · rfl
  have hnamed (name : List Char) (hname : ∀ d, name.head? = some d → d.isDigit = false)
      (hne : name ≠ []) : t.chars ≠ name := by
    rintro rfl
    rw [hchars] at hname
    cases hc.symm.trans (hname c rfl)
  rw [ofLiteral, hsplit]
  dsimp only
  rw [if_neg (hnamed _ (by rintro _ ⟨⟩; rfl) (by decide)), if_neg, t.ofUnsignedLiteral_chars]
  rintro (h | h)
  · exact hnamed _ (by rintro _ ⟨⟩; rfl) (by decide) h
  · exact hnamed _ (by rintro _ ⟨⟩; rfl) (by decide) h

/-- A literal is a single token: the bits of the nearest 64-bit number. -/
theorem isToken (negative : Bool) :
    IsToken (signChars negative ++ t.chars)
      (.float (double.withSign negative (double.ofDecimal t.digits t.exponent)).toUInt64) := by
  refine ⟨?_, ?_, ?_⟩
  · obtain ⟨c, cs, hchars, -⟩ := t.exists_cons_chars
    simp [hchars]
  · intro c hc
    rcases List.mem_append.1 hc with hc | hc
    · cases negative with
      | true =>
        obtain rfl := List.mem_singleton.1 hc
        rfl
      | false => cases hc
    · rcases t.mem_chars hc with hc | hc
      · exact isSolid_of_isDigit hc
      · simp only [List.mem_cons, List.not_mem_nil, or_false] at hc
        rcases hc with rfl | rfl | rfl <;> rfl
  · rw [firstToken, t.longestMatch_signed]
    simp only [List.take_length, floatToken?, t.ofLiteral_signed]

end Literal

/-! ## Texts of numbers -/

theorem isDigit_zeros (count : Nat) : ∀ c ∈ List.replicate count '0', c.isDigit = true := by
  intro c hc
  rw [List.eq_of_mem_replicate hc]
  rfl

section Layout

variable {digits : List Char} (hdigits : ∀ c ∈ digits, c.isDigit = true) (hne : digits ≠ [])
include hdigits hne

/-- One digit in front of the point, and an exponent. -/
theorem exists_literal_exponent (x : Int) :
    ∃ t : Literal,
      t.chars = digits.take 1 ++
        ((if digits.drop 1 = [] then [] else '.' :: digits.drop 1) ++ 'e' :: integerChars x) ∧
      (t.digits : ℚ) * 10 ^ t.exponent = digitsValue digits * 10 ^ (x + 1 - digits.length) := by
  have hwhole : digits.take 1 ≠ [] := by simpa using hne
  have hlength : 0 < digits.length := List.length_pos_of_ne_nil hne
  refine ⟨⟨digits.take 1, digits.drop 1, some x, hwhole,
    fun c hc => hdigits c (List.mem_of_mem_take hc),
    fun c hc => hdigits c (List.mem_of_mem_drop hc), .inr nofun⟩, rfl, ?_⟩
  simp only [Literal.digits, Literal.exponent, List.take_append_drop, Option.getD_some,
    List.length_drop]
  congr 2
  omega

/-- Zeros behind the point, and then the digits. -/
theorem exists_literal_behind (count : Nat) :
    ∃ t : Literal, t.chars = '0' :: '.' :: (List.replicate count '0' ++ digits) ∧
      (t.digits : ℚ) * 10 ^ t.exponent =
        digitsValue digits * 10 ^ (-(count + digits.length : Nat) : Int) := by
  have hzeros := isDigit_zeros count
  have hfraction : List.replicate count '0' ++ digits ≠ [] := by simp [hne]
  refine ⟨⟨['0'], List.replicate count '0' ++ digits, none, List.cons_ne_nil _ _, isDigit_zeros 1,
    fun c hc => (List.mem_append.1 hc).elim (hzeros c) (hdigits c), .inl hfraction⟩, ?_, ?_⟩
  · simp [Literal.chars, Literal.pointChars, Literal.exponentChars, hne]
  · have hzero : digitsValue ['0'] = 0 := rfl
    simp only [Literal.digits, Literal.exponent, digitsValue_append, digitsValue_zeros, hzero,
      Option.getD_none, List.length_append, List.length_replicate, Nat.zero_mul, Nat.zero_add,
      zero_sub]

/-- The digits, and then zeros in front of the point. -/
theorem exists_literal_front (count : Nat) :
    ∃ t : Literal, t.chars = digits ++ (List.replicate count '0' ++ ['.', '0']) ∧
      (t.digits : ℚ) * 10 ^ t.exponent = digitsValue digits * 10 ^ (count : Int) := by
  have hzeros := isDigit_zeros count
  refine ⟨⟨digits ++ List.replicate count '0', ['0'], none, by simp [hne],
    fun c hc => (List.mem_append.1 hc).elim (hdigits c) (hzeros c), isDigit_zeros 1,
    .inl (List.cons_ne_nil _ _)⟩, ?_, ?_⟩
  · simp [Literal.chars, Literal.pointChars, Literal.exponentChars]
  · have hzero : digitsValue ['0'] = 0 := rfl
    simp only [Literal.digits, Literal.exponent, digitsValue_append, digitsValue_zeros, hzero,
      Option.getD_none, List.length_replicate, List.length_cons, List.length_nil, zpow_natCast]
    push_cast
    norm_num
    ring

omit hne in
/-- The point among the digits. -/
theorem exists_literal_among {point : Nat} (hlow : 0 < point) (hhigh : point < digits.length) :
    ∃ t : Literal, t.chars = digits.take point ++ '.' :: digits.drop point ∧
      (t.digits : ℚ) * 10 ^ t.exponent =
        digitsValue digits * 10 ^ (-(digits.length - point : Nat) : Int) := by
  have htake : digits.take point ≠ [] := by
    apply List.ne_nil_of_length_pos
    rw [List.length_take]
    omega
  have hdrop : digits.drop point ≠ [] := by
    apply List.ne_nil_of_length_pos
    rw [List.length_drop]
    omega
  refine ⟨⟨digits.take point, digits.drop point, none, htake,
    fun c hc => hdigits c (List.mem_of_mem_take hc),
    fun c hc => hdigits c (List.mem_of_mem_drop hc), .inl hdrop⟩, ?_, ?_⟩
  · simp [Literal.chars, Literal.pointChars, Literal.exponentChars, hdrop]
  · simp only [Literal.digits, Literal.exponent, List.take_append_drop, Option.getD_none,
      List.length_drop, zero_sub]

end Layout

/-- The layout of a decimal is a literal of the same value. -/
theorem exists_literal_layoutDecimal (n : Nat) (e : Int) :
    ∃ t : Literal, (layoutDecimal literalStyle n e).toList = t.chars ∧
      (t.digits : ℚ) * 10 ^ t.exponent = n * 10 ^ e := by
  have hdigits : ∀ c ∈ Nat.toDigits 10 n, c.isDigit = true := fun c => isDigit_of_mem_toDigits
  have hvalue := digitsValue_toDigits n
  have hne := toDigits_ne_nil n
  unfold layoutDecimal
  generalize Nat.toDigits 10 n = digits at hdigits hvalue hne
  subst hvalue
  dsimp only
  split
  · obtain ⟨t, hchars, hsame⟩ := exists_literal_exponent hdigits hne (digits.length + e - 1)
    refine ⟨t, ?_, ?_⟩
    · simp only [hchars, String.toList_append, String.toList_ofList, toList_toString_int,
        List.isEmpty_iff]
      split <;> simp
    · rw [hsame]
      congr 2
      ring
  split
  · next hpoint =>
    have hnonneg : 0 ≤ -((digits.length : Int) + e) := by omega
    obtain ⟨count, hcount⟩ := Int.eq_ofNat_of_zero_le hnonneg
    obtain ⟨t, hchars, hsame⟩ := exists_literal_behind hdigits hne count
    refine ⟨t, ?_, ?_⟩
    · simp [hchars, hcount]
    · rw [hsame]
      congr 2
      push_cast
      omega
  split
  · next hlong =>
    obtain ⟨count, rfl⟩ := Int.eq_ofNat_of_zero_le (show 0 ≤ e by omega)
    obtain ⟨t, hchars, hsame⟩ := exists_literal_front hdigits hne count
    refine ⟨t, ?_, hsame⟩
    simp [hchars]
  · next hlong =>
    have hnonneg : 0 ≤ (digits.length : Int) + e := by omega
    obtain ⟨point, hpoint⟩ := Int.eq_ofNat_of_zero_le hnonneg
    obtain ⟨t, hchars, hsame⟩ := @exists_literal_among digits hdigits point (by omega) (by omega)
    refine ⟨t, ?_, ?_⟩
    · simp [hchars, hpoint]
    · rw [hsame]
      congr 2
      omega

end Lanewise.Assembly
