import Mathlib.Data.List.TakeWhile
import Lanewise.Proofs.Lexing

/-!
# Words and numbers as tokens

Which token a single word is: integers in decimal, plain words and register names,
the latter in front of anything that ends a word. The numbers that are written go
through `Nat.toDigits`, whose digits read back as the number they were made of.
-/

namespace Lanewise.Assembly

/-! ## Decimal digits -/

theorem digitsValue_toDigits (n : Nat) : BinaryFormat.digitsValue (Nat.toDigits 10 n) = n :=
  Nat.ofDigitChars_toDigits (by decide) (by decide)

theorem isDigit_of_mem_toDigits {n : Nat} {c : Char} (h : c ∈ Nat.toDigits 10 n) :
    c.isDigit = true :=
  Nat.isDigit_of_mem_toDigits (by decide) (by decide) h

theorem toDigits_ne_nil (n : Nat) : Nat.toDigits 10 n ≠ [] :=
  List.ne_nil_of_length_pos Nat.length_toDigits_pos

theorem ne_of_isDigit {c d : Char} (hc : c.isDigit = true) (hd : d.isDigit = false) : c ≠ d := by
  rintro rfl
  rw [hc] at hd
  cases hd

/-- A run of characters of a class, in front of something else. -/
theorem spanLength_run {p : Char → Bool} {run rest : List Char} (hrun : ∀ c ∈ run, p c = true)
    (hrest : ∀ c, rest.head? = some c → p c = false) :
    spanLength p (run ++ rest) = run.length := by
  rw [spanLength, List.takeWhile_append_of_pos hrun]
  cases rest with
  | nil => simp
  | cons c rest => simp [hrest c rfl]

/-- Every text starts with a run of the characters of a class. -/
theorem exists_run (p : Char → Bool) (cs : List Char) :
    ∃ run rest, cs = run ++ rest ∧ (∀ c ∈ run, p c = true) ∧
      ∀ c, rest.head? = some c → p c = false := by
  refine ⟨cs.takeWhile p, cs.dropWhile p, List.takeWhile_append_dropWhile.symm,
    fun c => List.mem_takeWhile_imp, fun c hc => ?_⟩
  have hstop := List.head?_dropWhile_not p cs
  rwa [hc] at hstop

/-- Digits behind a lead, in front of something else. -/
theorem leadLength_run {digits rest : List Char} (hdigits : ∀ c ∈ digits, c.isDigit = true)
    (hne : digits ≠ []) (hrest : ∀ c, rest.head? = some c → c.isDigit = false) (lead : Nat) :
    leadLength lead Char.isDigit (digits ++ rest) = lead + digits.length := by
  rw [leadLength, spanLength_run hdigits hrest]
  split
  · next h => exact absurd (List.eq_nil_of_length_eq_zero h) hne
  · rfl

theorem leadLength_digits {digits : List Char} (hdigits : ∀ c ∈ digits, c.isDigit = true)
    (hne : digits ≠ []) (lead : Nat) :
    leadLength lead Char.isDigit digits = lead + digits.length := by
  have hlead := @leadLength_run digits [] hdigits hne nofun lead
  rwa [List.append_nil] at hlead

/-! ## Integers -/

/-- The characters of an integer in decimal. -/
def integerChars : Int → List Char
  | .ofNat n => Nat.toDigits 10 n
  | .negSucc n => '-' :: Nat.toDigits 10 (n + 1)

theorem toList_toString_int (i : Int) : (toString i).toList = integerChars i := by
  cases i with
  | ofNat n => exact Nat.toList_repr
  | negSucc n => 
    show ("-" ++ (n + 1).repr).toList = _
    rw [String.toList_append, Nat.toList_repr]
    rfl

theorem bare_digit {d : Char} (hd : d.isDigit = true) (cs : List Char) :
    namedNumberLength.bare (d :: cs) = 0 := by
  rw [bare_eq, if_neg]
  simp only [List.cons_prefix_cons, not_or, not_and]
  exact ⟨fun h => absurd h.symm (ne_of_isDigit hd rfl),
    fun h => absurd h.symm (ne_of_isDigit hd rfl), fun h => absurd h.symm (ne_of_isDigit hd rfl)⟩

theorem wordLength_eq_zero {c : Char} (hc : isWordStart c = false) (cs : List Char) :
    wordLength (c :: cs) = 0 := by
  rw [wordLength, if_neg (by simp [hc])]

theorem isWordStart_of_isDigit {c : Char} (hc : c.isDigit = true) : isWordStart c = false := by
  simp only [Char.isDigit, ge_iff_le, Bool.and_eq_true, decide_eq_true_eq,
    UInt32.le_iff_toNat_le] at hc
  have hupper : '9'.val.toNat < 'A'.val.toNat := by decide
  have hlower : '9'.val.toNat < 'a'.val.toNat := by decide
  have hmark : c ≠ '_' := by
    rintro rfl
    exact absurd hc.2 (by decide)
  simp only [isWordStart, Char.isAlpha, Char.isUpper, Char.isLower, ge_iff_le, Bool.or_eq_false_iff,
    Bool.and_eq_false_iff, decide_eq_false_iff_not, UInt32.le_iff_toNat_le, beq_eq_false_iff_ne]
  exact ⟨⟨by omega, by omega⟩, hmark⟩

section Integer

variable {c : Char} {cs : List Char} (hfirst : c = '-' ∨ c.isDigit = true)
  (hdigits : ∀ d ∈ cs, d.isDigit = true) (hne : c = '-' → cs ≠ [])
include hfirst

theorem ne_of_integer {d : Char} (hminus : '-' ≠ d) (hd : d.isDigit = false) : c ≠ d := by
  rcases hfirst with rfl | hc
  · exact hminus
  · exact ne_of_isDigit hc hd

/-! Most rules match no text that starts like a number. -/

theorem registerLength_numeral : registerLength (c :: cs) = 0 := by
  rw [registerLength_cons, if_neg (ne_of_integer hfirst (by decide) rfl)]

theorem wordLength_numeral : wordLength (c :: cs) = 0 := by
  refine wordLength_eq_zero ?_ cs
  rcases hfirst with rfl | hc
  · rfl
  · exact isWordStart_of_isDigit hc

theorem stringLength_numeral : stringLength (c :: cs) = 0 :=
  stringLength_cons (ne_of_integer hfirst (by decide) rfl) cs

theorem directiveLength_numeral : directiveLength (c :: cs) = 0 := by
  rw [directiveLength_cons, if_neg (ne_of_integer hfirst (by decide) rfl)]

theorem matchLength_numeral {d : Char} (hminus : '-' ≠ d) (hd : d.isDigit = false) (t : Token) :
    (Rule.char d t).matchLength (c :: cs) = 0 := by
  simp [Rule.char, ne_of_integer hfirst hminus hd]

include hdigits hne

theorem integerLength_integer : integerLength (c :: cs) = (c :: cs).length := by
  rw [integerLength_cons]
  split
  · next hc => rw [leadLength_digits hdigits (hne hc), List.length_cons, Nat.add_comm]
  · next hc =>
    have hall : ∀ d ∈ c :: cs, d.isDigit = true :=
      List.forall_mem_cons.2 ⟨hfirst.resolve_left hc, hdigits⟩
    rw [leadLength_digits hall (by simp), Nat.zero_add]

theorem namedNumberLength_integer : namedNumberLength (c :: cs) = 0 := by
  rw [namedNumberLength_cons]
  split
  · next hc =>
    cases cs with
    | nil => exact absurd rfl (hne hc)
    | cons d cs => rw [bare_digit (hdigits d (.head _)), if_pos rfl]
  · next hc => exact bare_digit (hfirst.resolve_left hc) cs

/-- An integer is matched as a whole, by the rule for integers. -/
theorem longestMatch_integer :
    longestMatch (c :: cs) = ((c :: cs).length, some ⟨integerLength, integerToken?⟩) := by
  have hlength := integerLength_integer hfirst hdigits hne
  have hhex : hexLength (c :: cs) = 0 := by
    rw [hexLength_cons, if_neg]
    rintro ⟨-, hx⟩
    exact ne_of_isDigit (hdigits 'x' (List.mem_of_mem_head? hx)) rfl rfl
  have hdecimal : decimalLength (c :: cs) = 0 := by
    rw [decimalLength_eq]
    simp [hlength, exponentLength]
  have hnamed := namedNumberLength_integer hfirst hdigits hne
  have hmatch := @longestMatch_eq (c :: cs) ⟨integerLength, integerToken?⟩ (rules.take 5)
    (rules.drop 6) rfl
  simp only [hlength] at hmatch
  refine hmatch (by simp) ?_ ?_
  · simp [rules, registerLength_numeral hfirst, hnamed, wordLength_numeral hfirst, hhex, hdecimal]
  · simp [rules, stringLength_numeral hfirst, directiveLength_numeral hfirst,
      matchLength_numeral hfirst]

end Integer

/-- The sign and the digits of an integer are read back. -/
theorem integerToken?_integerChars (i : Int) :
    integerToken? (integerChars i) = (int64? i).map .integer := by
  cases i with
  | negSucc n =>
    have hvalue : -((n + 1 : Nat) : Int) = .negSucc n := rfl
    simp only [integerToken?, integerChars, BinaryFormat.splitMinus, digitsValue_toDigits, if_true,
      hvalue]
  | ofNat n =>
    have hsplit : BinaryFormat.splitMinus (Nat.toDigits 10 n) = (false, Nat.toDigits 10 n) := by
      unfold BinaryFormat.splitMinus
      split
      · next rest h =>
        have hminus : '-'.isDigit = true := isDigit_of_mem_toDigits (n := n) (h ▸ .head rest)
        cases hminus
      · rfl
    simp [integerToken?, integerChars, hsplit, digitsValue_toDigits]

theorem longestMatch_integerChars (i : Int) :
    longestMatch (integerChars i) =
      ((integerChars i).length, some ⟨integerLength, integerToken?⟩) := by
  cases i with
  | negSucc n =>
    exact longestMatch_integer (.inl rfl) (fun d => isDigit_of_mem_toDigits)
      fun _ => toDigits_ne_nil (n + 1)
  | ofNat n =>
    have hdigits : ∀ d ∈ Nat.toDigits 10 n, d.isDigit = true := fun d => isDigit_of_mem_toDigits
    change longestMatch (Nat.toDigits 10 n) = ((Nat.toDigits 10 n).length, _)
    obtain ⟨c, cs, hcs⟩ := List.exists_cons_of_ne_nil (toDigits_ne_nil n)
    rw [hcs] at hdigits ⊢
    obtain ⟨hc, htail⟩ := List.forall_mem_cons.1 hdigits
    have hminus : c ≠ '-' := ne_of_isDigit hc rfl
    exact longestMatch_integer (.inr hc) htail fun h => absurd h hminus

theorem int64?_toInt (v : Int64) : int64? v.toInt = some v := by
  have hlow := v.minValue_le_toInt
  have hhigh := v.toInt_le
  simp only [int64?, hlow, hhigh, and_self, if_true, Int64.ofInt_toInt]

/-- A 64-bit integer in decimal is the token of its value. -/
theorem firstToken_int64 (v : Int64) :
    firstToken (integerChars v.toInt) =
      ((integerChars v.toInt).length, some (.integer v)) := by
  rw [firstToken, longestMatch_integerChars]
  simp [integerToken?_integerChars, int64?_toInt]

/-! ## Words -/

section Word

variable {c : Char} {cs : List Char} (hstart : isWordStart c = true)
include hstart

theorem ne_of_isWordStart {d : Char} (hd : isWordStart d = false) : c ≠ d := by
  rintro rfl
  rw [hstart] at hd
  cases hd

theorem integerLength_word : integerLength (c :: cs) = 0 := by
  have hdigit : c.isDigit = false := by
    by_contra h
    cases (isWordStart_of_isDigit (by simpa using h)).symm.trans hstart
  rw [integerLength_cons, if_neg (ne_of_isWordStart hstart rfl)]
  simp [leadLength, spanLength, hdigit]

/-- Rules behind the one for words do not match where a word starts. -/
theorem matchLength_word {rule : Rule} (hrule : rule ∈ rules.drop 3) :
    rule.matchLength (c :: cs) = 0 := by
  have hinteger : integerLength (c :: cs) = 0 := integerLength_word hstart
  have hhex : hexLength (c :: cs) = 0 := by
    rw [hexLength_cons, if_neg fun h => ne_of_isWordStart hstart rfl h.1]
  have hdecimal : decimalLength (c :: cs) = 0 := by
    rw [decimalLength_eq]
    simp [hinteger]
  have hdirective : directiveLength (c :: cs) = 0 := by
    rw [directiveLength_cons, if_neg (ne_of_isWordStart hstart rfl)]
  have hchar (d : Char) (t : Token) (hd : isWordStart d = false) :
      (Rule.char d t).matchLength (c :: cs) = 0 := by
    simp [Rule.char, ne_of_isWordStart hstart hd]
  simp only [rules, List.drop_succ_cons, List.drop_zero, List.mem_cons, List.not_mem_nil,
    or_false] at hrule
  rcases hrule with rfl | rfl | rfl | rfl | rfl | rfl | rfl | rfl | rfl
  · exact hhex
  · exact hdecimal
  · exact hinteger
  · exact stringLength_cons (ne_of_isWordStart hstart rfl) cs
  · exact hdirective
  all_goals exact hchar _ _ rfl

/-- A word that is neither a register nor a named number. -/
theorem firstToken_word (hpart : ∀ d ∈ cs, isWordPart d = true)
    (hregister : registerLength (c :: cs) < (c :: cs).length)
    (hnamed : namedNumberLength (c :: cs) < (c :: cs).length) :
    firstToken (c :: cs) = ((c :: cs).length, some (.identifier (String.ofList (c :: cs)))) := by
  have hlength : wordLength (c :: cs) = (c :: cs).length := by
    rw [wordLength, if_pos hstart, spanLength, List.takeWhile_eq_self_iff.2 hpart,
      List.length_cons, Nat.add_comm]
  have hmatch := @longestMatch_eq (c :: cs)
    ⟨wordLength, fun text => some (.identifier (String.ofList text))⟩ (rules.take 2)
    (rules.drop 3) rfl
  simp only [hlength] at hmatch
  have hbefore : ∀ r ∈ rules.take 2, r.matchLength (c :: cs) < (c :: cs).length := by
    rintro r (_ | ⟨_, _ | ⟨_, ⟨⟩⟩⟩)
    · exact hregister
    · exact hnamed
  rw [firstToken, hmatch (by simp) hbefore
    fun r hr => by rw [matchLength_word hstart hr]; exact Nat.zero_le _]
  simp

end Word

/-! ## Register names -/

/-- The letter r and decimal digits of the number. -/
def IsRegisterName (name : List Char) (n : Nat) : Prop :=
  ∃ digits, name = 'r' :: digits ∧ digits ≠ [] ∧ (∀ c ∈ digits, c.isDigit = true) ∧
    BinaryFormat.digitsValue digits = n

/-- The text does not go on with a letter, a digit or an underscore. -/
def EndsWord (rest : List Char) : Prop :=
  ∀ c, rest.head? = some c → isWordPart c = false

theorem isDigit_of_endsWord {rest : List Char} (h : EndsWord rest) {c : Char}
    (hc : rest.head? = some c) : c.isDigit = false := by
  by_contra hdigit
  have hpart : isWordPart c = true := isWordPart_of_isDigit (by simpa using hdigit)
  cases hpart.symm.trans (h c hc)

/-- A register name where a word ends is the token of its number. -/
theorem IsRegisterName.firstToken_append {name rest : List Char} {n : Nat}
    (hname : IsRegisterName name n) (hn : n < UInt16.size) (hrest : EndsWord rest) :
    firstToken (name ++ rest) = (name.length, some (.register n)) := by
  obtain ⟨digits, rfl, hne, hdigits, rfl⟩ := hname
  have hpart (c : Char) (hc : c ∈ digits) : isWordPart c = true :=
    isWordPart_of_isDigit (hdigits c hc)
  have hregister : registerLength ('r' :: (digits ++ rest)) = ('r' :: digits).length := by
    rw [registerLength_cons, if_pos rfl,
      leadLength_run hdigits hne (fun c => isDigit_of_endsWord hrest), List.length_cons,
      Nat.add_comm]
  have hnamed : namedNumberLength ('r' :: (digits ++ rest)) = 0 := by
    rw [namedNumberLength_cons, if_neg (by decide), bare_eq, if_neg (by simp)]
  have hword : wordLength ('r' :: (digits ++ rest)) = ('r' :: digits).length := by
    rw [wordLength, if_pos (by decide), spanLength_run hpart hrest, List.length_cons,
      Nat.add_comm]
  have hmatch := @longestMatch_eq ('r' :: (digits ++ rest)) ⟨registerLength, registerToken?⟩ []
    (rules.drop 1) rfl
  simp only [hregister] at hmatch
  rw [List.cons_append, firstToken, hmatch (by simp) (by simp) ?_]
  · simp [registerToken?, hn]
  · rintro r hr
    rcases List.mem_append.1 (show r ∈ (rules.drop 1).take 2 ++ rules.drop 3 from hr) with hr | hr
    · simp only [rules, List.drop_succ_cons, List.drop_zero, List.take_succ_cons, List.take_zero,
        List.mem_cons, List.not_mem_nil, or_false] at hr
      rcases hr with rfl | rfl
      · exact hnamed.le.trans (Nat.zero_le _)
      · exact hword.le
    · rw [matchLength_word rfl hr]
      exact Nat.zero_le _

theorem isRegisterName_toDigits (n : Nat) : IsRegisterName ('r' :: Nat.toDigits 10 n) n :=
  ⟨Nat.toDigits 10 n, rfl, toDigits_ne_nil n, fun _ => isDigit_of_mem_toDigits,
    digitsValue_toDigits n⟩

theorem firstToken_register {n : Nat} (hn : n < UInt16.size) :
    firstToken ('r' :: Nat.toDigits 10 n) =
      (('r' :: Nat.toDigits 10 n).length, some (.register n)) := by
  have hends : EndsWord [] := nofun
  have htoken := (isRegisterName_toDigits n).firstToken_append hn hends
  rwa [List.append_nil] at htoken

end Lanewise.Assembly
