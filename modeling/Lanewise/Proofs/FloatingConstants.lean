import Lanewise.Proofs.Listings
import Lanewise.Proofs.Literals
import Lanewise.Proofs.Midpoints

/-!
# Constants with a point read back

The line of a constant is read back as the constant, to the bit, if no part of it
is a NaN: infinities, zeros of both signs and the shortest decimals of all other
numbers. 32-bit numbers go through 64 bits on their way back, which shows in one
number and its negative (`parseLine_constant`).
-/

namespace Lanewise

open Assembly BinaryFormat

/-! ## Numbers as tokens -/

section Print

variable {fmt : BinaryFormat} {m : Nat} {q : Int}

theorem toList_sign (negative : Bool) :
    (if negative = true then "-" else "").toList = Literal.signChars negative := by
  cases negative <;> rfl

/-- The literal `0.0`. -/
def zeroLiteral : Literal where
  whole := ['0']
  fraction := ['0']
  exponent? := none
  whole_ne_nil := List.cons_ne_nil _ _
  isDigit_whole := isDigit_zeros 1
  isDigit_fraction := isDigit_zeros 1
  not_integer := .inl (List.cons_ne_nil _ _)

/-- The text of a number is a literal with its sign: zero, or a decimal of the same
value as the shortest one. -/
theorem exists_literal_print (hproper : fmt.Proper) (hrep : fmt.Represents m q)
    (negative : Bool) :
    ∃ t : Literal, (fmt.print (fmt.withSign negative (fmt.bitsOf m q))).toList =
        Literal.signChars negative ++ t.chars ∧
      (m = 0 → t.digits = 0) ∧
      (0 < m → (t.digits : ℚ) * 10 ^ t.exponent =
        (fmt.shortest m q).1 * 10 ^ (fmt.shortest m q).2) := by
  rw [print, decode_bitsOf hproper negative hrep]
  dsimp only
  by_cases hm : m = 0
  · refine ⟨zeroLiteral, ?_, fun _ => rfl, fun hpos => by omega⟩
    rw [if_pos hm, String.toList_append, toList_sign]
    rfl
  · obtain ⟨t, htext, hvalue⟩ :=
      exists_literal_layoutDecimal (fmt.shortest m q).1 (fmt.shortest m q).2
    refine ⟨t, ?_, fun hzero => absurd hzero hm, fun _ => hvalue⟩
    rw [if_neg hm, String.toList_append, toList_sign, htext]

theorem toList_print_infinity (negative : Bool) :
    (fmt.print (fmt.withSign negative fmt.infinity)).toList =
      Literal.signChars negative ++ "inf".toList := by
  rw [print, decode_infinity]
  dsimp only
  rw [String.toList_append, toList_sign]

theorem isToken_infinity (negative : Bool) :
    IsToken (Literal.signChars negative ++ "inf".toList)
      (.float (double.withSign negative double.infinity).toUInt64) := by
  cases negative <;> decide

theorem bitsOf_zero (hrep : fmt.Represents 0 q) : fmt.bitsOf 0 q = 0 := by
  have hq := hrep.normal.resolve_right (by have := fmt.fieldUnit_pos; omega)
  simp [bitsOf, hq]

theorem ofDecimal_zero (fmt : BinaryFormat) (e : Int) : fmt.ofDecimal 0 e = 0 := by
  simp [ofDecimal]

end Print

/-! ## 64-bit numbers -/

theorem double_signUnit : double.signUnit = 2 ^ 63 :=
  rfl

theorem isToken_print_double {bits : Nat} (hbits : bits < 2 * double.signUnit)
    (h : double.isNaN bits = false) :
    IsToken (double.print bits).toList (.float bits.toUInt64) := by
  rcases exists_of_not_isNaN double_proper hbits h with
    ⟨negative, rfl⟩ | ⟨negative, m, q, hrep, rfl⟩
  · rw [toList_print_infinity]
    exact isToken_infinity negative
  · obtain ⟨t, htext, hzero, hvalue⟩ := exists_literal_print double_proper hrep negative
    have htoken := t.isToken negative
    rw [← htext] at htoken
    have hread : double.ofDecimal t.digits t.exponent = double.bitsOf m q := by
      by_cases hm : m = 0
      · subst hm
        rw [hzero rfl, ofDecimal_zero, bitsOf_zero hrep]
      · have hpos := Nat.pos_of_ne_zero hm
        have hnear := double.near_shortest q hpos
        rw [← hvalue hpos] at hnear
        exact ofDecimal_of_near double_proper hrep hpos hnear
    rwa [hread] at htoken

/-- The text of a 64-bit number is a token of its bits. -/
theorem isToken_doubleText {bits : UInt64} (h : double.isNaN bits.toNat = false) :
    IsToken (Constant.doubleText bits).toList (.float bits) := by
  have htoken := isToken_print_double (by rw [double_signUnit]; exact bits.toNat_lt) h
  rwa [Nat.toUInt64_eq, UInt64.ofNat_toNat] at htoken

/-! ## 32-bit numbers -/

theorem single_signUnit : single.signUnit = 2 ^ 31 :=
  rfl

theorem singleOfDouble_withSign (negative : Bool) {bits : Nat} (h : bits ≤ double.infinity) :
    singleOfDouble (double.withSign negative bits).toUInt64 =
      (single.withSign negative (double.convert single bits)).toUInt32 := by
  have hlt := h.trans_lt double.infinity_lt_signUnit
  have hbound : double.withSign negative bits < 2 ^ 64 := by
    rw [double_signUnit] at hlt
    rw [withSign, double_signUnit]
    split <;> omega
  rw [singleOfDouble, Nat.toUInt64_eq, UInt64.toNat_ofNat_of_lt' hbound,
    convert_withSign double single negative hlt]

/-- What a constant is read back as: itself, but for one 32-bit number of either sign,
whose upper neighbour takes its place. -/
def Constant.readBack (c : Constant) : Constant :=
  if c = .float 0x15ae43fd then .float 0x15ae43fe
  else if c = .float 0x95ae43fd then .float 0x95ae43fe
  else c

theorem readBack_exception (negative : Bool) :
    (Constant.float (single.withSign negative (single.bitsOf 11420669 (-107))).toUInt32).readBack =
      .float (single.withSign negative (single.bitsOf 11420670 (-107))).toUInt32 := by
  cases negative <;> rfl

theorem readBack_eq {bits : UInt32}
    (h : ∀ negative, single.decode bits.toNat ≠ .finite negative 11420669 (-107)) :
    (Constant.float bits).readBack = .float bits := by
  have hpositive : single.decode (0x15ae43fd : UInt32).toNat = .finite false 11420669 (-107) :=
    rfl
  have hnegative : single.decode (0x95ae43fd : UInt32).toNat = .finite true 11420669 (-107) :=
    rfl
  rw [Constant.readBack, if_neg, if_neg]
  · rintro ⟨⟩
    exact h true hnegative
  · rintro ⟨⟩
    exact h false hpositive

theorem convert_infinity : double.convert single double.infinity = single.infinity :=
  rfl

/-- A finite 32-bit number with its sign, by way of its text and 64 bits. -/
theorem narrowed_literal {m : Nat} {q : Int} (hrep : single.Represents m q) {n : Nat} {e : Int}
    (hzero : m = 0 → n = 0)
    (hvalue : 0 < m → (n : ℚ) * 10 ^ e =
      (single.shortest m q).1 * 10 ^ (single.shortest m q).2) :
    narrowed n e = single.bitsOf (if m = 11420669 ∧ q = -107 then 11420670 else m) q := by
  by_cases hm : m = 0
  · subst hm
    rw [hzero rfl, narrowed, ofDecimal_zero, if_neg (by omega), bitsOf_zero hrep]
    rfl
  · have hpos := Nat.pos_of_ne_zero hm
    have hrange := (single.near_shortest q hpos).inRange hrep hpos
    have hsame := narrowed_congr (single.shortest_pos q hpos) hrange (hvalue hpos).symm
    rw [← hsame]
    split
    · next hexception =>
      obtain ⟨rfl, rfl⟩ := hexception
      exact narrowed_shortest_exception
    · next hne => exact narrowed_shortest hrep hpos hne

/-- The text of a 32-bit number is a token that narrows to the number, but for the
exceptions. -/
theorem exists_isToken_single {bits : UInt32} (h : single.isNaN bits.toNat = false) :
    ∃ read, IsToken (single.print bits.toNat).toList (.float read) ∧
      .float (singleOfDouble read) = (Constant.float bits).readBack := by
  have hbound : bits.toNat < 2 * single.signUnit := by
    rw [single_signUnit]
    exact bits.toNat_lt
  have hback : bits = bits.toNat.toUInt32 := by simp
  rcases exists_of_not_isNaN single_proper hbound h with
    ⟨negative, hbits⟩ | ⟨negative, m, q, hrep, hbits⟩
  · refine ⟨(double.withSign negative double.infinity).toUInt64, ?_, ?_⟩
    · rw [hbits, toList_print_infinity]
      exact isToken_infinity negative
    · have hsame : (Constant.float bits).readBack = .float bits := by
        apply readBack_eq
        intro sign
        rw [hbits, decode_infinity]
        exact nofun
      rw [singleOfDouble_withSign negative (le_refl _), convert_infinity, hsame, hback, hbits]
  · obtain ⟨t, htext, hzero, hvalue⟩ := exists_literal_print single_proper hrep negative
    have htoken := t.isToken negative
    rw [← htext, ← hbits] at htoken
    have hnarrow := narrowed_literal hrep hzero hvalue
    refine ⟨_, htoken, ?_⟩
    rw [singleOfDouble_withSign negative (ofDecimal_le_infinity _ _ _)]
    show Constant.float (single.withSign negative (narrowed _ _)).toUInt32 = _
    rw [hnarrow]
    split
    · next hexception =>
      obtain ⟨rfl, rfl⟩ := hexception
      rw [hback, hbits, readBack_exception]
    · next hne =>
      have hsame : (Constant.float bits).readBack = .float bits := by
        apply readBack_eq
        intro sign hdecode
        rw [hbits, decode_bitsOf single_proper negative hrep] at hdecode
        cases hdecode
        exact hne ⟨rfl, rfl⟩
      rw [hsame, hback, hbits]

/-! ## Lines -/

/-- No part of the constant is a NaN. -/
def Constant.NaNFree : Constant → Prop
  | .float bits => single.isNaN bits.toNat = false
  | .double bits => BinaryFormat.double.isNaN bits.toNat = false
  | .complex re im =>
    BinaryFormat.double.isNaN re.toNat = false ∧ BinaryFormat.double.isNaN im.toNat = false
  | _ => True

theorem lexes_pair {re im : List Char} {a b : Token} (hre : IsToken re a) (him : IsToken im b) :
    Lexes ('(' :: (re ++ ',' :: ' ' :: (im ++ [')']))) [.leftParen, a, .comma, b, .rightParen] := by
  have hclose : Lexes [')'] [.rightParen] := @Lexes.cons [] [] ')' [] .rightParen rfl rfl .nil
  have hsecond := him.lexes (ends_cons rfl []) hclose
  have hcomma := (hsecond.blank (c := ' ') rfl).comma
  have hfirst := hre.lexes (ends_cons rfl _) hcomma
  exact @Lexes.cons _ _ '(' [] .leftParen rfl rfl hfirst

/-- The literal of a constant consists of tokens that the constant is read from. -/
theorem exists_lexes_literal {c : Constant} (h : c.NaNFree) :
    ∃ tokens, OneLine c.literal.toList ∧ Lexes c.literal.toList tokens ∧ .newline ∉ tokens ∧
      ∀ line, constantOf line c.elementType tokens = .ok c.readBack := by
  by_cases hexact : c.IsExact
  · obtain ⟨t, honeLine, hlexes, hline, hconstant⟩ := spellsConstant_literal hexact
    have hsame : c.readBack = c := by
      have hfloat (bits : UInt32) : c ≠ .float bits := by
        rintro rfl
        exact hexact.1 rfl
      rw [Constant.readBack, if_neg (hfloat _), if_neg (hfloat _)]
    rw [hsame]
    exact ⟨[t], honeLine, hlexes, by simpa using hline.symm, hconstant⟩
  cases c with
  | float bits =>
    obtain ⟨read, htoken, hread⟩ := exists_isToken_single h
    have hlexes := htoken.lexes ends_nil .nil
    rw [List.append_nil] at hlexes
    refine ⟨[.float read], oneLine_of_isSolid htoken.2.1, hlexes, by simp, fun line => ?_⟩
    rw [← hread]
    rfl
  | double bits =>
    have htoken := isToken_doubleText h
    have hlexes := htoken.lexes ends_nil .nil
    rw [List.append_nil] at hlexes
    exact ⟨[.float bits], oneLine_of_isSolid htoken.2.1, hlexes, by simp, fun line => rfl⟩
  | complex re im =>
    have hre := isToken_doubleText h.1
    have him := isToken_doubleText h.2
    have htext : (Constant.complex re im).literal.toList =
        '(' :: ((Constant.doubleText re).toList ++
          ',' :: ' ' :: ((Constant.doubleText im).toList ++ [')'])) := by
      simp [Constant.literal, Constant.text, Constant.complexText]
    refine ⟨_, ?_, htext ▸ lexes_pair hre him, by simp, fun line => rfl⟩
    have hopen : OneLine ['('] := by decide
    have hcomma : OneLine [',', ' '] := by decide
    have hclose : OneLine [')'] := by decide
    rw [htext]
    exact hopen.append ((oneLine_of_isSolid hre.2.1).append
      (hcomma.append ((oneLine_of_isSolid him.2.1).append hclose)))
  | _ => exact absurd ⟨nofun, nofun, nofun⟩ hexact

/-- The line of a constant without NaN declares the constant, to the bit: any type,
infinities, zeros of both signs, and 32-bit numbers but for the exceptions. -/
theorem parseLine_constant (line : Nat) {c : Constant} (h : c.NaNFree) :
    parseLine line (".const " ++ c.elementType.toChar.toString ++ " " ++ c.literal) =
      .ok (some (.directive line (.constant c.readBack))) := by
  obtain ⟨tokens, honeLine, hlexes, hline, hconstant⟩ := exists_lexes_literal h
  have hreads := (reads_constantLine honeLine hlexes hline hconstant).parses line
  rwa [← String.toList_append, String.ofList_toList] at hreads

/-- An infinity and the negative zero in one constant. -/
theorem parseLine_constant_extremes :
    let pair : Constant := .complex 0x7ff0000000000000 0x8000000000000000
    pair.NaNFree ∧ parseLine 1 ".const c (inf, -0.0)" =
      .ok (some (.directive 1 (.constant pair))) := by
  intro pair
  have hfree : pair.NaNFree := ⟨rfl, rfl⟩
  have htext : ".const " ++ pair.elementType.toChar.toString ++ " " ++ pair.literal =
      ".const c (inf, -0.0)" := rfl
  have hline := parseLine_constant 1 hfree
  rw [htext] at hline
  exact ⟨hfree, hline⟩

/-- Rounded to 64 bits, `7.038531e-26` is halfway between two 32-bit numbers. It is the
text of the odd one, and comes back as the even one. -/
theorem not_parseLine_constant :
    ¬ ∀ (line : Nat) (c : Constant), c.NaNFree →
      parseLine line (".const " ++ c.elementType.toChar.toString ++ " " ++ c.literal) =
        .ok (some (.directive line (.constant c))) := by
  intro h
  have hfree : (Constant.float 0x15ae43fd).NaNFree := rfl
  have hback : parseLine 1 ".const f 7.038531e-26" =
      .ok (some (.directive 1 (.constant (.float 0x15ae43fe)))) := by decide +kernel
  have htext : ".const " ++ (Constant.float 0x15ae43fd).elementType.toChar.toString ++ " " ++
      (Constant.float 0x15ae43fd).literal = ".const f 7.038531e-26" := rfl
  have hsame := h 1 _ hfree
  rw [htext, hback] at hsame
  revert hsame
  decide

end Lanewise
