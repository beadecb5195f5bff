import Lanewise.Assembly.Statement
import Lanewise.Proofs.Numerals

/-!
# Register names

The token at the front of a text is a register exactly when a register name stands
there and nothing follows that would make it a longer word
(`firstToken_eq_register_iff`). `parseRegister` trims its text and looks at the first
token alone, so anything may follow the name it takes (`parseRegister_eq_ok_iff`).
-/

namespace Lanewise.Assembly

/-! ## The first token -/

/-- No other rule makes registers. -/
theorem rule_of_register {rule : Rule} (hrule : rule ∈ rules) {text : List Char} {n : Nat}
    (h : rule.value text = some (.register n)) : rule = ⟨registerLength, registerToken?⟩ := by
  simp only [rules, List.mem_cons, List.not_mem_nil, or_false] at hrule
  rcases hrule with rfl | rfl | rfl | rfl | rfl | rfl | rfl | rfl | rfl | rfl | rfl | rfl
  · rfl
  all_goals
    simp [floatToken?, hexToken?, integerToken?, stringToken?, Rule.char] at h

theorem registerToken?_eq_some_iff {digits : List Char} {n : Nat} :
    registerToken? ('r' :: digits) = some (.register n) ↔
      BinaryFormat.digitsValue digits = n ∧ n < UInt16.size := by
  rw [registerToken?, List.drop_succ_cons, List.drop_zero]
  by_cases hn : BinaryFormat.digitsValue digits < UInt16.size
  · rw [if_pos hn, Option.some.injEq, Token.register.injEq]
    exact ⟨fun h => ⟨h, h ▸ hn⟩, And.left⟩
  · rw [if_neg hn]
    exact iff_of_false (by simp) fun h => hn (h.1 ▸ h.2)

/-- Digits that are as long as the word they start end where it does. -/
theorem endsWord_of_spanLength {digits rest : List Char}
    (hdigits : ∀ c ∈ digits, c.isDigit = true)
    (h : spanLength isWordPart (digits ++ rest) ≤ digits.length) : EndsWord rest := by
  intro c hc
  by_contra hpart
  have hrun (d : Char) (hd : d ∈ digits) : isWordPart d = true :=
    isWordPart_of_isDigit (hdigits d hd)
  cases rest with
  | nil => cases hc
  | cons d rest =>
    cases hc
    rw [spanLength, List.takeWhile_append_of_pos hrun,
      List.takeWhile_cons_of_pos (by simpa using hpart), List.length_append,
      List.length_cons] at h
    omega

theorem exists_name_of_firstToken {cs : List Char} {n : Nat}
    (h : (firstToken cs).2 = some (.register n)) :
    n < UInt16.size ∧
      ∃ name rest, cs = name ++ rest ∧ IsRegisterName name n ∧ EndsWord rest := by
  unfold firstToken at h
  split at h
  · next k rule hmatch =>
    obtain ⟨hrule, hlength, hpos, hall⟩ := of_longestMatch hmatch
    obtain rfl := rule_of_register hrule h
    have hregister : registerLength cs = k := hlength
    have hword : wordLength cs ≤ k := hall _ (.tail _ (.tail _ (.head _)))
    have hvalue : registerToken? (cs.take k) = some (.register n) := h
    cases cs with
    | nil => exact absurd hregister hpos.ne
    | cons c tail =>
      obtain ⟨digits, rest, rfl, hdigits, hstop⟩ := exists_run Char.isDigit tail
      rw [registerLength_cons] at hregister
      split at hregister
      · next hc =>
        subst hc
        have hne : digits ≠ [] := by
          rintro rfl
          simp only [leadLength, spanLength_run hdigits hstop, List.length_nil] at hregister
          omega
        rw [leadLength_run hdigits hne hstop, Nat.add_comm] at hregister
        subst hregister
        -- the rule for words comes later, so it matches no more than the digits
        rw [List.take_succ_cons, List.take_left, registerToken?_eq_some_iff] at hvalue
        rw [wordLength, if_pos (by decide)] at hword
        exact ⟨hvalue.2, 'r' :: digits, rest, rfl, ⟨digits, rfl, hne, hdigits, hvalue.1⟩,
          endsWord_of_spanLength hdigits (by omega)⟩
      · exact absurd hregister hpos.ne
  · cases h

theorem firstToken_eq_register_iff (cs : List Char) (n : Nat) :
    (firstToken cs).2 = some (.register n) ↔ n < UInt16.size ∧
      ∃ name rest, cs = name ++ rest ∧ IsRegisterName name n ∧ EndsWord rest := by
  refine ⟨exists_name_of_firstToken, ?_⟩
  rintro ⟨hn, name, rest, rfl, hname, hrest⟩
  rw [hname.firstToken_append hn hrest]

/-! ## The first token of a trimmed text -/

/-- The first token of a text, where it has one. -/
def firstTokenOf (cs : List Char) : Option Token :=
  (lexFrom 0 cs).head?.bind Lexeme.token?

theorem head_ne_of_register {c : Char} {rest : List Char} (hc : c ≠ 'r') (n : Nat) :
    (firstToken (c :: rest)).2 ≠ some (.register n) := by
  intro h
  obtain ⟨-, name, behind, hsplit, ⟨digits, rfl, -⟩, -⟩ := exists_name_of_firstToken h
  cases hsplit
  exact hc rfl

theorem token?_head_lexFrom {c : Char} (hlead : isLead c = true) (offset : Nat)
    (rest : List Char) :
    (lexFrom offset (c :: rest)).head?.bind Lexeme.token? = (firstToken (c :: rest)).2 := by
  rw [lexFrom]
  simp [skipLength_of_isLead hlead]

/-- Where no blank stands in front, a text starts with a register when its first
token is one: behind a comment there is a line end. -/
theorem firstTokenOf_eq_register_iff {cs : List Char}
    (hblank : ∀ c, cs.head? = some c → isBlank c = false) (n : Nat) :
    firstTokenOf cs = some (.register n) ↔ (firstToken cs).2 = some (.register n) := by
  cases cs with
  | nil => simp [firstTokenOf, lexFrom, firstToken_eq_register_iff, IsRegisterName]
  | cons c rest =>
    by_cases hc : c = '#'
    · subst hc
      refine iff_of_false ?_ (head_ne_of_register (by decide) n)
      obtain ⟨comment, behind, rfl, hcomment, hstop⟩ := exists_run (· != '\n') rest
      have hskip : skipLength '#' (comment ++ behind) = comment.length + 1 := by
        rw [skipLength, if_neg (by decide), if_pos (by decide), spanLength_run hcomment hstop,
          Nat.add_comm]
      rw [firstTokenOf, lexFrom, hskip, if_pos (by omega), List.drop_succ_cons, List.drop_left]
      cases behind with
      | nil => simp [lexFrom]
      | cons d behind =>
        have hd : d = '\n' := by simpa using hstop d rfl
        subst hd
        rw [token?_head_lexFrom (by decide)]
        exact head_ne_of_register (by decide) n
    · have hlead : isLead c = true := by simp [isLead, hblank c rfl, hc]
      rw [firstTokenOf, token?_head_lexFrom hlead]

/-- A trimmed text does not start with white space. -/
theorem isSpace_head_trim {cs : List Char} {c : Char} (h : (Text.trim cs).head? = some c) :
    Text.isSpace c = false := by
  have hprefix : Text.trim cs <+: cs.dropWhile Text.isSpace := by
    rw [Text.trim, ← List.reverse_suffix, List.reverse_reverse]
    exact List.dropWhile_suffix _
  obtain ⟨behind, hbehind⟩ := hprefix
  have hstop := List.head?_dropWhile_not Text.isSpace cs
  rw [← hbehind, List.head?_append, h] at hstop
  exact hstop

theorem isSpace_of_isBlank {c : Char} (h : isBlank c = true) : Text.isSpace c = true := by
  simp only [isBlank, Bool.or_eq_true, beq_iff_eq] at h
  rcases h with (rfl | rfl) | rfl <;> rfl

theorem isBlank_head_trim {cs : List Char} {c : Char} (h : (Text.trim cs).head? = some c) :
    isBlank c = false := by
  have hspace := isSpace_head_trim h
  by_contra hblank
  cases (isSpace_of_isBlank (by simpa using hblank)).symm.trans hspace

/-! ## Parsing -/

theorem parseRegister_eq_ok_iff_firstTokenOf (text : String) (n : UInt8) :
    parseRegister text = .ok n ↔
      firstTokenOf (Text.trim text.toList) = some (.register n.toNat) := by
  unfold parseRegister firstTokenOf
  split
  · next start stop piece k hhead =>
    rw [hhead, Option.bind_some, Option.some.injEq, Token.register.injEq]
    split
    · next hk =>
      rw [Except.ok.injEq, ← UInt8.toNat_inj, Nat.toUInt8_eq, UInt8.toNat_ofNat_of_lt' hk]
    · next hk =>
      refine iff_of_false nofun ?_
      rintro rfl
      exact hk n.toNat_lt
  · next hhead =>
    refine iff_of_false nofun fun htoken => ?_
    obtain ⟨⟨start, stop, piece, token?⟩, hsome, rfl⟩ := Option.bind_eq_some_iff.1 htoken
    exact hhead start stop piece n.toNat hsome

/-- A text is taken for register `n` exactly when, without the white space around it,
it starts with a name of that register and does not go on with a letter, a digit or
an underscore. Nothing is asked of what follows behind that. -/
theorem parseRegister_eq_ok_iff (text : String) (n : UInt8) :
    parseRegister text = .ok n ↔
      ∃ name rest, Text.trim text.toList = name ++ rest ∧ IsRegisterName name n.toNat ∧
        EndsWord rest := by
  have hsize : n.toNat < UInt16.size := n.toNat_lt.trans (by decide)
  rw [parseRegister_eq_ok_iff_firstTokenOf,
    firstTokenOf_eq_register_iff fun c => isBlank_head_trim, firstToken_eq_register_iff]
  simp only [hsize, true_and]

/-- A name with another word behind it is taken, though the text is no name. -/
theorem not_parseRegister_eq_ok_iff :
    ¬ ∀ (text : String) (n : UInt8),
      parseRegister text = .ok n ↔ IsRegisterName (Text.trim text.toList) n.toNat := by
  intro h
  have hparse : parseRegister "r1 x" = .ok 1 := by decide +kernel
  obtain ⟨digits, hname, -, hdigits, -⟩ := (h "r1 x" 1).1 hparse
  have htrim : Text.trim "r1 x".toList = 'r' :: ['1', ' ', 'x'] := by decide +kernel
  cases htrim.symm.trans hname
  cases hdigits ' ' (by simp)

end Lanewise.Assembly
