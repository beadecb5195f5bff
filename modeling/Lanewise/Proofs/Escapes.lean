import Lanewise.Proofs.Lexing

/-!
# Escapes in string literals

A string literal ends at the first quote that is not the second half of a pair
(`Inside`), so it is one piece of the text whatever follows (`firstToken_quoted`).
The bytes it stands for come from reading it from left to right, one character or
one escape at a time (`SpellsBytes`). What can be read are the texts spelled with the
escapes of `ReadEscape`: those of `Escape` and one form more, a plus sign in the
place of the first hexadecimal digit.
-/

namespace Lanewise.Assembly

/-! ## Where a literal ends -/

/-- What may stand between the quotes: characters other than a quote and a
backslash, and pairs of a backslash and any character but a newline. -/
inductive Inside : List Char → Prop where
  | nil : Inside []
  | char {c : Char} {rest : List Char} (hquote : c ≠ '"') (hslash : c ≠ '\\')
      (h : Inside rest) : Inside (c :: rest)
  | pair {c : Char} {rest : List Char} (hline : c ≠ '\n') (h : Inside rest) :
      Inside ('\\' :: c :: rest)

/-- A text between quotes. -/
def quoted (inside : List Char) : List Char :=
  '"' :: (inside ++ ['"'])

theorem quoted_append (inside rest : List Char) :
    quoted inside ++ rest = '"' :: (inside ++ '"' :: rest) := by
  simp [quoted]

theorem length_quoted (inside : List Char) : (quoted inside).length = inside.length + 2 := by
  simp [quoted]

theorem Inside.stringTail_append {inside : List Char} (h : Inside inside) (rest : List Char) :
    stringTail (inside ++ '"' :: rest) = (inside.length + 1, true) := by
  induction h with
  | nil => rfl
  | char _ hslash _ ih => simp [stringTail, hslash, ih]
  | pair _ _ ih => simp [stringTail, ih]

/-- A closed text splits at its closing quote. -/
theorem exists_inside_of_stringTail {cs : List Char} {n : Nat} (h : stringTail cs = (n, true)) :
    ∃ inside rest, Inside inside ∧ cs = inside ++ '"' :: rest ∧ n = inside.length + 1 := by
  fun_induction stringTail cs generalizing n with
  | case1 => cases h
  | case2 rest =>
    obtain ⟨rfl, -⟩ := Prod.mk.inj h
    exact ⟨[], rest, .nil, rfl, rfl⟩
  | case3 => cases h
  | case4 => cases h
  | case5 c rest hline m closed htail ih =>
    obtain ⟨rfl, rfl⟩ := Prod.mk.inj h
    obtain ⟨inside, behind, hinside, rfl, rfl⟩ := ih htail
    exact ⟨'\\' :: c :: inside, behind, .pair hline hinside, rfl, rfl⟩
  | case6 c rest hquote _ hlast hpair m closed htail ih =>
    obtain ⟨rfl, rfl⟩ := Prod.mk.inj h
    obtain ⟨inside, behind, hinside, rfl, rfl⟩ := ih htail
    -- a quote follows somewhere, so a backslash here would be half of a pair
    have hslash : c ≠ '\\' := fun hc => by
      cases hrest : inside ++ '"' :: behind with
      | nil => exact hlast hc hrest
      | cons d ds => exact hpair d ds hc hrest
    exact ⟨c :: inside, behind, .char hquote hslash hinside, rfl, rfl⟩

instance (inside : List Char) : Decidable (Inside inside) :=
  decidable_of_iff (stringTail (inside ++ ['"']) = (inside.length + 1, true)) <| by
    refine ⟨fun h => ?_, fun h => h.stringTail_append []⟩
    obtain ⟨inside', rest, hinside, hsplit, hlength⟩ := exists_inside_of_stringTail h
    have hsame : inside = inside' := List.append_inj_left hsplit (by omega)
    rwa [hsame]

/-- Only the rule for strings takes a quote. -/
theorem matchLength_quote {rule : Rule} (h : rule ∈ rules.take 6 ++ rules.drop 7)
    (cs : List Char) : rule.matchLength ('"' :: cs) = 0 := by
  simp only [rules, List.take_succ_cons, List.take_zero, List.drop_succ_cons, List.drop_zero,
    List.cons_append, List.nil_append, List.mem_cons, List.not_mem_nil, or_false] at h
  rcases h with rfl | rfl | rfl | rfl | rfl | rfl | rfl | rfl | rfl | rfl | rfl
  all_goals rfl

section Literal

variable {inside : List Char} (h : Inside inside)
include h

theorem longestMatch_quoted (rest : List Char) :
    longestMatch (quoted inside ++ rest) =
      ((quoted inside).length, some ⟨stringLength, stringToken?⟩) := by
  have hlength : stringLength ('"' :: (inside ++ '"' :: rest)) = inside.length + 2 := by
    rw [stringLength, h.stringTail_append]
  have hmatch := @longestMatch_eq ('"' :: (inside ++ '"' :: rest))
    ⟨stringLength, stringToken?⟩ (rules.take 6) (rules.drop 7) rfl
  simp only [hlength] at hmatch
  rw [quoted_append, length_quoted]
  refine hmatch (by omega) (fun r hr => ?_) fun r hr => ?_
  · rw [matchLength_quote (List.mem_append_left _ hr)]
    omega
  · rw [matchLength_quote (List.mem_append_right _ hr)]
    omega

/-- A literal in front of anything is one piece of the text. -/
theorem firstToken_quoted (rest : List Char) :
    firstToken (quoted inside ++ rest) =
      ((quoted inside).length, stringToken? (quoted inside)) := by
  simp [firstToken, longestMatch_quoted h]

end Literal

/-! ## What escapes stand for -/

/-- The escapes of the language and the byte that each stands for. -/
inductive Escape : List Char → UInt8 → Prop where
  | backslash : Escape ['\\', '\\'] 0x5c
  | quote : Escape ['\\', '"'] 0x22
  | newline : Escape ['\\', 'n'] 0x0a
  | tab : Escape ['\\', 't'] 0x09
  | nul : Escape ['\\', '0'] 0x00
  | hex {hi lo : Char} {high low : Nat} (hhi : Text.hexValue? hi = some high)
      (hlo : Text.hexValue? lo = some low) : Escape ['\\', 'x', hi, lo] (16 * high + low).toUInt8

/-- The escapes that are read: those of the language, and those with a plus sign in
the place of the first hexadecimal digit. -/
inductive ReadEscape : List Char → UInt8 → Prop where
  | escape {text : List Char} {b : UInt8} (h : Escape text b) : ReadEscape text b
  | plus {lo : Char} {low : Nat} (hlo : Text.hexValue? lo = some low) :
      ReadEscape ['\\', 'x', '+', lo] low.toUInt8

/-- The bytes that a text stands for when it is read from left to right: each
escape for its byte, every other character for its own bytes. -/
inductive SpellsBytes (escape : List Char → UInt8 → Prop) : List Char → List UInt8 → Prop where
  | nil : SpellsBytes escape [] []
  | char {c : Char} {rest : List Char} {bytes : List UInt8} (hc : c ≠ '\\')
      (h : SpellsBytes escape rest bytes) :
      SpellsBytes escape (c :: rest) (String.utf8EncodeChar c ++ bytes)
  | escape {text rest : List Char} {b : UInt8} {bytes : List UInt8} (he : escape text b)
      (h : SpellsBytes escape rest bytes) : SpellsBytes escape (text ++ rest) (b :: bytes)

theorem SpellsBytes.mono {e e' : List Char → UInt8 → Prop}
    (he : ∀ text b, e text b → e' text b) {text : List Char} {bytes : List UInt8}
    (h : SpellsBytes e text bytes) : SpellsBytes e' text bytes := by
  induction h with
  | nil => exact .nil
  | char hc _ ih => exact .char hc ih
  | escape hescape _ ih => exact .escape (he _ _ hescape) ih

/-- The characters of an escape stay inside a literal. -/
theorem Escape.inside_append {text rest : List Char} {b : UInt8} (he : Escape text b)
    (h : Inside rest) : Inside (text ++ rest) := by
  cases he with
  | hex hhi hlo =>
    have hne {c : Char} {n : Nat} (hc : Text.hexValue? c = some n) : c ≠ '"' ∧ c ≠ '\\' := by
      constructor <;> rintro rfl <;> cases hc
    exact .pair (by decide) (.char (hne hhi).1 (hne hhi).2 (.char (hne hlo).1 (hne hlo).2 h))
  | _ => exact .pair (by decide) h

theorem hexValue?_lt {c : Char} {n : Nat} (h : Text.hexValue? c = some n) : n < 16 := by
  have hdigit : '9'.val.toNat - '0'.toNat < 10 := by decide
  have hlower : 'f'.val.toNat - 'a'.toNat < 6 := by decide
  have hupper : 'F'.val.toNat - 'A'.toNat < 6 := by decide
  have hc : c.toNat = c.val.toNat := rfl
  simp only [Text.hexValue?, Char.le_def, UInt32.le_iff_toNat_le] at h
  split_ifs at h
  all_goals
    cases h
    omega

/-- One digit always fits a byte. -/
theorem hexNumber?_digit (lo : Char) : hexNumber? 256 [lo] = Text.hexValue? lo := by
  cases hlo : Text.hexValue? lo with
  | none => simp [hexNumber?, hlo]
  | some low =>
    have hlow := hexValue?_lt hlo
    simp [hexNumber?, hlo]
    omega

/-- Two digits always fit a byte. -/
theorem hexNumber?_digits (hi lo : Char) :
    hexNumber? 256 [hi, lo] =
      (Text.hexValue? hi).bind fun high => (Text.hexValue? lo).map (16 * high + ·) := by
  cases hhi : Text.hexValue? hi with
  | none => simp [hexNumber?, hhi]
  | some high =>
    have hhigh := hexValue?_lt hhi
    cases hlo : Text.hexValue? lo with
    | none => simp [hexNumber?, hhi, hlo]
    | some low =>
      have hlow := hexValue?_lt hlo
      simp [hexNumber?, hhi, hlo]
      omega

theorem escapedByte?_of_ne {hi : Char} (hplus : hi ≠ '+') (lo : Char) :
    escapedByte? hi lo = (hexNumber? 256 [hi, lo]).map Nat.toUInt8 := by
  unfold escapedByte?
  split
  · exact absurd rfl hplus
  · rfl

/-- The two characters behind an x are read exactly when the four make an escape. -/
theorem escapedByte?_eq_some_iff (hi lo : Char) (b : UInt8) :
    escapedByte? hi lo = some b ↔ ReadEscape ['\\', 'x', hi, lo] b := by
  constructor
  · intro h
    by_cases hplus : hi = '+'
    · subst hplus
      rw [escapedByte?, hexNumber?_digit] at h
      obtain ⟨low, hlo, rfl⟩ := Option.map_eq_some_iff.1 h
      exact .plus hlo
    · rw [escapedByte?_of_ne hplus, hexNumber?_digits] at h
      obtain ⟨n, hn, rfl⟩ := Option.map_eq_some_iff.1 h
      obtain ⟨high, hhi, hn⟩ := Option.bind_eq_some_iff.1 hn
      obtain ⟨low, hlo, rfl⟩ := Option.map_eq_some_iff.1 hn
      exact .escape (.hex hhi hlo)
  · intro h
    cases h with
    | plus hlo => simp [escapedByte?, hexNumber?_digit, hlo]
    | escape h =>
      cases h with
      | hex hhi hlo =>
        have hplus : hi ≠ '+' := by
          rintro rfl
          cases hhi
        simp [escapedByte?_of_ne hplus, hexNumber?_digits, hhi, hlo]

/-! ## Reading a literal -/

theorem unescape?_append {text rest : List Char} {b : UInt8} {bytes : List UInt8}
    (he : ReadEscape text b) (hrest : unescape? rest = some bytes) :
    unescape? (text ++ rest) = some (b :: bytes) := by
  have hhex {hi lo : Char} (he : ReadEscape ['\\', 'x', hi, lo] b) :
      unescape? ('\\' :: 'x' :: hi :: lo :: rest) = some (b :: bytes) := by
    simp [unescape?, (escapedByte?_eq_some_iff hi lo b).2 he, hrest]
  cases he with
  | plus hlo => exact hhex (.plus hlo)
  | escape h =>
    cases h with
    | hex hhi hlo => exact hhex (.escape (.hex hhi hlo))
    | _ => simp [unescape?, hrest]

theorem unescape?_of_spells {inside : List Char} {bytes : List UInt8}
    (h : SpellsBytes ReadEscape inside bytes) : unescape? inside = some bytes := by
  induction h with
  | nil => rfl
  | char hc _ ih => simp [unescape?, hc, ih]
  | escape he _ ih => exact unescape?_append he ih

/-- An escape that was read in front of something that is spelled. -/
theorem SpellsBytes.of_cons {text rest : List Char} {b? : Option UInt8} {bytes : List UInt8}
    (he : ∀ b, b? = some b → ReadEscape text b)
    (h : (do let b ← b?; let tail ← unescape? rest; return b :: tail) = some bytes)
    (ih : ∀ {tail}, unescape? rest = some tail → SpellsBytes ReadEscape rest tail) :
    SpellsBytes ReadEscape (text ++ rest) bytes := by
  obtain ⟨b, hb, h⟩ := Option.bind_eq_some_iff.1 h
  obtain ⟨tail, htail, h⟩ := Option.bind_eq_some_iff.1 h
  cases h
  exact .escape (he b hb) (ih htail)

theorem readEscape_of_some {text : List Char} {b : UInt8} (h : Escape text b) :
    ∀ b', some b = some b' → ReadEscape text b' := by
  rintro _ ⟨⟩
  exact .escape h

theorem spells_of_unescape? {inside : List Char} {bytes : List UInt8}
    (h : unescape? inside = some bytes) : SpellsBytes ReadEscape inside bytes := by
  fun_induction unescape? inside generalizing bytes with
  | case1 =>
    cases h
    exact .nil
  | case2 hi lo rest ih => exact .of_cons (fun b => (escapedByte?_eq_some_iff hi lo b).1) h ih
  -- the pairs, in the order in which they are tried
  | case3 => next ih => exact .of_cons (readEscape_of_some .backslash) h ih
  | case4 => next ih => exact .of_cons (readEscape_of_some .quote) h ih
  | case5 => next ih => exact .of_cons (readEscape_of_some .newline) h ih
  | case6 => next ih => exact .of_cons (readEscape_of_some .tab) h ih
  | case7 => next ih => exact .of_cons (readEscape_of_some .nul) h ih
  | case8 => cases h
  | case9 => cases h
  | case10 c rest _ hpair hlast ih =>
    obtain ⟨tail, htail, rfl⟩ := Option.map_eq_some_iff.1 h
    -- a backslash was taken care of above, as an escape or as a fault
    have hc : c ≠ '\\' := fun hc => by
      cases rest with
      | nil => exact hlast hc rfl
      | cons d ds => exact hpair d ds hc rfl
    exact .char hc (ih htail)

theorem unescape?_eq_some_iff (inside : List Char) (bytes : List UInt8) :
    unescape? inside = some bytes ↔ SpellsBytes ReadEscape inside bytes :=
  ⟨spells_of_unescape?, unescape?_of_spells⟩

theorem stringToken?_quoted (inside : List Char) :
    stringToken? (quoted inside) = (unescape? inside).map .str := by
  simp [stringToken?, quoted]

/-- Without a plus sign behind an x, only escapes of the language are read. -/
theorem SpellsBytes.documented {inside : List Char} {bytes : List UInt8}
    (h : SpellsBytes ReadEscape inside bytes) (hplus : ¬ ['\\', 'x', '+'] <:+: inside) :
    SpellsBytes Escape inside bytes := by
  induction h with
  | nil => exact .nil
  | char hc _ ih => exact .char hc (ih fun h => hplus (List.infix_cons h))
  | @escape text rest b bytes he _ ih =>
    have hrest : SpellsBytes Escape rest bytes :=
      ih fun h => hplus (h.trans (List.suffix_append text rest).isInfix)
    cases he with
    | escape he => exact .escape he hrest
    | @plus lo => exact absurd ⟨[], lo :: rest, rfl⟩ hplus

/-- A plus sign behind an x makes no escape of the language. -/
theorem not_spells_plus (rest : List Char) (bytes : List UInt8) :
    ¬ SpellsBytes Escape ('\\' :: 'x' :: '+' :: rest) bytes := by
  intro h
  generalize htext : '\\' :: 'x' :: '+' :: rest = text at h
  cases h with
  | nil => cases htext
  | char hc => exact hc (List.cons.inj htext).1.symm
  | escape he =>
    cases he with
    | hex hhi =>
      cases htext
      cases hhi
    | _ => cases htext

/-- A text that the rule for strings matches is one token, or a fault, whatever
follows. It is the token of some bytes exactly when its inside spells them with the
escapes that are read. Where no plus sign stands behind an x these are the escapes of
the language. -/
theorem stringToken?_eq_some_iff {inside : List Char} (h : Inside inside) :
    (∀ rest, firstToken (quoted inside ++ rest) =
      ((quoted inside).length, stringToken? (quoted inside))) ∧
    (∀ bytes, stringToken? (quoted inside) = some (.str bytes) ↔
      SpellsBytes ReadEscape inside bytes) ∧
    (¬ ['\\', 'x', '+'] <:+: inside →
      ∀ bytes, stringToken? (quoted inside) = some (.str bytes) ↔
        SpellsBytes Escape inside bytes) := by
  have hread (bytes : List UInt8) : stringToken? (quoted inside) = some (.str bytes) ↔
      SpellsBytes ReadEscape inside bytes := by
    rw [stringToken?_quoted, ← unescape?_eq_some_iff, Option.map_eq_some_iff]
    simp
  refine ⟨firstToken_quoted h, hread, fun hplus bytes => ?_⟩
  rw [hread]
  exact ⟨fun hspells => hspells.documented hplus, .mono fun _ _ => .escape⟩

/-- An accented letter, a byte by its value and an escaped quote. -/
theorem stringToken?_eq_some_iff_accent :
    let inside := ['é', '\\', 'x', '4', '1', '\\', '"']
    let bytes := [0xc3, 0xa9, 0x41, 0x22]
    Inside inside ∧ ¬ ['\\', 'x', '+'] <:+: inside ∧
      firstToken (quoted inside ++ ['"']) = (9, some (.str bytes)) ∧
      SpellsBytes ReadEscape inside bytes ∧ SpellsBytes Escape inside bytes := by
  intro inside bytes
  have hinside : Inside inside := by decide
  have hplus : ¬ ['\\', 'x', '+'] <:+: inside := by decide
  have htoken : stringToken? (quoted inside) = some (.str bytes) := by decide
  obtain ⟨hfirst, hread, hdocumented⟩ := stringToken?_eq_some_iff hinside
  refine ⟨hinside, hplus, ?_, (hread bytes).1 htoken, (hdocumented hplus bytes).1 htoken⟩
  rw [hfirst, htoken]
  rfl

/-- The literal with a plus sign in the place of a hexadecimal digit is read. -/
theorem not_stringToken?_eq_some_iff :
    ¬ ∀ inside, Inside inside → ∀ bytes,
      stringToken? (quoted inside) = some (.str bytes) ↔ SpellsBytes Escape inside bytes := by
  intro h
  have hinside : Inside ['\\', 'x', '+', 'f'] := by decide
  have htoken : stringToken? (quoted ['\\', 'x', '+', 'f']) = some (.str [0x0f]) := by decide
  exact not_spells_plus ['f'] [0x0f] ((h _ hinside _).1 htoken)

end Lanewise.Assembly
