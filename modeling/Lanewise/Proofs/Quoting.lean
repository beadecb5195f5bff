import Lanewise.Assembly.Listing
import Lanewise.Proofs.Escapes

/-!
# Quoted bytes

A byte string is written between quotes with each byte in one of two forms, as a
character or as an escape (`QuotedAs`). What stands between the quotes therefore
ends at the last quote and spells the bytes, so the literal is one token, which
stands for them, in front of anything (`firstToken_quoteBytes`).
-/

namespace Lanewise.Assembly

/-! ## Bytes -/

/-- How a byte is written inside quotes: as a character or as an escape. -/
inductive QuotedAs (b : UInt8) : List Char → Prop where
  | plain (c : Char) (hquote : c ≠ '"') (hslash : c ≠ '\\')
      (hbyte : String.utf8EncodeChar c = [b]) : QuotedAs b [c]
  | escape {text : List Char} (h : Escape text b) : QuotedAs b text

theorem hex_two {n : Nat} (hn : n < 256) :
    (Text.hex 2 n).toList = [(n / 16).digitChar, (n % 16).digitChar] := by
  have hhigh : n / 16 < 16 := by omega
  rw [Text.hex, String.toList_ofList]
  by_cases hsmall : n < 16
  · have hzero : n / 16 = 0 := by omega
    rw [Nat.toDigits_of_lt_base hsmall, hzero, Nat.mod_eq_of_lt hsmall]
    rfl
  · rw [Nat.toDigits_of_base_le (by decide) (Nat.not_lt.1 hsmall), Nat.toDigits_of_lt_base hhigh]
    rfl

/-- A hexadecimal digit is read back. -/
theorem hexValue?_digitChar : ∀ d : Fin 16, Text.hexValue? d.val.digitChar = some d.val := by
  decide

theorem escape_hex (b : UInt8) :
    Escape ['\\', 'x', (b.toNat / 16).digitChar, (b.toNat % 16).digitChar] b := by
  have hb := b.toNat_lt
  have hvalue : (16 * (b.toNat / 16) + b.toNat % 16).toUInt8 = b := by
    rw [Nat.div_add_mod]
    exact UInt8.ofNat_toNat
  have hescape := Escape.hex (hexValue?_digitChar ⟨b.toNat / 16, by omega⟩)
    (hexValue?_digitChar ⟨b.toNat % 16, by omega⟩)
  rwa [hvalue] at hescape

/-- The printable characters apart from the quote and the backslash. -/
theorem plain_char : ∀ n : Fin 128, 0x20 ≤ n.val → n.val ≠ 34 → n.val ≠ 92 →
    Char.ofNat n.val ≠ '"' ∧ Char.ofNat n.val ≠ '\\' ∧
      String.utf8EncodeChar (Char.ofNat n.val) = [n.val.toUInt8] := by
  decide +kernel

theorem quotedAs_quoteByte (b : UInt8) : QuotedAs b (quoteByte b).toList := by
  unfold quoteByte
  split
  · next hb =>
    subst hb
    exact .escape .quote
  split
  · next hb =>
    subst hb
    exact .escape .backslash
  split
  · next hquote hslash hrange =>
    have hlow : 0x20 ≤ b.toNat := hrange.1
    have hhigh : b.toNat ≤ 0x7e := hrange.2
    obtain ⟨hq, hs, hbyte⟩ := plain_char ⟨b.toNat, by omega⟩ hlow
      (fun h => hquote (UInt8.toNat_inj.1 h)) (fun h => hslash (UInt8.toNat_inj.1 h))
    simp only [Nat.toUInt8_eq, UInt8.ofNat_toNat] at hbyte
    rw [Char.toString, String.toList_singleton]
    exact .plain _ hq hs hbyte
  · rw [String.toList_append, hex_two b.toNat_lt]
    exact .escape (escape_hex b)

namespace QuotedAs

variable {b : UInt8} {cs rest : List Char} (h : QuotedAs b cs)
include h

theorem inside_append (hrest : Inside rest) : Inside (cs ++ rest) := by
  cases h with
  | plain c hquote hslash hbyte => exact .char hquote hslash hrest
  | escape h => exact h.inside_append hrest

theorem spells_append {bytes : List UInt8} (hrest : SpellsBytes Escape rest bytes) :
    SpellsBytes Escape (cs ++ rest) (b :: bytes) := by
  cases h with
  | plain c hquote hslash hbyte =>
    have hspells := hrest.char hslash
    rwa [hbyte] at hspells
  | escape h => exact .escape h hrest

end QuotedAs

/-! ## Byte strings -/

/-- A byte string between its quotes. -/
def quotedChars (bytes : List UInt8) : List Char :=
  bytes.flatMap fun b => (quoteByte b).toList

theorem quotedChars_cons (b : UInt8) (bytes : List UInt8) :
    quotedChars (b :: bytes) = (quoteByte b).toList ++ quotedChars bytes :=
  List.flatMap_cons

theorem toList_quoteBytes (bytes : List UInt8) :
    (quoteBytes bytes).toList = quoted (quotedChars bytes) := by
  simp [quoteBytes, quoted, quotedChars, List.flatMap_map]

theorem inside_quotedChars (bytes : List UInt8) : Inside (quotedChars bytes) := by
  induction bytes with
  | nil => exact .nil
  | cons b bytes ih =>
    rw [quotedChars_cons]
    exact (quotedAs_quoteByte b).inside_append ih

theorem spells_quotedChars (bytes : List UInt8) : SpellsBytes Escape (quotedChars bytes) bytes := by
  induction bytes with
  | nil => exact .nil
  | cons b bytes ih =>
    rw [quotedChars_cons]
    exact (quotedAs_quoteByte b).spells_append ih

theorem stringToken?_quotedChars (bytes : List UInt8) :
    stringToken? (quoted (quotedChars bytes)) = some (.str bytes) := by
  have hspells : SpellsBytes ReadEscape (quotedChars bytes) bytes :=
    (spells_quotedChars bytes).mono fun _ _ => .escape
  rw [stringToken?_quoted, unescape?_of_spells hspells]
  rfl

/-! ## Literals in a text -/

theorem firstToken_quoteBytes (bytes : List UInt8) (rest : List Char) :
    firstToken ((quoteBytes bytes).toList ++ rest) =
      ((quoteBytes bytes).toList.length, some (.str bytes)) := by
  rw [toList_quoteBytes, firstToken_quoted (inside_quotedChars bytes),
    stringToken?_quotedChars]

/-- A string literal in front of anything. -/
theorem Lexes.str {bytes : List UInt8} {rest : List Char} {tokens : List Token}
    (h : Lexes rest tokens) : Lexes ((quoteBytes bytes).toList ++ rest) (.str bytes :: tokens) := by
  have ht := firstToken_quoteBytes bytes rest
  rw [toList_quoteBytes] at ht ⊢
  exact cons rfl ht h

/-- The lexeme of a literal at the front of a text. -/
def literalLexeme (bytes : List UInt8) : Lexeme where
  start := 0
  stop := byteLength (quoteBytes bytes).toList
  text := quoteBytes bytes
  token? := some (.str bytes)

theorem lexFrom_quoteBytes (bytes : List UInt8) (rest : List Char) :
    lexFrom 0 ((quoteBytes bytes).toList ++ rest) =
      literalLexeme bytes :: lexFrom (byteLength (quoteBytes bytes).toList) rest := by
  have hlead : isLead '"' = true := by decide
  have hchars : (quoteBytes bytes).toList = '"' :: (quotedChars bytes ++ ['"']) :=
    toList_quoteBytes bytes
  have hfirst := firstToken_quoteBytes bytes rest
  rw [hchars] at hfirst
  have hpiece := lexFrom_append hlead hfirst 0
  rwa [← hchars, String.ofList_toList, Nat.zero_add] at hpiece

/-- A quoted byte string is a single token, which stands for its bytes. With a blank
behind it, any text follows with the lexemes it has alone, moved back by the bytes
in front; a fault in it stays the fault it is. -/
theorem lex_quoteBytes (bytes : List UInt8) :
    lex (quoteBytes bytes) = [literalLexeme bytes] ∧
    ∀ text : String, lex (quoteBytes bytes ++ " " ++ text) =
      literalLexeme bytes ::
        (lex text).map (Lexeme.behind (byteLength (quoteBytes bytes).toList + 1)) := by
  constructor
  · have halone := lexFrom_quoteBytes bytes []
    rwa [List.append_nil, lexFrom] at halone
  · intro text
    have hblank : isBlank ' ' = true := rfl
    have htext : (quoteBytes bytes ++ " " ++ text).toList =
        (quoteBytes bytes).toList ++ ' ' :: text.toList := by
      simp
    rw [lex, htext, lexFrom_quoteBytes, lexFrom_blank hblank, lex, ← lexFrom_add]
    rfl

end Lanewise.Assembly
