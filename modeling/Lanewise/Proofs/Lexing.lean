import Mathlib
import Lanewise.Assembly.Token

/-!
# Tokens in a row

What a text of words, numbers and marks is cut into. A word ends where a
character follows that none of the rules for words and numbers takes
(`Ends`); there the longest match is the one in the word alone
(`firstToken_append`). `Lexes` says which tokens a text consists of, whatever
its offset.
-/

namespace Lanewise.Assembly

/-! ## Ends of words -/

/-- Characters that words, numbers and directives consist of. -/
def isSolid (c : Char) : Bool :=
  isWordPart c || c == '-' || c == '+' || c == '.'

/-- The text goes on with something that belongs to no word in front of it. -/
def Ends (rest : List Char) : Prop :=
  ∀ c, rest.head? = some c → isSolid c = false

theorem ends_nil : Ends [] :=
  nofun

theorem ends_cons {c : Char} (h : isSolid c = false) (rest : List Char) : Ends (c :: rest) := by
  rintro _ ⟨⟩
  exact h

theorem ne_of_isSolid {c d : Char} (hc : isSolid c = true) (hd : isSolid d = false) : d ≠ c := by
  rintro rfl
  rw [hc] at hd
  cases hd

theorem isSolid_of_isWordPart {c : Char} (h : isWordPart c = true) : isSolid c = true := by
  simp [isSolid, h]

theorem isWordPart_of_isDigit {c : Char} (h : c.isDigit = true) : isWordPart c = true := by
  simp [isWordPart, Char.isAlphanum, h]

theorem isWordPart_of_isWordStart {c : Char} (h : isWordStart c = true) :
    isWordPart c = true := by
  rw [isWordStart, Bool.or_eq_true] at h
  rw [isWordPart, Char.isAlphanum]
  rcases h with h | h <;> simp [h]

theorem isSolid_of_isDigit {c : Char} (h : c.isDigit = true) : isSolid c = true :=
  isSolid_of_isWordPart (isWordPart_of_isDigit h)

theorem isSolid_of_hexValue? {c : Char} (h : (Text.hexValue? c).isSome = true) :
    isSolid c = true := by
  have hrange : '0' ≤ c ∧ c ≤ '9' ∨ 'a' ≤ c ∧ c ≤ 'f' ∨ 'A' ≤ c ∧ c ≤ 'F' := by
    unfold Text.hexValue? at h
    split at h
    · exact .inl ‹_›
    · split at h
      · exact .inr (.inl ‹_›)
      · split at h
        · exact .inr (.inr ‹_›)
        · cases h
  refine isSolid_of_isWordPart ?_
  simp only [Char.le_def, UInt32.le_iff_toNat_le] at hrange
  simp only [isWordPart, Char.isAlphanum, Char.isAlpha, Char.isUpper, Char.isLower, Char.isDigit,
    Bool.or_eq_true, Bool.and_eq_true, decide_eq_true_eq, ge_iff_le, UInt32.le_iff_toNat_le]
  have hupper : 'F'.val.toNat ≤ 'Z'.val.toNat := by decide
  have hlower : 'f'.val.toNat ≤ 'z'.val.toNat := by decide
  omega

/-! ## Matches by their first characters -/

theorem registerLength_cons (c : Char) (cs : List Char) :
    registerLength (c :: cs) = if c = 'r' then leadLength 1 Char.isDigit cs else 0 := by
  unfold registerLength
  split <;> simp_all

theorem integerLength_cons (c : Char) (cs : List Char) :
    integerLength (c :: cs) =
      if c = '-' then leadLength 1 Char.isDigit cs else leadLength 0 Char.isDigit (c :: cs) := by
  unfold integerLength
  split <;> simp_all

theorem hexLength_cons (c : Char) (cs : List Char) :
    hexLength (c :: cs) =
      if c = '0' ∧ cs.head? = some 'x' then
        leadLength 2 (fun c => (Text.hexValue? c).isSome) cs.tail
      else 0 := by
  unfold hexLength
  split
  · simp_all
  · cases cs <;> simp_all

theorem exponentLength_cons (c : Char) (cs : List Char) :
    exponentLength (c :: cs) =
      if c = 'e' ∨ c = 'E' then
        if cs.head? = some '+' ∨ cs.head? = some '-' then leadLength 2 Char.isDigit cs.tail
        else leadLength 1 Char.isDigit cs
      else 0 := by
  cases cs with
  | nil => simp [exponentLength, leadLength, spanLength]
  | cons sign cs => simp [exponentLength]

/-- A number goes on behind its digits with a fraction or with an exponent. -/
theorem decimalLength_eq (cs : List Char) :
    decimalLength cs =
      let whole := integerLength cs
      let tail := cs.drop whole
      let fraction := spanLength Char.isDigit tail.tail
      if whole = 0 then 0
      else if tail.head? = some '.' then
        whole + 1 + fraction + exponentLength (tail.tail.drop fraction)
      else if exponentLength tail = 0 then 0
      else whole + exponentLength tail := by
  unfold decimalLength
  by_cases hwhole : integerLength cs = 0
  · simp [hwhole]
  simp only [if_neg hwhole]
  generalize cs.drop (integerLength cs) = tail
  cases tail with
  | nil => rfl
  | cons c tail =>
    by_cases hc : c = '.'
    · subst hc
      rfl
    · cases hexponent : exponentLength (c :: tail) <;> simp [hc, hexponent]

theorem directiveLength_cons (c : Char) (cs : List Char) :
    directiveLength (c :: cs) =
      if c = '.' then if wordLength cs = 0 then 0 else wordLength cs + 1 else 0 := by
  unfold directiveLength
  split
  · simp_all
    split <;> simp_all
  · simp_all

theorem bare_eq (cs : List Char) :
    namedNumberLength.bare cs =
      if ['i', 'n', 'f'] <+: cs ∨ ['N', 'a', 'N'] <+: cs ∨ ['n', 'a', 'n'] <+: cs then 3
      else 0 := by
  unfold namedNumberLength.bare
  split
  · simp
  · simp
  · simp
  · next hinf hNaN hnan =>
    refine (if_neg ?_).symm
    rintro (⟨t, rfl⟩ | ⟨t, rfl⟩ | ⟨t, rfl⟩)
    · exact hinf t rfl
    · exact hNaN t rfl
    · exact hnan t rfl

theorem namedNumberLength_cons (c : Char) (cs : List Char) :
    namedNumberLength (c :: cs) =
      if c = '-' then if namedNumberLength.bare cs = 0 then 0 else namedNumberLength.bare cs + 1
      else namedNumberLength.bare (c :: cs) := by
  unfold namedNumberLength
  split
  · simp_all
    split <;> simp_all
  · simp_all

/-! ## Lengths -/

theorem spanLength_le (p : Char → Bool) (cs : List Char) : spanLength p cs ≤ cs.length :=
  (List.takeWhile_sublist p).length_le

theorem leadLength_le (lead : Nat) (p : Char → Bool) (cs : List Char) :
    leadLength lead p cs ≤ lead + cs.length := by
  have hspan := spanLength_le p cs
  unfold leadLength
  split <;> omega

theorem integerLength_le (cs : List Char) : integerLength cs ≤ cs.length := by
  cases cs with
  | nil => exact Nat.le_refl 0
  | cons c cs =>
    have htail := leadLength_le 1 Char.isDigit cs
    have hall := leadLength_le 0 Char.isDigit (c :: cs)
    rw [integerLength_cons]
    split
    · rw [List.length_cons]
      omega
    · omega

/-! ## Matches in front of the end of a word -/

section Append

variable {w rest : List Char} (hend : Ends rest)
include hend

theorem spanLength_append {p : Char → Bool} (hp : ∀ c, p c = true → isSolid c = true) :
    spanLength p (w ++ rest) = spanLength p w := by
  have hstop : rest.takeWhile p = [] := by
    cases rest with
    | nil => rfl
    | cons c rest =>
      have hc : p c = false := by
        by_contra hpc
        exact ne_of_isSolid (hp c (by simpa using hpc)) (hend c rfl) rfl
      simp [hc]
  rw [spanLength, spanLength, List.takeWhile_append]
  split <;> simp_all

theorem leadLength_append {p : Char → Bool} (hp : ∀ c, p c = true → isSolid c = true)
    (lead : Nat) : leadLength lead p (w ++ rest) = leadLength lead p w := by
  rw [leadLength, leadLength, spanLength_append hend hp]

/-- A text of solid characters stands in front only if it does in the word. -/
theorem prefix_append_iff {cs : List Char} (hcs : ∀ c ∈ cs, isSolid c = true) :
    cs <+: w ++ rest ↔ cs <+: w := by
  induction cs generalizing w with
  | nil => simp
  | cons c cs ih =>
    obtain ⟨hc, hcs⟩ := List.forall_mem_cons.1 hcs
    cases w with
    | cons d w => simp only [List.cons_append, List.cons_prefix_cons, ih hcs]
    | nil =>
      refine iff_of_false ?_ (by simp)
      rintro ⟨t, rfl⟩
      cases hc.symm.trans (hend c rfl)

theorem head?_append_iff {c : Char} (hc : isSolid c = true) :
    (w ++ rest).head? = some c ↔ w.head? = some c := by
  cases w with
  | cons d w => rfl
  | nil =>
    refine iff_of_false (fun h => ?_) nofun
    cases hc.symm.trans (hend c h)

/-- A rule that takes nothing where a word ends looks at the word alone if it
does so behind each first character. -/
theorem matchLength_append_of_cons {f : List Char → Nat} (hnil : f [] = 0)
    (hstop : ∀ c cs, isSolid c = false → f (c :: cs) = 0)
    (hcons : ∀ c w, f (c :: (w ++ rest)) = f (c :: w)) : f (w ++ rest) = f w := by
  cases w with
  | cons c w => exact hcons c w
  | nil =>
    cases rest with
    | nil => rfl
    | cons d rest => rw [List.nil_append, hstop d rest (hend d rfl), hnil]

theorem registerLength_append : registerLength (w ++ rest) = registerLength w := by
  refine matchLength_append_of_cons hend rfl (fun c cs hc => ?_) fun c w => ?_
  · rw [registerLength_cons, if_neg (ne_of_isSolid (by decide) hc)]
  · simp only [registerLength_cons, leadLength_append hend fun c => isSolid_of_isDigit]

theorem wordLength_append : wordLength (w ++ rest) = wordLength w := by
  refine matchLength_append_of_cons hend rfl (fun c cs hc => ?_) fun c w => ?_
  · have hstart : ¬ isWordStart c = true := fun h => by
      cases (isSolid_of_isWordPart (isWordPart_of_isWordStart h)).symm.trans hc
    rw [wordLength, if_neg hstart]
  · simp only [wordLength, spanLength_append hend fun c => isSolid_of_isWordPart]

theorem integerLength_append : integerLength (w ++ rest) = integerLength w := by
  refine matchLength_append_of_cons hend rfl (fun c cs hc => ?_) fun c w => ?_
  · have hlead := leadLength_append (w := []) (ends_cons hc cs)
      (fun c => isSolid_of_isDigit) 0
    rw [integerLength_cons, if_neg (ne_of_isSolid (by decide) hc)]
    exact hlead
  · have hlead := leadLength_append (w := c :: w) hend (fun c => isSolid_of_isDigit) 0
    rw [List.cons_append] at hlead
    simp only [integerLength_cons, hlead, leadLength_append hend fun c => isSolid_of_isDigit]

theorem hexLength_append : hexLength (w ++ rest) = hexLength w := by
  refine matchLength_append_of_cons hend rfl (fun c cs hc => ?_) fun c w => ?_
  · rw [hexLength_cons, if_neg fun h => ne_of_isSolid (by decide) hc h.1]
  · simp only [hexLength_cons, head?_append_iff hend (show isSolid 'x' = true by decide)]
    split
    · next h =>
      cases w with
      | nil => cases h.2
      | cons d w => exact leadLength_append hend (fun c => isSolid_of_hexValue?) 2
    · rfl

omit hend in
theorem tail_append_of_head? {c : Char} (hc : w.head? = some c) :
    (w ++ rest).tail = w.tail ++ rest := by
  cases w with
  | nil => cases hc
  | cons d w => rfl

theorem exponentLength_append : exponentLength (w ++ rest) = exponentLength w := by
  refine matchLength_append_of_cons hend rfl (fun c cs hc => ?_) fun c w => ?_
  · have he : ¬ (c = 'e' ∨ c = 'E') := fun h =>
      h.elim (ne_of_isSolid (by decide) hc) (ne_of_isSolid (by decide) hc)
    rw [exponentLength_cons, if_neg he]
  · simp only [exponentLength_cons, head?_append_iff hend (show isSolid '+' = true by decide),
      head?_append_iff hend (show isSolid '-' = true by decide)]
    split
    · split
      · next h =>
        have htail : (w ++ rest).tail = w.tail ++ rest :=
          h.elim tail_append_of_head? tail_append_of_head?
        rw [htail, leadLength_append hend fun c => isSolid_of_isDigit]
      · rw [leadLength_append hend fun c => isSolid_of_isDigit]
    · rfl

theorem decimalLength_append : decimalLength (w ++ rest) = decimalLength w := by
  have hwhole := integerLength_le w
  simp only [decimalLength_eq, integerLength_append hend, List.drop_append_of_le_length hwhole]
  generalize w.drop (integerLength w) = tail
  rw [exponentLength_append hend]
  simp only [head?_append_iff hend (show isSolid '.' = true by decide)]
  split
  · rfl
  split
  · next h =>
    have hspan := spanLength_le Char.isDigit tail.tail
    rw [tail_append_of_head? h, spanLength_append hend fun c => isSolid_of_isDigit,
      List.drop_append_of_le_length hspan, exponentLength_append hend]
  · rfl

theorem bare_append :
    namedNumberLength.bare (w ++ rest) = namedNumberLength.bare w := by
  have hletters : ∀ text : List Char, text.all isSolid = true →
      (text <+: w ++ rest ↔ text <+: w) := fun text h =>
    prefix_append_iff hend (List.all_eq_true.1 h)
  simp only [bare_eq, hletters ['i', 'n', 'f'] (by decide), hletters ['N', 'a', 'N'] (by decide),
    hletters ['n', 'a', 'n'] (by decide)]

theorem namedNumberLength_append : namedNumberLength (w ++ rest) = namedNumberLength w := by
  refine matchLength_append_of_cons hend rfl (fun c cs hc => ?_) fun c w => ?_
  · rw [namedNumberLength_cons, if_neg (ne_of_isSolid (by decide) hc)]
    exact bare_append (w := []) (ends_cons hc cs)
  · have hbare := bare_append (w := c :: w) hend
    rw [List.cons_append] at hbare
    simp only [namedNumberLength_cons, hbare, bare_append hend]

theorem directiveLength_append : directiveLength (w ++ rest) = directiveLength w := by
  refine matchLength_append_of_cons hend rfl (fun c cs hc => ?_) fun c w => ?_
  · rw [directiveLength_cons, if_neg (ne_of_isSolid (by decide) hc)]
  · simp only [directiveLength_cons, wordLength_append hend]

end Append

/-! ## Longest matches -/

/-- The better one of a match so far and that of a rule. -/
def better (cs : List Char) (best : Nat × Option Rule) (rule : Rule) : Nat × Option Rule :=
  if best.1 < rule.matchLength cs then (rule.matchLength cs, some rule) else best

theorem longestMatch_eq_foldl (cs : List Char) :
    longestMatch cs = rules.foldl (better cs) (0, none) :=
  rfl

theorem foldl_better_lt {cs : List Char} {n : Nat} {best : Nat × Option Rule} {rs : List Rule}
    (hbest : best.1 < n) (h : ∀ r ∈ rs, r.matchLength cs < n) :
    (rs.foldl (better cs) best).1 < n := by
  induction rs generalizing best with
  | nil => exact hbest
  | cons r rs ih =>
    obtain ⟨hr, hrs⟩ := List.forall_mem_cons.1 h
    refine ih ?_ hrs
    unfold better
    split
    · exact hr
    · exact hbest

theorem foldl_better_eq {cs : List Char} {best : Nat × Option Rule} {rs : List Rule}
    (h : ∀ r ∈ rs, r.matchLength cs ≤ best.1) : rs.foldl (better cs) best = best := by
  induction rs with
  | nil => rfl
  | cons r rs ih =>
    obtain ⟨hr, hrs⟩ := List.forall_mem_cons.1 h
    rw [List.foldl_cons, better, if_neg (Nat.not_lt.2 hr), ih hrs]

/-- A rule wins that matches more than the rules in front of it and no less
than the rules behind it. -/
theorem longestMatch_eq {cs : List Char} {rule : Rule} {before after : List Rule}
    (hrules : rules = before ++ rule :: after) (hpos : 0 < rule.matchLength cs)
    (hbefore : ∀ r ∈ before, r.matchLength cs < rule.matchLength cs)
    (hafter : ∀ r ∈ after, r.matchLength cs ≤ rule.matchLength cs) :
    longestMatch cs = (rule.matchLength cs, some rule) := by
  have hnone : (0, (none : Option Rule)).1 < rule.matchLength cs := hpos
  have hlt := foldl_better_lt hnone hbefore
  rw [longestMatch_eq_foldl, hrules, List.foldl_append, List.foldl_cons, better, if_pos hlt,
    foldl_better_eq hafter]

/-- Neither the match so far nor any rule matches more than the winner. -/
theorem le_foldl_better (cs : List Char) (best : Nat × Option Rule) (rs : List Rule) :
    best.1 ≤ (rs.foldl (better cs) best).1 ∧
      ∀ r ∈ rs, r.matchLength cs ≤ (rs.foldl (better cs) best).1 := by
  induction rs generalizing best with
  | nil => simp
  | cons r rs ih =>
    obtain ⟨hbest, hrest⟩ := ih (better cs best r)
    have hstep : best.1 ≤ (better cs best r).1 ∧ r.matchLength cs ≤ (better cs best r).1 := by
      unfold better
      split
      · next hr => exact ⟨hr.le, le_rfl⟩
      · next hr => exact ⟨le_rfl, Nat.not_lt.1 hr⟩
    exact ⟨hstep.1.trans hbest, List.forall_mem_cons.2 ⟨hstep.2.trans hbest, hrest⟩⟩

/-- The winner is the match so far or a rule that matches more. -/
theorem foldl_better_cases (cs : List Char) (best : Nat × Option Rule) (rs : List Rule) :
    rs.foldl (better cs) best = best ∨
      ∃ r ∈ rs, best.1 < r.matchLength cs ∧
        rs.foldl (better cs) best = (r.matchLength cs, some r) := by
  induction rs generalizing best with
  | nil => exact .inl rfl
  | cons r rs ih =>
    have hwinner := ih (better cs best r)
    rw [List.foldl_cons]
    by_cases hr : best.1 < r.matchLength cs
    · have hbetter : better cs best r = (r.matchLength cs, some r) := if_pos hr
      rw [hbetter] at hwinner ⊢
      rcases hwinner with hwinner | ⟨r', hr', hlt, hwinner⟩
      · exact .inr ⟨r, .head _, hr, hwinner⟩
      · exact .inr ⟨r', .tail _ hr', hr.trans hlt, hwinner⟩
    · have hbetter : better cs best r = best := if_neg hr
      rw [hbetter] at hwinner ⊢
      rcases hwinner with hwinner | ⟨r', hr', hlt, hwinner⟩
      · exact .inl hwinner
      · exact .inr ⟨r', .tail _ hr', hlt, hwinner⟩

/-- The rule that wins matches, and no rule matches more. -/
theorem of_longestMatch {cs : List Char} {n : Nat} {rule : Rule}
    (h : longestMatch cs = (n, some rule)) :
    rule ∈ rules ∧ rule.matchLength cs = n ∧ 0 < n ∧ ∀ r ∈ rules, r.matchLength cs ≤ n := by
  rw [longestMatch_eq_foldl] at h
  have hall := (le_foldl_better cs (0, none) rules).2
  rw [h] at hall
  rcases foldl_better_cases cs (0, none) rules with hnone | ⟨r, hr, hpos, hwinner⟩
  · cases h.symm.trans hnone
  · cases h.symm.trans hwinner
    exact ⟨hr, rfl, hpos, hall⟩

theorem stringLength_cons {c : Char} (hc : c ≠ '"') (cs : List Char) :
    stringLength (c :: cs) = 0 := by
  unfold stringLength
  split <;> simp_all

section Word

variable {w rest : List Char} {c : Char} (hc : w.head? = some c) (hsolid : isSolid c = true)
  (hend : Ends rest)
include hc hsolid hend

/-- A rule matches a word in front of an end as it matches the word alone. -/
theorem matchLength_append {rule : Rule} (hrule : rule ∈ rules) :
    rule.matchLength (w ++ rest) = rule.matchLength w := by
  have hchar (d : Char) (t : Token) :
      (Rule.char d t).matchLength (w ++ rest) = (Rule.char d t).matchLength w := by
    simp [Rule.char, hc]
  have hstring : stringLength (w ++ rest) = stringLength w := by
    have hquote : c ≠ '"' := by
      rintro rfl
      cases hsolid
    cases w with
    | nil => cases hc
    | cons d w =>
      cases hc
      rw [List.cons_append, stringLength_cons hquote, stringLength_cons hquote]
  simp only [rules, List.mem_cons, List.not_mem_nil, or_false] at hrule
  rcases hrule with rfl | rfl | rfl | rfl | rfl | rfl | rfl | rfl | rfl | rfl | rfl | rfl
  · exact registerLength_append hend
  · exact namedNumberLength_append hend
  · exact wordLength_append hend
  · exact hexLength_append hend
  · exact decimalLength_append hend
  · exact integerLength_append hend
  · exact hstring
  · exact directiveLength_append hend
  all_goals exact hchar _ _

theorem longestMatch_append : longestMatch (w ++ rest) = longestMatch w := by
  rw [longestMatch_eq_foldl, longestMatch_eq_foldl]
  refine List.foldl_ext _ _ _ fun best rule hrule => ?_
  rw [better, better, matchLength_append hc hsolid hend hrule]

/-- A word in front of an end is the token that it is alone. -/
theorem firstToken_append {t : Token} (h : firstToken w = (w.length, some t)) :
    firstToken (w ++ rest) = (w.length, some t) := by
  unfold firstToken at h ⊢
  rw [longestMatch_append hc hsolid hend]
  split at h
  · next n rule hmatch =>
    obtain ⟨hn, hvalue⟩ := Prod.mk.inj h
    subst hn
    rw [List.take_left, List.take_length] at *
    rw [hvalue]
  · cases (Prod.mk.inj h).2

end Word

/-! ## Positions -/

/-- The lexeme where `n` more bytes stand in front of the text. -/
def Lexeme.behind (n : Nat) (lexeme : Lexeme) : Lexeme :=
  { lexeme with start := n + lexeme.start, stop := n + lexeme.stop }

/-- A text is cut into the same pieces wherever it stands. -/
theorem lexFrom_add (n offset : Nat) (cs : List Char) :
    lexFrom (n + offset) cs = (lexFrom offset cs).map (Lexeme.behind n) := by
  fun_induction lexFrom offset cs with
  | case1 => simp [lexFrom]
  | case2 offset c rest skip hskip ih =>
    rw [lexFrom, if_pos hskip, Nat.add_assoc, ih]
  | case3 offset c rest skip hskip length token? htoken taken text stop ih =>
    rw [lexFrom, if_neg hskip, htoken, List.map_cons, ← ih]
    simp only [Lexeme.behind, stop, text, taken, Nat.add_assoc]

/-! ## Texts -/

/-- The tokens that a text consists of, wherever it stands. -/
def Lexes (cs : List Char) (tokens : List Token) : Prop :=
  ∀ offset, (lexFrom offset cs).map Lexeme.token? = tokens.map some

/-- Nothing is skipped at the character. -/
def isLead (c : Char) : Bool :=
  !isBlank c && c != '#'

theorem skipLength_of_isLead {c : Char} (h : isLead c = true) (rest : List Char) :
    skipLength c rest = 0 := by
  simp only [isLead, Bool.and_eq_true, Bool.not_eq_true', bne_iff_ne] at h
  simp [skipLength, h.1, h.2]

theorem isLead_of_isSolid {c : Char} (h : isSolid c = true) : isLead c = true := by
  have hne (d : Char) (hd : isSolid d = false) : c ≠ d := by
    rintro rfl
    cases h.symm.trans hd
  simp [isLead, isBlank, hne ' ' rfl, hne '\t' rfl, hne '\r' rfl, hne '#' rfl]

/-- A piece in front of a text. -/
theorem lexFrom_append {c : Char} {cs rest : List Char} {token? : Option Token}
    (hlead : isLead c = true)
    (ht : firstToken (c :: cs ++ rest) = ((c :: cs).length, token?)) (offset : Nat) :
    lexFrom offset (c :: cs ++ rest) =
      ⟨offset, offset + byteLength (c :: cs), String.ofList (c :: cs), token?⟩ ::
        lexFrom (offset + byteLength (c :: cs)) rest := by
  have hlength : max 1 (c :: cs).length = (c :: cs).length := by simp
  rw [List.cons_append] at ht ⊢
  rw [lexFrom]
  simp only [skipLength_of_isLead hlead, ht, hlength, ne_eq, not_true_eq_false, if_false]
  rw [← List.cons_append, List.take_left, List.drop_left]

theorem lexFrom_blank {c : Char} (hc : isBlank c = true) (offset : Nat) (rest : List Char) :
    lexFrom offset (c :: rest) = lexFrom (offset + c.utf8Size) rest := by
  rw [lexFrom]
  simp [skipLength, hc, byteLength]

namespace Lexes

variable {rest : List Char} {tokens : List Token}

theorem nil : Lexes [] [] := by
  intro offset
  rw [lexFrom]
  rfl

theorem blank {c : Char} (hc : isBlank c = true) (h : Lexes rest tokens) :
    Lexes (c :: rest) tokens := by
  intro offset
  rw [lexFrom_blank hc, h]

/-- Blanks in front. -/
theorem blanks {front : List Char} (hfront : ∀ c ∈ front, isBlank c = true)
    (h : Lexes rest tokens) : Lexes (front ++ rest) tokens := by
  induction front with
  | nil => exact h
  | cons c front ih =>
    obtain ⟨hc, hfront⟩ := List.forall_mem_cons.1 hfront
    exact (ih hfront).blank hc

/-- A token in front. -/
theorem cons {c : Char} {cs : List Char} {t : Token} (hlead : isLead c = true)
    (ht : firstToken (c :: cs ++ rest) = ((c :: cs).length, some t)) (h : Lexes rest tokens) :
    Lexes (c :: cs ++ rest) (t :: tokens) := by
  intro offset
  rw [lexFrom_append hlead ht, List.map_cons, h, List.map_cons]

/-- A word in front of an end. -/
theorem word {c : Char} {cs : List Char} {t : Token} (hc : isSolid c = true)
    (ht : firstToken (c :: cs) = ((c :: cs).length, some t)) (hend : Ends rest)
    (h : Lexes rest tokens) : Lexes (c :: cs ++ rest) (t :: tokens) :=
  cons (isLead_of_isSolid hc) (firstToken_append rfl hc hend ht) h

theorem comma (h : Lexes rest tokens) : Lexes (',' :: rest) (.comma :: tokens) :=
  @cons rest tokens ',' [] .comma rfl rfl h

end Lexes

end Lanewise.Assembly
