import Mathlib.Data.List.Forall2
import Lanewise.Proofs.Lines

/-!
# Lists of operands

The operands of a line are read by looking one token ahead. A single pass that keeps
the operands so far and whether one is due reads the same and refuses the same
(`operandsOf_eq_onePass`), and what it has read at any moment is a list of operands
with single commas between them, with a comma at its end where an operand is due
(`Pass.Read`). So a line has operands exactly when its tokens alternate so
(`operandsOf_eq_ok_iff`).
-/

namespace Lanewise.Assembly

/-- The tokens that are operands, and which. -/
inductive IsOperand : Token → Operand → Prop where
  | register {n : Nat} (h : n ≤ 255) : IsOperand (.register n) (.register (UInt8.ofNat n))
  | integer (value : Int64) : IsOperand (.integer value) (.integer value)
  | hex (value : Int64) : IsOperand (.hex value) (.integer value)
  | name (text : String) : IsOperand (.identifier text) (.name text)

/-- Operands, one for each word, and single commas between the words. -/
def IsOperandList (tokens : List Token) (operands : List Operand) : Prop :=
  ∃ words, tokens = words.intersperse .comma ∧ List.Forall₂ IsOperand words operands

theorem operandOf_eq_ok_iff (line : Nat) (t : Located) (operand : Operand) :
    operandOf line t = .ok operand ↔ IsOperand t.token operand := by
  obtain ⟨token, start⟩ := t
  constructor
  · intro h
    unfold operandOf at h
    split at h
    · next n htoken =>
      obtain rfl : token = .register n := htoken
      split at h
      · next hn =>
        cases h
        exact .register (Nat.le_of_lt_succ hn)
      · cases h
    · next v htoken =>
      obtain rfl : token = .integer v := htoken
      cases h
      exact .integer v
    · next v htoken =>
      obtain rfl : token = .hex v := htoken
      cases h
      exact .hex v
    · next name htoken =>
      obtain rfl : token = .identifier name := htoken
      cases h
      exact .name name
    · cases h
  · intro h
    cases h with
    | register h => exact if_pos (Nat.lt_succ_of_le h)
    | integer | hex | name => rfl

/-! ## One pass -/

/-- Where a single pass over the tokens stands. -/
structure Pass where
  operands : List Operand
  /-- The next token has to be an operand, no comma. -/
  due : Bool

namespace Pass

def step (line : Nat) (s : Pass) (t : Located) : Except AssemblyError Pass :=
  if s.due then (fun operand => ⟨s.operands ++ [operand], false⟩) <$> operandOf line t
  else if t.token = .comma then .ok ⟨s.operands, true⟩
  else .error (syntaxErrorAt line t.start "expected ','")

/-- The operands of a pass that went over all tokens, of which the last may be a
comma too many. -/
def finish (line : Nat) (last? : Option Located) (s : Pass) :
    Except AssemblyError (List Operand) :=
  if s.due ∧ s.operands ≠ [] then
    .error (syntaxErrorAt line (last?.elim 0 Located.start) "trailing ','")
  else .ok s.operands

/-- The rest of a pass, where `last?` is the last of all tokens. -/
def run (line : Nat) (last? : Option Located) (s : Pass) (tokens : List Located) :
    Except AssemblyError (List Operand) :=
  tokens.foldlM (step line) s >>= finish line last?

/-- Nothing is read yet. -/
def start : Pass := ⟨[], true⟩

end Pass

/-! ## A single pass reads the same -/

section Step

variable {line : Nat} {last? : Option Located} {s s' : Pass} {read : List Operand}
  {t comma : Located} {rest more : List Located} {operand : Operand} {e : AssemblyError}

namespace Pass

theorem run_cons (h : step line s t = .ok s') :
    run line last? s (t :: rest) = run line last? s' rest := by
  rw [run, List.foldlM_cons, h]
  rfl

theorem run_cons_of_error (h : step line s t = .error e) :
    run line last? s (t :: rest) = .error e := by
  rw [run, List.foldlM_cons, h]
  rfl

theorem step_operand (h : operandOf line t = .ok operand) :
    step line ⟨read, true⟩ t = .ok ⟨read ++ [operand], false⟩ := by
  rw [step, if_pos rfl, h]
  rfl

theorem step_operand_of_error (h : operandOf line t = .error e) :
    step line ⟨read, true⟩ t = .error e := by
  rw [step, if_pos rfl, h]
  rfl

theorem step_comma (h : comma.token = .comma) :
    step line ⟨read, false⟩ comma = .ok ⟨read, true⟩ := by
  rw [step, if_neg Bool.false_ne_true, if_pos h]

theorem step_missing_comma (h : comma.token ≠ .comma) :
    step line ⟨read, false⟩ comma =
      .error (syntaxErrorAt line comma.start "expected ','") := by
  rw [step, if_neg Bool.false_ne_true, if_neg h]

end Pass

theorem operandsOf_of_error (h : operandOf line t = .error e) :
    operandsOf line (t :: rest) = .error e := by
  rw [operandsOf, h]
  rfl

theorem operandsOf_single (h : operandOf line t = .ok operand) :
    operandsOf line [t] = .ok [operand] := by
  rw [operandsOf, h]
  rfl

theorem operandsOf_trailing_comma (h : operandOf line t = .ok operand)
    (hcomma : comma.token = .comma) :
    operandsOf line [t, comma] = .error (syntaxErrorAt line comma.start "trailing ','") := by
  rw [operandsOf, h]
  exact if_pos hcomma

theorem operandsOf_cons_comma (h : operandOf line t = .ok operand) (hcomma : comma.token = .comma)
    (hmore : more ≠ []) :
    operandsOf line (t :: comma :: more) = (operand :: ·) <$> operandsOf line more := by
  obtain ⟨m, more, rfl⟩ := List.exists_cons_of_ne_nil hmore
  rw [operandsOf, h]
  exact if_pos hcomma

theorem operandsOf_missing_comma (h : operandOf line t = .ok operand)
    (hcomma : comma.token ≠ .comma) :
    operandsOf line (t :: comma :: more) =
      .error (syntaxErrorAt line comma.start "expected ','") := by
  rw [operandsOf, h]
  cases more <;> exact if_neg hcomma

end Step

open Pass

/-- A pass behind some operands, where another one is due. Both readers go on behind an
operand and its comma, so the induction takes two tokens at a time. -/
theorem run_eq_operandsOf (line : Nat) (read : List Operand) :
    ∀ tokens : List Located, tokens ≠ [] →
      run line tokens.getLast? ⟨read, true⟩ tokens = (read ++ ·) <$> operandsOf line tokens
  | [], h => absurd rfl h
  | t :: rest, _ => by
    cases ht : operandOf line t with
    | error e =>
      rw [run_cons_of_error (step_operand_of_error ht), operandsOf_of_error ht]
      rfl
    | ok operand =>
      rw [run_cons (step_operand ht)]
      match rest with
      | [] =>
        rw [operandsOf_single ht]
        rfl
      | comma :: more =>
        by_cases hcomma : comma.token = .comma
        · rw [run_cons (step_comma hcomma)]
          -- the look ahead tells a comma at the end from the others before the flag does
          match more with
          | [] =>
            rw [operandsOf_trailing_comma ht hcomma]
            exact if_pos ⟨rfl, List.append_ne_nil_of_right_ne_nil _ (List.cons_ne_nil _ _)⟩
          | m :: more =>
            have hmore : m :: more ≠ [] := List.cons_ne_nil m more
            rw [operandsOf_cons_comma ht hcomma hmore, List.getLast?_cons_cons,
              List.getLast?_cons_cons, run_eq_operandsOf line _ (m :: more) hmore,
              ← comp_map]
            simp only [Function.comp_def, List.append_assoc, List.singleton_append]
        · rw [run_cons_of_error (step_missing_comma hcomma), operandsOf_missing_comma ht hcomma]
          rfl

/-- Looking one token ahead and keeping a flag read the same operands and refuse the
same lines for the same reason. -/
theorem operandsOf_eq_run (line : Nat) (tokens : List Located) :
    operandsOf line tokens = run line tokens.getLast? start tokens := by
  cases tokens with
  | nil => rfl
  | cons t rest =>
    rw [start, run_eq_operandsOf line [] (t :: rest) (List.cons_ne_nil t rest)]
    exact (id_map _).symm

/-! ## What a pass has read -/

/-- The tokens up to where a pass stands: words with single commas between them, and a
comma behind the last one where another operand is due. -/
def Pass.Read (s : Pass) (tokens : List Token) : Prop :=
  ∃ words, List.Forall₂ IsOperand words s.operands ∧
    if s.due then tokens = words.flatMap ([·, .comma])
    else words ≠ [] ∧ tokens = words.intersperse .comma

theorem intersperse_concat {α : Type} (words : List α) (w sep : α) :
    (words ++ [w]).intersperse sep = words.flatMap ([·, sep]) ++ [w] := by
  induction words with
  | nil => rfl
  | cons x words ih =>
    cases words with
    | nil => rfl
    | cons y words =>
      rw [List.cons_append, List.cons_append, List.intersperse_cons_cons, ← List.cons_append, ih]
      rfl

/-- All that a step can do. -/
theorem Pass.of_step {line : Nat} {s s' : Pass} {t : Located} (h : s.step line t = .ok s') :
    (s.due = true ∧ ∃ operand, IsOperand t.token operand ∧ s' = ⟨s.operands ++ [operand], false⟩) ∨
      s.due = false ∧ t.token = .comma ∧ s' = ⟨s.operands, true⟩ := by
  obtain ⟨read, due⟩ := s
  cases due with
  | true =>
    cases ht : operandOf line t with
    | error e =>
      rw [step_operand_of_error ht] at h
      cases h
    | ok operand =>
      rw [step_operand ht] at h
      cases h
      exact .inl ⟨rfl, operand, (operandOf_eq_ok_iff line t operand).1 ht, rfl⟩
  | false =>
    by_cases hcomma : t.token = .comma
    · rw [step_comma hcomma] at h
      cases h
      exact .inr ⟨rfl, hcomma, rfl⟩
    · rw [step_missing_comma hcomma] at h
      cases h

theorem Pass.read_start : start.Read [] :=
  ⟨[], .nil, rfl⟩

theorem Pass.Read.step {line : Nat} {s s' : Pass} {t : Located} {tokens : List Token}
    (h : s.Read tokens) (hstep : s.step line t = .ok s') : s'.Read (tokens ++ [t.token]) := by
  obtain ⟨words, hwords, htokens⟩ := h
  obtain ⟨hdue, operand, hoperand, rfl⟩ | ⟨hdue, hcomma, rfl⟩ := of_step hstep
  · rw [if_pos hdue] at htokens
    refine ⟨words ++ [t.token], List.rel_append hwords (.cons hoperand .nil), ?_⟩
    rw [if_neg Bool.false_ne_true, intersperse_concat, htokens]
    exact ⟨List.append_ne_nil_of_right_ne_nil _ (List.cons_ne_nil _ _), rfl⟩
  · rw [if_neg (by simp [hdue])] at htokens
    obtain ⟨hne, rfl⟩ := htokens
    refine ⟨words, hwords, ?_⟩
    obtain ⟨words, w, rfl⟩ := (List.eq_nil_or_concat' words).resolve_left hne
    rw [if_pos rfl, intersperse_concat, List.flatMap_append, hcomma, List.append_assoc]
    rfl

theorem Pass.Read.run {line : Nat} {last? : Option Located} {s : Pass} {before : List Token}
    {tokens : List Located} {operands : List Operand} (h : s.Read before)
    (hrun : run line last? s tokens = .ok operands) :
    ∃ s' : Pass, s'.Read (before ++ tokens.map Located.token) ∧
      s'.finish line last? = .ok operands := by
  induction tokens generalizing s before with
  | nil => exact ⟨s, by rwa [List.map_nil, List.append_nil], hrun⟩
  | cons t tokens ih =>
    cases hstep : s.step line t with
    | error e =>
      rw [run_cons_of_error hstep] at hrun
      cases hrun
    | ok next =>
      rw [run_cons hstep] at hrun
      simpa using ih (h.step hstep) hrun

/-! ## Lists of operands -/

theorem Pass.Read.isOperandList {line : Nat} {last? : Option Located} {s : Pass}
    {tokens : List Token} {operands : List Operand} (h : s.Read tokens)
    (hfinish : s.finish line last? = .ok operands) : IsOperandList tokens operands := by
  obtain ⟨words, hwords, htokens⟩ := h
  unfold finish at hfinish
  split at hfinish
  · cases hfinish
  · next hcomplete =>
    cases hfinish
    refine ⟨words, ?_, hwords⟩
    cases hdue : s.due with
    | false =>
      rw [if_neg (by simp [hdue])] at htokens
      exact htokens.2
    | true =>
      -- an operand is still due only where none has been read
      have hnone : s.operands = [] := not_not.1 fun hne => hcomplete ⟨hdue, hne⟩
      rw [hnone, List.forall₂_nil_right_iff] at hwords
      rw [if_pos hdue, hwords] at htokens
      rw [htokens, hwords]
      rfl

/-- A line has operands exactly when its tokens are operands with single commas
between them, and then it has one for each such token, in order. -/
theorem operandsOf_eq_ok_iff (line : Nat) (tokens : List Located) (operands : List Operand) :
    operandsOf line tokens = .ok operands ↔
      IsOperandList (tokens.map Located.token) operands := by
  constructor
  · intro h
    rw [operandsOf_eq_run] at h
    obtain ⟨s, hread, hfinish⟩ := read_start.run h
    exact hread.isOperandList hfinish
  · rintro ⟨words, htokens, hwords⟩
    have hdenotes : List.Forall₂ Denotes words operands :=
      hwords.imp fun t operand ht line start => (operandOf_eq_ok_iff line ⟨t, start⟩ operand).2 ht
    exact operandsOf_intersperse hdenotes htokens line

-- a comma too many is refused where it stands, inside a list and at its end
example (v : Int64) :
    operandsOf 1 [⟨.integer v, 4⟩, ⟨.comma, 5⟩, ⟨.comma, 6⟩, ⟨.hex v, 8⟩] =
        .error (syntaxErrorAt 1 6 "expected a register, number or name") ∧
      operandsOf 1 [⟨.integer v, 4⟩, ⟨.comma, 5⟩] = .error (syntaxErrorAt 1 5 "trailing ','") :=
  ⟨rfl, rfl⟩

end Lanewise.Assembly
