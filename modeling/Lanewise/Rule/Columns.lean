import Lanewise.Column
import Lanewise.Rule

/-!
# Rules on columns

A rule applied to whole columns. A lane of the target that some source does not
reach keeps its value.
-/

namespace Lanewise

/-- How a fold goes into the target. -/
inductive Accumulation where
  /-- Every lane into the first element. -/
  | single
  /-- Each lane into its own element. -/
  | lanewise
  deriving DecidableEq

/-- The lanes of several columns, each column read as the type at its position,
if there is one column for each type and each can be read so. -/
def Values.ofColumns? :
    (ts : List ElementType) → List Column → Option (Nat → Option (Values ts))
  | [], [] => some fun _ => some .nil
  | t :: ts, c :: cs => do
    let first ← c.values? t
    let rest ← ofColumns? ts cs
    return fun i => do return .cons (← first i) (← rest i)
  | _, _ => none

namespace Rule

/-- The fold of `n` lanes onto a start value, from left to right. -/
def foldLanes {α : Type} (combine : α → α → α) (start : α) (lanes : Nat → Option α) (n : Nat) :
    α :=
  (List.range n).foldl (fun acc i => ((lanes i).map (combine acc)).getD acc) start

/-- The target after the rule ran over the first `n` lanes; none when a source or
the target does not have the type the rule is for. Folds take their mode from
`mode`. -/
def onColumns? (rule : Rule) (mode : Accumulation) (n : Nat) (sources : List Column)
    (target : Column) : Option Column :=
  match rule with
  | .map arguments result f => do
    let lanes ← Values.ofColumns? arguments sources
    target.revise? n result fun i old => ((lanes i).map f).getD old
  | .fold t combine =>
    match sources with
    | [source] => do
      let lanes ← source.values? t
      match mode with
      | .single =>
        target.revise? n t fun i old =>
          if i = 0 then foldLanes combine old lanes (min n source.size) else old
      | .lanewise =>
        target.revise? n t fun i old => ((lanes i).map (combine old)).getD old
    | _ => none

theorem storage_of_onColumns? {rule : Rule} {mode : Accumulation} {n : Nat} {sources : List Column}
    {target target' : Column} (h : rule.onColumns? mode n sources target = some target') :
    target'.storage = target.storage := by
  unfold onColumns? at h
  split at h
  · simp only [Option.bind_eq_bind, Option.bind_eq_some_iff] at h
    obtain ⟨_, _, h⟩ := h
    exact Column.storage_of_revise? h
  · split at h
    · simp only [Option.bind_eq_bind, Option.bind_eq_some_iff] at h
      obtain ⟨_, _, h⟩ := h
      split at h <;> exact Column.storage_of_revise? h
    · cases h

theorem size_of_onColumns? {rule : Rule} {mode : Accumulation} {n : Nat} {sources : List Column}
    {target target' : Column} (h : rule.onColumns? mode n sources target = some target') :
    target'.size = target.size := by
  unfold onColumns? at h
  split at h
  · simp only [Option.bind_eq_bind, Option.bind_eq_some_iff] at h
    obtain ⟨_, _, h⟩ := h
    exact Column.size_of_revise? h
  · split at h
    · simp only [Option.bind_eq_bind, Option.bind_eq_some_iff] at h
      obtain ⟨_, _, h⟩ := h
      split at h <;> exact Column.size_of_revise? h
    · cases h

end Rule

end Lanewise
