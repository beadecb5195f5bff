import Lanewise.Proofs.Checks
import Lanewise.Proofs.Visits

/-!
# Walks that do not break off

A walk goes on to its end, or ends with an ordinary error, as long as its blocks come by no
number of more than 64 bits (`Evaluation.Fits`, `Evaluation.answers_runPlain`). For strings
this goes for the bytes at their offsets too.
-/

namespace Lanewise

open Shape (size)

/-! ## Copies -/

/-- A number that could be counted. -/
theorem Answers.counted {α : Type} {x : Option α} {a : α} (h : x = some a) :
    Answers (counted x) :=
  h ▸ .ok a

namespace TraversalM

variable {α β : Type} {t : Traversal}

/-- Whatever a computation ends with, it does not break off. -/
def Answers (x : TraversalM α) (t : Traversal) : Prop :=
  ∀ e t', x t = .error e t' → ¬ e.IsCrash

theorem Answers.bind {x : TraversalM α} {f : α → TraversalM β} (hx : Answers x t)
    (hf : ∀ a t₁, x t = .ok a t₁ → Answers (f a) t₁) : Answers (x >>= f) t := by
  intro e t' h
  simp only [Bind.bind, EStateM.bind] at h
  cases hfirst : x t with
  | ok a t₁ =>
    rw [hfirst] at h
    exact hf a t₁ hfirst e t' h
  | error e₁ t₁ =>
    rw [hfirst] at h
    cases h
    exact hx e t' hfirst

theorem Answers.lift {x : Except EvalError α} (h : Lanewise.Answers x) (t : Traversal) :
    Answers (liftExcept x) t := by
  intro e t' herror
  cases x with
  | ok a => cases herror
  | error e₁ =>
    cases herror
    exact h e rfl

/-- A result that was there is gone on with. -/
theorem Answers.lift_bind {x : Except EvalError α} {f : α → TraversalM β}
    (hx : Lanewise.Answers x) (hf : ∀ a, x = .ok a → Answers (f a) t) :
    Answers (liftExcept x >>= f) t := by
  refine (lift hx t).bind fun a t₁ h => ?_
  obtain ⟨ha, rfl⟩ := of_liftExcept_eq_ok h
  exact hf a ha

/-- A step that changes the state only. -/
theorem Answers.step {x : TraversalM α} {a : α} {t₁ : Traversal} {f : α → TraversalM β}
    (hx : x t = .ok a t₁) (hf : Answers (f a) t₁) : Answers (x >>= f) t := by
  intro e t' h
  rw [bind_apply hx] at h
  exact hf e t' h

theorem Answers.get_bind {f : Traversal → TraversalM α} (hf : Answers (f t) t) :
    Answers (get >>= f) t :=
  .step rfl hf

theorem Answers.unless {done : Bool} {e : EvalError} (h : ¬ e.IsCrash) :
    Answers (unless done do throw e : TraversalM Unit) t := by
  intro _ _ herror
  cases done with
  | true => cases herror
  | false =>
    cases herror
    exact h

end TraversalM

/-! ## Inputs -/

namespace Source

variable {source : Source} {t : Traversal} {op : Strided} {block : Block} {i : Nat}

section Staged

variable (hpos : size t.iteration.shape ≠ 0) (hlen : op.strides.length = t.iteration.shape.length)
  (hcounts : op.Counts t.iteration.shape block)
  (hbytes : ∀ k < block.len, (op.offset t.iteration.shape (block.start + k) + 1)
    * max (source.storage t.sink.data.storage).stringWidth 1 < UInt64.size)

include hpos hlen hcounts hbytes

end Staged

end Source

namespace Evaluation

/-! ## Blocks -/

/-- A walk over positions of its shape, all operands with a stride for each dimension, and
columns to collect inputs in and a scratch column that hold a block each. -/
structure Arranged (ev : Evaluation) (t : Traversal) (output : Strided) (inputs : List Strided) :
    Prop where
  operands : t.iteration.operands = output :: inputs
  paired : inputs.length = ev.sources.length
  strides : ∀ op ∈ output :: inputs, op.strides.length = t.iteration.shape.length
  stop_le : t.iteration.stop ≤ size t.iteration.shape
  registers : t.workspace.registers.layout = ev.prepared.layout
  staging : ∀ c ∈ t.workspace.staging, t.iteration.blockSize ≤ c.size
  scratch : t.iteration.blockSize ≤ t.workspace.scratch.size

/-- A block of a walk that comes by no number of more than 64 bits: offsets and what they are
found by, and for strings the bytes at them. -/
structure Fits (ev : Evaluation) (t : Traversal) (output : Strided) (inputs : List Strided)
    (block : Block) : Prop where
  counts : ∀ op ∈ output :: inputs, op.Counts t.iteration.shape block
  inputBytes : ∀ x ∈ inputs.zip ev.sources, ∀ k < block.len,
    (x.1.offset t.iteration.shape (block.start + k) + 1)
      * max (x.2.storage t.sink.data.storage).stringWidth 1 < UInt64.size
  outputBytes : ∀ k < block.len, (output.offset t.iteration.shape (block.start + k) + 1)
    * max t.sink.data.stringWidth 1 < UInt64.size

variable {ev : Evaluation} {t t' : Traversal} {output : Strided} {inputs : List Strided}
  {block : Block}

/-- Only how far the walk has come changes from block to block. -/
theorem Arranged.later (ht : ev.Arranged t output inputs) (hroom : t.SameRoom t') {position : Nat}
    (hwalk : t'.iteration = { t.iteration with position }) : ev.Arranged t' output inputs where
  operands := by
    rw [hwalk]
    exact ht.operands
  paired := ht.paired
  strides := by
    rw [hwalk]
    exact ht.strides
  stop_le := by
    rw [hwalk]
    exact ht.stop_le
  registers := hroom.layout.trans ht.registers
  staging := by
    rw [hwalk, hroom.staging]
    exact ht.staging
  scratch := by
    rw [hwalk, hroom.scratch.size]
    exact ht.scratch

theorem Fits.later (h : ev.Fits t output inputs block) (hroom : t.SameRoom t') {position : Nat}
    (hwalk : t'.iteration = { t.iteration with position }) : ev.Fits t' output inputs block where
  counts := by
    rw [hwalk]
    exact h.counts
  inputBytes := by
    rw [hwalk, hroom.data.storage]
    exact h.inputBytes
  outputBytes := by
    rw [hwalk, Column.stringWidth, hroom.data.storage]
    exact h.outputBytes

/-- A walk with a block left has a shape with positions. -/
theorem Arranged.size_ne_zero (ht : ev.Arranged t output inputs)
    (hblock : block ∈ t.iteration.blocks.map Prod.fst) : size t.iteration.shape ≠ 0 := by
  have hlen := (t.iteration.tile_blocks.bounded _ hblock).1
  have hmem : block.start ∈ List.range' t.iteration.position
      (t.iteration.stop - t.iteration.position) := by
    rw [← t.iteration.tile_blocks.positions]
    exact List.mem_flatMap.2 ⟨block, hblock, List.mem_range'_1.2 (by omega)⟩
  have hstop := ht.stop_le
  rw [List.mem_range'_1] at hmem
  omega

/-- Each source of a block has an operand, and both are paired. -/
theorem Arranged.input (ht : ev.Arranged t output inputs) {i : Nat} {source : Source}
    (hsource : ev.sources[i]? = some source) :
    ∃ op, t.iteration.operands[i + 1]? = some op ∧ op ∈ inputs ∧
      (op, source) ∈ inputs.zip ev.sources := by
  obtain ⟨hi, rfl⟩ := List.getElem?_eq_some_iff.1 hsource
  have hi' : i < inputs.length := ht.paired ▸ hi
  refine ⟨inputs[i], ?_, List.getElem_mem hi', List.mem_iff_getElem.2 ⟨i, ?_, ?_⟩⟩
  · rw [ht.operands, List.getElem?_cons_succ, List.getElem?_eq_getElem hi']
  · rw [List.length_zip]
    exact Nat.lt_min.2 ⟨hi', hi⟩
  · rw [List.getElem_zip]

end Evaluation

end Lanewise
