import Lanewise.Proofs.Calls
import Lanewise.Proofs.WellFormed

/-!
# Soundness of validation

No program that passed validation meets a fault, and no walk leaves its arrays: a
call succeeds, or it is refused with the output as it was. It breaks off only where 64 bits
cannot count the registers of the kernel or the positions of the common shape.
-/

namespace Lanewise

open Shape (size maxSize)

namespace Engine

section Calls

variable [Allocator] [Scheduler]

/-- A call to an engine with the usual policy either succeeds and keeps the kind of the
output, or is refused, and leaves the output alone. It breaks off only where the
registers of the kernel, or the positions of the common shape from left to right, cannot
be counted in 64 bits, and leaves the output alone then too. The digest of a kernel that
was never validated must not be known. -/
theorem evaluateInto_ok_or_refused {engine : Engine} {k : Kernel} {operands : List Operand}
    {out : NdArray} (h : engine.Admits k operands out) (hround : engine.config.RoundFits)
    (hknown : k.digest ∈ engine.validated → k.validate = .ok ()) :
    let outcome := engine.evaluateInto k operands out
    (outcome.result = .ok () ∧ outcome.output.shape = out.shape ∧
      outcome.output.elementType = out.elementType ∧
      outcome.output.stringWidth = out.stringWidth) ∨
    (∃ e, outcome.result = .error e ∧ e.IsRefusal ∧ outcome.output = out) ∨
    (outcome.result = .error (.crash .overflow) ∧ outcome.output = out ∧
      (k.layout.count? = none ∨
        ∃ shape, Shape.broadcast (operands.map fun o => (o.resolve out).shape) = .ok shape ∧
          shape.size? = none)) := by
  intro outcome
  by_cases hvalid : k.validate = .ok ()
  swap
  · have hseen : engine.validated.contains k.digest = false := by
      rw [← Bool.not_eq_true, List.contains_iff_mem]
      exact fun hmem => hvalid (hknown hmem)
    obtain ⟨e, hresult, hrefusal | ⟨rfl, hcount⟩, houtput⟩ :=
      evaluateInto_invalid operands out hseen hvalid
    · exact .inr (.inl ⟨e, hresult, hrefusal, houtput⟩)
    · exact .inr (.inr ⟨hresult, houtput, .inl (Kernel.count?_of_validate hcount)⟩)
  obtain ⟨hresult, houtput⟩ := engine.evaluateInto_valid operands out (.inr hvalid)
  simp only [outcome, hresult, houtput, h.policy]
  cases hplan : planFor engine.config .byThresholds k operands out with
  | error e =>
    have hfailed : evaluateValid engine.config .byThresholds k operands out = (.error e, out) := by
      simp only [evaluateValid, hplan]
    rw [hfailed]
    rcases isRefusal_of_planFor hplan with hrefusal | ⟨rfl, g, haccepted, hnone⟩
    · exact .inr (.inl ⟨e, rfl, hrefusal, rfl⟩)
    · refine .inr (.inr ⟨rfl, rfl, .inr ⟨g.shape, haccepted.geometry.1, ?_⟩⟩)
      by_contra hsome
      obtain ⟨n, hn⟩ := Option.ne_none_iff_exists'.1 hsome
      obtain ⟨plan, hplan⟩ := PlanPolicy.exists_byThresholds
        ⟨g.shape, operands.length, g.reduction?⟩ engine.config hn
      cases hnone.symm.trans hplan
  | ok planned =>
    obtain ⟨g, plan⟩ := planned
    obtain ⟨haccepted, -, hpolicy⟩ := planFor_eq_ok_iff.1 hplan
    rcases accumulator_cases k h.room.accumulator with ⟨e, he, hrefusal⟩ | ⟨data, hdata, halike, -⟩
    · exact .inr (.inl ⟨e, by simp only [evaluateValid, hplan, he], hrefusal,
        by simp only [evaluateValid, hplan, he]⟩)
    obtain ⟨hfits, hsuits⟩ := g.suits_byThresholds hpolicy
      (haccepted.divides h.output h.room.size_out_lt h.config hround)
    obtain ⟨strides, w, hrequest, hyields⟩ := evaluateValid_eq (Kernel.valid_of_validate hvalid)
      haccepted hpolicy hfits (EngineConfig.blockSize_pos h.config) h.output h.arrays
      (Shape.of_size? (PlanPolicy.size?_of_byThresholds hpolicy)).2 h.room hdata halike
    obtain ⟨final, heq, hfinal, -⟩ := hyields _
      (hrequest.yields_any (h.room.alike halike).size_lt hfits hsuits)
    rw [heq]
    exact .inl ⟨rfl, rfl, congrArg Storage.elementType hfinal.storage,
      congrArg Storage.stringWidth hfinal.storage⟩

end Calls

attribute [local instance] Allocator.roomy Scheduler.inOrder

/-- A number is added to both elements of an operand, and the sums do not go into an output of
three. -/
theorem evaluateInto_ok_or_refused_addLongs :
    (((usual .serial).evaluateInto .addLongs
        [.array (.longs [2] [1, 2]), .array (.longs [1] [3])] (.longs [2] [0, 0])).result = .ok () ∧
      ((usual .serial).evaluateInto .addLongs
        [.array (.longs [2] [1, 2]), .array (.longs [1] [3])]
        (.longs [2] [0, 0])).output.shape = [2]) ∧
    ∃ e, ((usual .serial).evaluateInto .addLongs
        [.array (.longs [2] [1, 2]), .array (.longs [1] [3])]
        (.longs [3] [4, 5, 6])).result = .error e ∧ e.IsRefusal ∧
      ((usual .serial).evaluateInto .addLongs
        [.array (.longs [2] [1, 2]), .array (.longs [1] [3])]
        (.longs [3] [4, 5, 6])).output = .longs [3] [4, 5, 6] := by
  have hfits : (usual .serial).Admits .addLongs
      [.array (.longs [2] [1, 2]), .array (.longs [1] [3])] (.longs [2] [0, 0]) := by
    decide +kernel
  have hshort : (usual .serial).Admits .addLongs
      [.array (.longs [2] [1, 2]), .array (.longs [1] [3])] (.longs [3] [4, 5, 6]) := by
    decide +kernel
  have hround : EngineConfig.serial.RoundFits := by decide
  constructor
  · rcases evaluateInto_ok_or_refused hfits hround fun hmem => nomatch hmem with
      ⟨hok, hshape, -⟩ | ⟨e, he, -⟩ | ⟨he, -⟩
    · exact ⟨hok, hshape⟩
    · have hok : ((usual .serial).evaluateInto .addLongs
          [.array (.longs [2] [1, 2]), .array (.longs [1] [3])]
          (.longs [2] [0, 0])).result = .ok () := by decide +kernel
      cases hok.symm.trans he
    · exact absurd he (by decide +kernel)
  · rcases evaluateInto_ok_or_refused hshort hround fun hmem => nomatch hmem with
      ⟨hok, -⟩ | hrefused | ⟨he, -⟩
    · exact absurd hok (by decide +kernel)
    · exact hrefused
    · exact absurd he (by decide +kernel)

/-- A row and a column of `2 ^ 40` times nothing have a common shape without positions. These
are counted from left to right before anything else is looked at. -/
theorem not_evaluateInto_ok_or_refused : ¬ ∀ (engine : Engine) (k : Kernel)
    (operands : List Operand) (out : NdArray), engine.Admits k operands out →
    engine.config.RoundFits → (k.digest ∈ engine.validated → k.validate = .ok ()) →
    (∀ shape, Shape.broadcast (operands.map fun o => (o.resolve out).shape) = .ok shape →
      size shape < UInt64.size) →
    ((engine.evaluateInto k operands out).result = .ok () ∧
      (engine.evaluateInto k operands out).output.shape = out.shape ∧
      (engine.evaluateInto k operands out).output.elementType = out.elementType ∧
      (engine.evaluateInto k operands out).output.stringWidth = out.stringWidth) ∨
    ∃ e, (engine.evaluateInto k operands out).result = .error e ∧ e.IsRefusal ∧
      (engine.evaluateInto k operands out).output = out := by
  intro h
  have hcrash : ((usual .serial).evaluateInto .sumOfSums
      [.array (.longs [1099511627776, 1, 0] []), .array (.longs [1, 1099511627776, 0] [])]
      (.longs [] [0])).result = .error (.crash .overflow) := by decide +kernel
  have hcommon : Shape.broadcast [[1099511627776, 1, 0], [1, 1099511627776, 0]]
      = .ok [1099511627776, 1099511627776, 0] := by decide +kernel
  have hcount : ∀ shape, Shape.broadcast [[1099511627776, 1, 0], [1, 1099511627776, 0]]
      = .ok shape → size shape < UInt64.size := by
    intro shape hshape
    obtain rfl := Except.ok.inj (hcommon.symm.trans hshape)
    decide +kernel
  rcases h (usual .serial) .sumOfSums
    [.array (.longs [1099511627776, 1, 0] []), .array (.longs [1, 1099511627776, 0] [])]
    (.longs [] [0]) (by decide +kernel) (by decide) (fun hmem => nomatch hmem) hcount with
    ⟨hok, -⟩ | ⟨e, he, hrefusal, -⟩
  · cases hok.symm.trans hcrash
  · cases he.symm.trans hcrash
    exact hrefusal

end Engine

end Lanewise
