import Lanewise.Proofs.Calls

/-!
# What plain kernels compute

An evaluation of a program without reductions runs it once for each element of
the output, on single values (`Engine.evaluateInto_eq_element?`): broadcasting,
blocks, buffers and threads do not show.
-/

namespace Lanewise

open Shape (size maxSize)

/-- The machine of one lane gets through a program without reductions that asks
for no register before it holds something, and ends with an element. -/
theorem Request.exists_lastLane [Allocator] {config : EngineConfig} {k : Kernel}
    {operands : List Operand} {out : NdArray} {g : Geometry} {strides : List (List Nat)}
    {w : Workspace} (h : Request config k operands out g strides w)
    (hplain : k.program.isReduction = false) {p : Nat} (hp : p < size g.shape) {output : Lane}
    (houtput : output.storage = out.data.storage)
    {temporary : Nat → Storage → Lane} (htemporary : ∀ reg s, (temporary reg s).storage = s)
    (hready : ∀ before inst after, k.instructions = before ++ inst :: after →
      ∀ reg ∈ inst.sources, k.layout.isWritable reg.toNat = true →
        reg.toNat ∈ destinations before ∨
          ∀ widths inputs, (k.lanesFrom widths inputs output temporary).Holds reg.toNat)
    (hzero : 0 ∈ destinations k.instructions ∨ output.cell?.isSome) :
    ∃ l, k.lastLane? operands out g.shape output temporary p = some l ∧ l.cell?.isSome := by
  obtain ⟨hinputs, hcells, houtputType⟩ := h.typed hp
  have hdefined : ∀ before inst after, k.instructions = before ++ inst :: after →
      ∀ reg ∈ inst.sources, k.layout.isWritable reg.toNat = true →
        reg.toNat ∈ destinations before ∨
          (k.lanesFrom (k.stringWidths (operands.map fun o => (o.resolve out).stringWidth))
            (operandLanes operands out g.shape p) output temporary).Holds reg.toNat :=
    fun before inst after heq reg hreg hw =>
      (hready before inst after heq reg hreg hw).imp_right fun hheld => hheld _ _
  obtain ⟨done, hdone, htyped, hholds⟩ := Kernel.exists_run_lanesFrom h.valid
    (fun _ hinst => hinst) (fun _ hinst => h.valid.isReduction_eq_false hplain hinst) hinputs hcells
    (fun t ht => houtput ▸ houtputType t ht) htemporary hdefined
  obtain ⟨-, t, ht, -⟩ := of_checkOperands h.accepted.checked
  rw [Kernel.outputType?, List.head?_eq_getElem?] at ht
  obtain ⟨l, hl, -⟩ := htyped 0 t ht
  refine ⟨l, by rw [Kernel.lastLane?, hdone]; exact hl, hholds 0 (hzero.imp_right ?_) l hl⟩
  intro hcell first hstart
  rw [Kernel.lanesFrom_zero] at hstart
  cases hstart
  exact hcell

namespace Engine

section Calls

variable [Allocator] [Scheduler] {engine : Engine} {k : Kernel} {operands : List Operand}
  {out : NdArray} {g : Geometry}

/-- A call with a program without reductions goes well, and leaves what its walks
deliver. -/
theorem evaluateInto_delivers (h : engine.Admits k operands out) (hround : engine.config.RoundFits)
    (hvalid : k.validate = .ok ()) (hplain : k.isReduction = false)
    (haccepted : Accepted k operands out g) {Result : Nat → Lane → Prop}
    (hdelivers : ∀ strides w, Request engine.config k operands out g strides w →
      Request.Delivers engine.config k operands out g strides w Result) :
    (engine.evaluateInto k operands out).result = .ok () ∧
      (engine.evaluateInto k operands out).output.shape = out.shape ∧
      out.data.Alike (engine.evaluateInto k operands out).output.data ∧
      ∀ i < out.data.size, Result i ((engine.evaluateInto k operands out).output.data.lane i) := by
  obtain ⟨hresult, houtput⟩ := engine.evaluateInto_valid operands out (.inr hvalid)
  have hshape := (haccepted.elementwise hplain).2
  -- the output has the common shape, so its elements were counted when it was made
  have hsize : g.shape.size? = some out.data.size :=
    hshape ▸ Shape.checkedSize_eq_ok_iff.1 h.output
  obtain ⟨plan, hplan⟩ := PlanPolicy.exists_byThresholds
    ⟨g.shape, operands.length, g.reduction?⟩ engine.config hsize
  obtain ⟨hfits, hsuits⟩ := g.suits_byThresholds hplan
    (haccepted.divides h.output h.room.size_out_lt h.config hround)
  obtain ⟨strides, w, hrequest, hyields⟩ := evaluateValid_eq (Kernel.valid_of_validate hvalid)
    haccepted hplan hfits (EngineConfig.blockSize_pos h.config) h.output h.arrays
    (Shape.of_size? hsize).2 h.room (accumulator_of_plain hplain out.data) (.refl _)
  obtain ⟨final, heq, halike, hfinal⟩ := hyields _
    (hrequest.runPlan_elementwise hplain (hdelivers strides w hrequest) hfits hsuits)
  rw [hresult, houtput, h.policy, heq]
  refine ⟨rfl, rfl, halike, fun i hi => hfinal i ?_⟩
  rwa [← hshape, ← h.output.size_eq.1]

/-- A call with a program without reductions, which reads the output and its
temporaries only after it wrote them, leaves in each element of the output what
the program computes there from single values: from the elements that the
operands had for its position before the call, and from the constants. -/
theorem evaluateInto_eq_element? (h : engine.Admits k operands out)
    (hround : engine.config.RoundFits) (hvalid : k.validate = .ok ())
    (hplain : k.isReduction = false) (hwrites : 0 ∈ destinations k.instructions)
    (hready : k.WritesBeforeReads) (haccepted : Accepted k operands out g) :
    (engine.evaluateInto k operands out).result = .ok () ∧
      (engine.evaluateInto k operands out).output.shape = out.shape ∧
      out.data.Alike (engine.evaluateInto k operands out).output.data ∧
      ∀ i < out.data.size,
        k.element? (k.stringWidths (operands.map fun o => (o.resolve out).stringWidth))
            (operandLanes operands out out.shape i) (.unset out.data.storage)
          = some ((engine.evaluateInto k operands out).output.data.lane i) := by
  obtain ⟨hresult, hshape, halike, hlanes⟩ := evaluateInto_delivers h hround hvalid hplain haccepted
    fun strides w hrequest => hrequest.delivers_lastLane? hplain (fun _ _ => .inl rfl)
      (fun _ _ => .inl rfl) fun p hp => hrequest.exists_lastLane hplain hp rfl (fun _ _ => rfl)
        (fun before inst after heq reg hreg hw => .inl (hready before inst after heq reg hreg hw))
        (.inl hwrites)
  refine ⟨hresult, hshape, halike, fun i hi => ?_⟩
  rw [(haccepted.elementwise hplain).2]
  exact hlanes i hi

end Calls

attribute [local instance] Allocator.roomy Scheduler.inOrder

/-- A single number is added to every element of the output. -/
theorem evaluateInto_eq_element?_addLongs :
    ((usual .serial).evaluateInto .addLongs [.array (.longs [1] [1]), .output]
        (.longs [3] [10, 20, 30])).result = .ok () ∧
      (((usual .serial).evaluateInto .addLongs [.array (.longs [1] [1]), .output]
        (.longs [3] [10, 20, 30])).output.data.lane 2).read? .long
          = (Constant.long 31).value? .long := by
  have hadmits : (usual .serial).Admits .addLongs [.array (.longs [1] [1]), .output]
      (.longs [3] [10, 20, 30]) := by decide +kernel
  have haccepted : Accepted .addLongs [.array (.longs [1] [1]), .output] (.longs [3] [10, 20, 30])
      ⟨[3], none, [3]⟩ := by decide +kernel
  obtain ⟨hresult, -, -, hlanes⟩ := evaluateInto_eq_element? hadmits (by decide)
    (by decide +kernel) (by decide +kernel) (by decide +kernel) (by decide +kernel) haccepted
  refine ⟨hresult, ?_⟩
  rw [← Option.bind_some (f := (Lane.read? · .long)), ← hlanes 2 (by decide)]
  decide +kernel

end Engine

end Lanewise
