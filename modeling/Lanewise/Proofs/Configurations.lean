import Lanewise.Proofs.Meaning

/-!
# Configurations

How an evaluation is carried out does not show in its result, as long as the
program does not ask for what an earlier block left behind: temporaries are
scratch space that is laid out once and never cleared
(`Engine.evaluate_independent`). A program that reads a temporary before it
writes it does see the blocks (`Engine.not_evaluate_independent`).
-/

namespace Lanewise

open Shape (size maxSize)

/-- Temporaries that the program writes are read only after an earlier
instruction wrote them. -/
def Kernel.WritesTemporariesFirst (k : Kernel) : Prop :=
  ∀ before inst after, k.instructions = before ++ inst :: after → ∀ reg ∈ inst.sources,
    k.layout.role? reg.toNat = some .temporary → reg.toNat ∈ destinations k.instructions →
      reg.toNat ∈ destinations before

instance (k : Kernel) : Decidable k.WritesTemporariesFirst :=
  decidable_of_iff _ (forall_sources_iff (P := fun before reg =>
    k.layout.role? reg.toNat = some .temporary → reg.toNat ∈ destinations k.instructions →
      reg.toNat ∈ destinations before))

/-- Temporaries as any block finds them: those that no instruction writes to
still hold zeros. -/
def Kernel.leftover (k : Kernel) (reg : Nat) (s : Storage) : Lane :=
  if reg ∈ destinations k.instructions then .unset s else .fresh s

namespace Kernel

variable {k : Kernel}

theorem keepsTemporaries_leftover (k : Kernel) : k.KeepsTemporaries k.leftover := by
  intro reg s
  by_cases hreg : reg ∈ destinations k.instructions
  · exact .inl (if_pos hreg)
  · exact .inr ⟨hreg, if_neg hreg⟩

theorem storage_leftover (reg : Nat) (s : Storage) : (k.leftover reg s).storage = s := by
  unfold leftover
  split <;> rfl

/-- A program that writes its temporaries first asks for no temporary before it
holds something. -/
theorem WritesTemporariesFirst.ready_temporary (h : k.WritesTemporariesFirst)
    {before after : List Instruction} {inst : Instruction}
    (heq : k.instructions = before ++ inst :: after) {reg : UInt8} (hreg : reg ∈ inst.sources)
    (hw : k.layout.isWritable reg.toNat = true) (hzero : reg.toNat ≠ 0) (output : Lane) :
    reg.toNat ∈ destinations before ∨
      ∀ widths inputs, (k.lanesFrom widths inputs output k.leftover).Holds reg.toNat := by
  have hrole := RegisterLayout.role?_of_isWritable hw hzero
  by_cases hwritten : reg.toNat ∈ destinations k.instructions
  · exact .inl (h before inst after heq reg hreg hrole hwritten)
  · refine .inr fun widths inputs l hl => ?_
    simp only [lanesFrom, hrole] at hl
    cases ht : k.fullSignature[reg.toNat]? with
    | none => simp [ht] at hl
    | some t =>
      simp only [ht, Option.some.injEq] at hl
      rw [← hl, leftover, if_neg hwritten]
      rfl

/-- Nor does it ask for the output, if that holds something from the start. -/
theorem WritesTemporariesFirst.ready (h : k.WritesTemporariesFirst) {output : Lane}
    (houtput : output.cell?.isSome) {before after : List Instruction} {inst : Instruction}
    (heq : k.instructions = before ++ inst :: after) {reg : UInt8} (hreg : reg ∈ inst.sources)
    (hw : k.layout.isWritable reg.toNat = true) : reg.toNat ∈ destinations before ∨
      ∀ widths inputs, (k.lanesFrom widths inputs output k.leftover).Holds reg.toNat := by
  by_cases hzero : reg.toNat = 0
  · refine .inr fun widths inputs l hl => ?_
    rw [hzero, lanesFrom_zero] at hl
    cases hl
    exact houtput
  · exact h.ready_temporary heq hreg hw hzero output

end Kernel

/-- `add_lll r2, r2, r1; copy_ll r0, r2`, which never clears its temporary. -/
def Kernel.runningSum : Kernel :=
  ⟨⟨[42, 2, 2, 1, 39, 0, 2, 0]⟩, [.long, .long, .long], [.long], [], 1⟩

namespace Engine

section Calls

variable [Allocator] {k : Kernel} {inputs : List NdArray}

/-- What a call that passes the checks gives for a new output. -/
theorem evaluateInto_leftover [Scheduler] {engine : Engine} {out : NdArray}
    (h : engine.Admits k (inputs.map .array) out) (hround : engine.config.RoundFits)
    (hvalid : k.validate = .ok ()) (hplain : k.isReduction = false)
    (hwrites : k.WritesTemporariesFirst) {g : Geometry}
    (haccepted : Accepted k (inputs.map .array) out g)
    (hfresh : ∀ i < out.data.size, out.data.lane i = .fresh out.data.storage) :
    (engine.evaluateInto k (inputs.map .array) out).result = .ok () ∧
      (engine.evaluateInto k (inputs.map .array) out).output.shape = out.shape ∧
      out.data.Alike (engine.evaluateInto k (inputs.map .array) out).output.data ∧
      ∀ i < out.data.size,
        k.lastLane? (inputs.map .array) out g.shape (.fresh out.data.storage) k.leftover i
          = some ((engine.evaluateInto k (inputs.map .array) out).output.data.lane i) := by
  refine evaluateInto_delivers h hround hvalid hplain haccepted fun strides w hrequest =>
    hrequest.delivers_lastLane? hplain k.keepsTemporaries_leftover (fun p hp => .inr ⟨?_, ?_, ?_⟩)
      fun p hp => hrequest.exists_lastLane hplain hp rfl Kernel.storage_leftover
        (fun before inst after heq reg hreg hw => hwrites.ready rfl heq hreg hw) (.inr rfl)
  · simp [Operand.isOutput]
  · rw [hfresh p (by rwa [hrequest.size_eq hplain])]
    exact .refl _
  · exact .refl _

/-- Two engines with the usual policy give the same result for a program without
reductions, whatever their configurations and however their threads take turns, if it
writes its temporaries first and rounds of tasks can be counted. -/
theorem evaluate_independent (schedule₁ schedule₂ : Scheduler) {engine₁ engine₂ : Engine}
    (hvalid : k.validate = .ok ()) (hplain : k.isReduction = false)
    (hwrites : k.WritesTemporariesFirst)
    (h₁ : ∀ out, freshOutput k inputs = .ok out → engine₁.Admits k (inputs.map .array) out)
    (h₂ : ∀ out, freshOutput k inputs = .ok out → engine₂.Admits k (inputs.map .array) out)
    (hround₁ : engine₁.config.RoundFits) (hround₂ : engine₂.config.RoundFits) :
    (@evaluate _ schedule₁ engine₁ k inputs).1 = (@evaluate _ schedule₂ engine₂ k inputs).1 := by
  unfold evaluate
  cases hout : freshOutput k inputs with
  | error e => rfl
  | ok out =>
    have hadmits₁ := h₁ out hout
    have hadmits₂ := h₂ out hout
    obtain ⟨-, hfresh⟩ := freshOutput_spec hout
    simp only
    cases hchecks : geometryFor k (inputs.map .array) out with
    | error e =>
      rw [(@evaluateInto_of_geometryFor_error _ _ schedule₁ engine₁ _ _ _ hvalid hchecks).1,
        (@evaluateInto_of_geometryFor_error _ _ schedule₂ engine₂ _ _ _ hvalid hchecks).1]
      rfl
    | ok g =>
      have haccepted := geometryFor_eq_ok_iff.1 hchecks
      obtain ⟨hresult₁, hshape₁, halike₁, hlane₁⟩ := @evaluateInto_leftover _ _ _ schedule₁ _ _
        hadmits₁ hround₁ hvalid hplain hwrites _ haccepted hfresh
      obtain ⟨hresult₂, hshape₂, halike₂, hlane₂⟩ := @evaluateInto_leftover _ _ _ schedule₂ _ _
        hadmits₂ hround₂ hvalid hplain hwrites _ haccepted hfresh
      rw [hresult₁, hresult₂]
      refine congrArg Except.ok ?_
      generalize (@evaluateInto _ schedule₁ engine₁ k (inputs.map .array) out).output = a₁
        at hshape₁ halike₁ hlane₁ ⊢
      generalize (@evaluateInto _ schedule₂ engine₂ k (inputs.map .array) out).output = a₂
        at hshape₂ halike₂ hlane₂ ⊢
      have hdata : a₁.data = a₂.data :=
        Column.ext_lane (halike₁.storage.trans halike₂.storage.symm)
          (halike₁.size.trans halike₂.size.symm) fun i hi => by
            rw [halike₁.size] at hi
            exact Option.some.inj ((hlane₁ i hi).symm.trans (hlane₂ i hi))
      obtain ⟨data₁, shape₁⟩ := a₁
      obtain ⟨data₂, shape₂⟩ := a₂
      cases hdata
      cases hshape₁
      cases hshape₂
      rfl

end Calls

attribute [local instance] Allocator.roomy Scheduler.inOrder

/-- Blocks of one and of 128 elements give the same sums. -/
theorem evaluate_independent_addLongs :
    ((usual .serial).evaluate .addLongs [.longs [3] [1, 2, 3], .longs [1] [4]]).1
      = ((usual (.withBlockSize .serial 1)).evaluate .addLongs
          [.longs [3] [1, 2, 3], .longs [1] [4]]).1 := by
  have hfresh : freshOutput .addLongs [.longs [3] [1, 2, 3], .longs [1] [4]]
      = .ok (.longs [3] [0, 0, 0]) := by decide +kernel
  refine evaluate_independent .inOrder .inOrder (by decide +kernel) (by decide +kernel)
    (by decide +kernel) (fun out hout => ?_) (fun out hout => ?_) (by decide) (by decide)
  all_goals
    obtain rfl := Except.ok.inj (hfresh.symm.trans hout)
    decide +kernel

/-- A temporary that is read first holds what the block before left there. -/
theorem not_evaluate_independent : ¬ ∀ (k : Kernel) (inputs : List NdArray)
    (engine₁ engine₂ : Engine), k.validate = .ok () → k.isReduction = false →
      (∀ out, freshOutput k inputs = .ok out → engine₁.Admits k (inputs.map .array) out) →
      (∀ out, freshOutput k inputs = .ok out → engine₂.Admits k (inputs.map .array) out) →
      engine₁.config.RoundFits → engine₂.config.RoundFits →
      (engine₁.evaluate k inputs).1 = (engine₂.evaluate k inputs).1 := by
  intro h
  have hfresh : freshOutput .runningSum [.longs [4] [1, 2, 3, 4]]
      = .ok (.longs [4] [0, 0, 0, 0]) := by decide +kernel
  have hsame := h .runningSum [.longs [4] [1, 2, 3, 4]] (usual .serial)
    (usual (.withBlockSize .serial 1)) (by decide +kernel) (by decide +kernel)
    (fun out hout => by
      obtain rfl := Except.ok.inj (hfresh.symm.trans hout)
      decide +kernel)
    (fun out hout => by
      obtain rfl := Except.ok.inj (hfresh.symm.trans hout)
      decide +kernel)
    (by decide) (by decide)
  have hwhole : ((usual .serial).evaluate .runningSum [.longs [4] [1, 2, 3, 4]]).1
      = .ok (.longs [4] [1, 2, 3, 4]) := by decide +kernel
  have hsingle : ((usual (.withBlockSize .serial 1)).evaluate .runningSum
      [.longs [4] [1, 2, 3, 4]]).1 = .ok (.longs [4] [1, 3, 6, 10]) := by decide +kernel
  rw [hwhole, hsingle] at hsame
  exact absurd hsame (by decide +kernel)

end Engine

end Lanewise
