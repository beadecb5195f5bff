import Lanewise.Proofs.Plans

/-!
# Policies

The check on plans lets through what can carry out a program. All such plans leave
the same output, provided that the plan does go over the iteration space and that
the program takes nothing over from one block to the next
(`Engine.evaluateInto_eq_byThresholds`). What a temporary still holds from the
block before shows the order of the blocks, and with it the plan
(`Engine.not_evaluateInto_eq_byThresholds`).
-/

namespace Lanewise

open Shape (size maxSize)

/-- No block of the program finds anything that another one left. A program without
reductions writes its temporaries before it reads them, and the output if that is an
operand. One that ends in a fold leaves its result so far in the output, so what it folds
has to be kept there. Sums and products can be narrowed at any time. -/
inductive Kernel.CarriesNothing (k : Kernel) (operands : List Operand) (out : NdArray)
    (g : Geometry) : Prop where
  | plain (hplain : k.isReduction = false) (hwrites : k.WritesTemporariesFirst)
    (hfirst : operands.any Operand.isOutput = true → k.WritesOutputFirst)
  | fold {before : List Instruction} {last : Instruction} {r : Reducer} {t : ElementType}
    (hfold : k.EndsInFold before last r t)
    (hkeeps : r = .sum ∨ r = .prod ∨ ∀ p < size g.shape, ∀ v,
      k.valueAt? before last t operands out g.shape p = some v → out.data.storage.Keeps v)

section Calls

variable [Allocator] {config : EngineConfig} {k : Kernel} {operands : List Operand} {out : NdArray}
  {g : Geometry} {strides : List (List Nat)} {w : Workspace} {data : Column}

/-- All plans end in the same data. -/
theorem Request.exists_outcome (h : Request config k operands { out with data } g strides w)
    (haccepted : Accepted k operands out g) (hdata : accumulator k out.data = .ok data)
    (hprogram : k.CarriesNothing operands out g)
    (hdivides : g.reduction? = none → config.Divides (size g.shape))
    (hmemory : ∀ o ∈ operands, (o.resolve { out with data }).data.size < memorySize) :
    ∃ final, ∀ [Scheduler] plan, g.fits plan = true →
      g.GoesOver operands.length data.size plan →
        EndsIn config k operands { out with data } g strides w plan final := by
  by_cases hempty : size g.shape = 0
  · exact ⟨data, fun plan hfits => endsIn_of_empty hempty h hfits hdivides⟩
  cases hprogram with
  | plain hplain hwrites hfirst =>
    have hdivides := hdivides (h.accepted.elementwise hplain).1
    by_cases hone : size g.shape = 1
    · exact h.exists_endsIn_single hplain hone hdivides
    · exact h.exists_endsIn_plain hplain hwrites hfirst (by omega) hdivides
  | fold hfold hkeeps =>
    have hred := hfold.isReduction h.valid
    obtain ⟨combine, hcombine⟩ := Option.isSome_iff_exists.1 (hfold.isSome_on? h.valid)
    obtain ⟨seed, hseed⟩ :=
      Reducer.exists_seed_of_accepts hcombine (haccepted.accepts h.valid hfold)
    obtain ⟨halike, hread⟩ := read?_accumulator hfold h.valid hseed hdata
    refine h.exists_endsIn_fold hfold hcombine ?_ hread
      (hkeeps.imp_right (·.imp_right fun hkept p hp v hv => ?_)) hmemory hempty
    · rw [← hseed]
      exact congrArg (fun s : Storage => (Reducer.identity? _ s.elementType).bind _) halike.storage
    · rw [Kernel.valueAt?_alike (haccepted.target hred).1 halike] at hv
      rw [halike.storage]
      exact hkept p hp v hv

/-- Buffers and strides do not depend on the plan. -/
theorem evaluatePlan_cases (hk : k.Valid) (haccepted : Accepted k operands out g)
    (hblock : 0 < config.blockSize) (hout : out.WellFormed)
    (harrays : ∀ o ∈ operands, (o.resolve out).WellFormed) (hcount : size g.shape ≤ maxSize) :
    (∃ e, ¬ e.IsCrash ∧
      ∀ [Scheduler] plan, evaluatePlan config k operands out g plan = (.error e, out.data)) ∨
      ∃ strides w, Request config k operands out g strides w ∧
        ∀ [Scheduler] plan, evaluatePlan config k operands out g plan =
          Evaluation.runPlan (k.preparedFor config operands out) (operands.map Operand.source) w g
            strides config plan out.data := by
  simp only [evaluatePlan, k.prepare_resolve, map_storage_resolve]
  cases hw : Workspace.ofKernel k (k.preparedFor config operands out)
      (operandStorages operands out) out.data.storage with
  | error e => exact .inl ⟨e, Answers.workspace hk _ _ _ e hw, fun _ => rfl⟩
  | ok w =>
    cases hstrides : (operands.map (Operand.resolve out)).mapM
        fun a => operandStrides a.shape g.shape with
    | error e =>
      have hanswers := Answers.mapM
        fun (a : NdArray) (_ : a ∈ operands.map (Operand.resolve out)) =>
          Answers.operandStrides a.shape g.shape
      exact .inl ⟨e, hanswers e hstrides, fun _ => rfl⟩
    | ok strides =>
      exact .inr ⟨strides, w,
        .of_ofKernel hk haccepted hblock hout harrays hcount hstrides hw, fun _ => rfl⟩

/-- One policy and the usual one, under one configuration. -/
theorem evaluateValid_eq_byThresholds (schedule₁ schedule₂ : Scheduler) {policy : PlanPolicy}
    {plan : ExecutionPlan} (hk : k.Valid) (hconfig : config.validate = .ok ())
    (hround : config.RoundFits) (hout : out.WellFormed)
    (harrays : ∀ o ∈ operands, (o.resolve out).WellFormed)
    (hmemory : ∀ a ∈ out :: operands.map (Operand.resolve out), a.data.size < memorySize)
    (hplan : planFor config policy k operands out = .ok (g, plan))
    (hcount : g.shape.size?.isSome) (hover : g.GoesOver operands.length out.data.size plan)
    (hprogram : k.CarriesNothing operands out g) :
    (∃ e, (@evaluateValid _ schedule₁ config policy k operands out).1 = .error e ∧ ¬ e.IsCrash) ∨
      (∃ final, @evaluateValid _ schedule₁ config policy k operands out
          = (.ok (), { out with data := final }) ∧
        @evaluateValid _ schedule₂ config .byThresholds k operands out
          = (.ok (), { out with data := final })) ∨
      ((@evaluateValid _ schedule₁ config policy k operands out).1 = .error (.crash .overflow) ∧
        size g.shape = 0 ∧ ∃ axis, plan = .reduceOuter axis) := by
  obtain ⟨haccepted, hfits, -⟩ := planFor_eq_ok_iff.1 hplan
  obtain ⟨n, hn⟩ := Option.isSome_iff_exists.1 hcount
  obtain ⟨rfl, hcountable⟩ := Shape.of_size? hn
  have hdivides : g.reduction? = none → config.Divides (size g.shape) :=
    haccepted.divides hout (hmemory out (.head _)) hconfig hround
  obtain ⟨usual, husual⟩ := PlanPolicy.exists_byThresholds
    ⟨g.shape, operands.length, g.reduction?⟩ config hn
  obtain ⟨husualFits, hsuits⟩ := g.suits_byThresholds husual hdivides
  have hdefault := planFor_eq_ok_iff.2 ⟨haccepted, husualFits, husual⟩
  cases hdata : accumulator k out.data with
  | error e =>
    exact .inl ⟨e, by simp only [evaluateValid, hplan, hdata], Answers.accumulator _ _ e hdata⟩
  | ok data =>
    have halike := alike_of_accumulator hdata
    have hsmall : ∀ o ∈ operands, (o.resolve { out with data }).data.size < memorySize := by
      intro o ho
      rw [(o.resolve_alike halike).2.size]
      exact hmemory _ (.tail _ (List.mem_map_of_mem ho))
    rcases evaluatePlan_cases hk (haccepted.alike halike) (EngineConfig.blockSize_pos hconfig)
      (hout.alike rfl halike) (fun o ho => (harrays o ho).alike (o.resolve_alike halike).1
        (o.resolve_alike halike).2) hcountable with ⟨e, hcrash, he⟩ | ⟨strides, w, hrequest, hrun⟩
    · exact .inl ⟨e, by simp only [evaluateValid, hplan, hdata, he], hcrash⟩
    obtain ⟨final, hends⟩ := hrequest.exists_outcome haccepted hdata hprogram hdivides hsmall
    -- the usual plan goes well, so it ends in that data
    obtain ⟨last, hok, -⟩ :=
      @Request.yields_any _ _ _ _ _ _ _ _ schedule₂ hrequest _ hsmall husualFits hsuits
    have hlast : last = final :=
      (@hends schedule₂ usual husualFits hsuits.goesOver).eq_of_ok hok
    have hdefaultRun : @evaluateValid _ schedule₂ config .byThresholds k operands out
        = (.ok (), { out with data := final }) := by
      simp only [evaluateValid, hdefault, hdata, hrun, hok, hlast]
    rcases @hends schedule₁ plan hfits (halike.size ▸ hover) with ⟨e, he, hcrash⟩ | hend | hcrash
    · exact .inl ⟨e, by simp only [evaluateValid, hplan, hdata, hrun, he], hcrash⟩
    · exact .inr (.inl ⟨final, by simp only [evaluateValid, hplan, hdata, hrun, hend],
        hdefaultRun⟩)
    · exact .inr (.inr ⟨by simp only [evaluateValid, hplan, hdata, hrun, hcrash.1], hcrash.2⟩)

end Calls

namespace Engine

/-- A call under any policy, whose plan passed the check, fails or leaves what the call
under the usual policy does, if the plan goes over everything and no block of the program
finds what another one left. Rounds of tasks and the positions of the common shape, from
left to right, must be countable. A loop over groups of which there are none may break off,
where a position of its axis has no place that can be counted. -/
theorem evaluateInto_eq_byThresholds [Allocator] (schedule₁ schedule₂ : Scheduler)
    (engine : Engine) {k : Kernel} {operands : List Operand} {out : NdArray} {g : Geometry}
    {plan : ExecutionPlan} (hconfig : engine.config.validate = .ok ())
    (hround : engine.config.RoundFits) (hvalid : k.validate = .ok ()) (hout : out.WellFormed)
    (harrays : ∀ o ∈ operands, (o.resolve out).WellFormed)
    (hmemory : ∀ a ∈ out :: operands.map (Operand.resolve out), a.data.size < memorySize)
    (hplan : planFor engine.config engine.policy k operands out = .ok (g, plan))
    (hcount : g.shape.size?.isSome) (hover : g.GoesOver operands.length out.data.size plan)
    (hprogram : k.CarriesNothing operands out g) :
    let custom := @evaluateInto _ schedule₁ engine k operands out
    let usual := @evaluateInto _ schedule₂ (engine.withPolicy .byThresholds) k operands out
    (∃ e, custom.result = .error e ∧ ¬ e.IsCrash) ∨
      (custom.result = .ok () ∧ usual.result = .ok () ∧ custom.output = usual.output) ∨
      (custom.result = .error (.crash .overflow) ∧ size g.shape = 0 ∧
        ∃ axis, plan = .reduceOuter axis) := by
  intro custom usual
  obtain ⟨hresult, houtput⟩ :=
    @evaluateInto_valid k _ schedule₁ engine operands out (.inr hvalid)
  obtain ⟨husual, husualOutput⟩ :=
    @evaluateInto_valid k _ schedule₂ (engine.withPolicy .byThresholds) operands out (.inr hvalid)
  simp only [custom, usual, hresult, houtput, husual, husualOutput]
  rcases evaluateValid_eq_byThresholds schedule₁ schedule₂ (Kernel.valid_of_validate hvalid) hconfig
    hround hout harrays hmemory hplan hcount hover hprogram with
    herror | ⟨final, heq, hdefault⟩ | hcrash
  · exact .inl herror
  · have hdefault : @evaluateValid _ schedule₂ (engine.withPolicy .byThresholds).config
        (engine.withPolicy .byThresholds).policy k operands out
          = (.ok (), { out with data := final }) := hdefault
    rw [heq, hdefault]
    exact .inr (.inl ⟨rfl, rfl, rfl⟩)
  · exact .inr (.inr hcrash)

attribute [local instance] Allocator.roomy Scheduler.inOrder

/-- Rows of squares, summed one after the other where the usual policy goes over both at
a time. -/
theorem evaluateInto_eq_byThresholds_sumSquares :
    planFor .serial (.fixed (.reduceInner 1)) .sumSquares
        [.array (.longs [2, 3] [1, 2, 3, 4, 5, 6])] (.longs [2] [0, 0])
      = .ok (⟨[2, 3], some (.axis 1), [2]⟩, .reduceInner 1) ∧
    planFor .serial .byThresholds .sumSquares
        [.array (.longs [2, 3] [1, 2, 3, 4, 5, 6])] (.longs [2] [0, 0])
      = .ok (⟨[2, 3], some (.axis 1), [2]⟩, .reduceOuter 1) ∧
    (((usual .serial).withPolicy (.fixed (.reduceInner 1))).evaluateInto .sumSquares
        [.array (.longs [2, 3] [1, 2, 3, 4, 5, 6])] (.longs [2] [0, 0])).output
      = ((usual .serial).evaluateInto .sumSquares
        [.array (.longs [2, 3] [1, 2, 3, 4, 5, 6])] (.longs [2] [0, 0])).output := by
  have hplan : planFor .serial (.fixed (.reduceInner 1)) .sumSquares
      [.array (.longs [2, 3] [1, 2, 3, 4, 5, 6])] (.longs [2] [0, 0])
        = .ok (⟨[2, 3], some (.axis 1), [2]⟩, .reduceInner 1) := by decide +kernel
  have hprogram : Kernel.sumSquares.EndsInFold Kernel.sumSquares.instructions.dropLast
      (Kernel.sumSquares.instructions.getLast (by decide +kernel)) .sum .long := by decide +kernel
  refine ⟨hplan, by decide +kernel, ?_⟩
  have hok : (((usual .serial).withPolicy (.fixed (.reduceInner 1))).evaluateInto .sumSquares
      [.array (.longs [2, 3] [1, 2, 3, 4, 5, 6])] (.longs [2] [0, 0])).result = .ok () := by
    decide +kernel
  rcases evaluateInto_eq_byThresholds .inOrder .inOrder
    ((usual .serial).withPolicy (.fixed (.reduceInner 1))) rfl (by decide) (by decide +kernel)
    (by decide +kernel) (by decide +kernel) (by decide +kernel) hplan rfl trivial
    (.fold hprogram (.inl rfl)) with ⟨e, he, -⟩ | ⟨-, -, hsame⟩ | ⟨he, -⟩
  · cases hok.symm.trans he
  · exact hsame
  · cases hok.symm.trans he

/-- A temporary that is never cleared adds up all elements in one pass, but with two
threads only every other one. -/
theorem not_evaluateInto_eq_byThresholds : ¬ ∀ (engine : Engine) (k : Kernel)
    (operands : List Operand) (out : NdArray) (g : Geometry) (plan : ExecutionPlan),
    engine.config.validate = .ok () → engine.config.RoundFits → k.validate = .ok () →
    out.WellFormed →
    (∀ o ∈ operands, (o.resolve out).WellFormed) →
    planFor engine.config engine.policy k operands out = .ok (g, plan) →
    (∃ e, (engine.evaluateInto k operands out).result = .error e) ∨
      (engine.evaluateInto k operands out).output
        = ((engine.withPolicy .byThresholds).evaluateInto k operands out).output := by
  intro h
  let config : EngineConfig := .withBlockSize { EngineConfig.serial with threads := 2 } 1
  have hsame := h ((usual config).withPolicy (.fixed .serial)) .runningSum
    [.array (.longs [4] [1, 2, 3, 4])] (.longs [4] [0, 0, 0, 0]) ⟨[4], none, [4]⟩ .serial
    (by decide +kernel) (by decide) (by decide +kernel) (by decide +kernel) (by decide +kernel)
    (by decide +kernel)
  have hserial : (((usual config).withPolicy (.fixed .serial)).evaluateInto .runningSum
      [.array (.longs [4] [1, 2, 3, 4])] (.longs [4] [0, 0, 0, 0])).result = .ok () ∧
    (((usual config).withPolicy (.fixed .serial)).evaluateInto .runningSum
      [.array (.longs [4] [1, 2, 3, 4])] (.longs [4] [0, 0, 0, 0])).output
        = .longs [4] [1, 3, 6, 10] := by decide +kernel
  have hpool : ((((usual config).withPolicy (.fixed .serial)).withPolicy
      .byThresholds).evaluateInto .runningSum [.array (.longs [4] [1, 2, 3, 4])]
      (.longs [4] [0, 0, 0, 0])).output = .longs [4] [1, 2, 4, 6] := by decide +kernel
  rw [hserial.1, hserial.2, hpool] at hsame
  rcases hsame with ⟨e, he⟩ | hsame
  · cases he
  · exact absurd hsame (by decide +kernel)

/-- There are no groups to go over, but the third position of the axis has no place. -/
example : (((usual .serial).withPolicy (.fixed (.reduceOuter 1))).evaluateInto .sumSquares
    [.array (.longs [0, 3, 9223372036854775808] [])]
    (.longs [0, 9223372036854775808] [])).result = .error (.crash .overflow) := by decide +kernel

/-- The check lets through a plan that does nothing, for any program. -/
example : (((usual .serial).withPolicy (.fixed .empty)).evaluateInto .addLongs
    [.array (.longs [2] [1, 2]), .array (.longs [2] [3, 4])] (.longs [2] [0, 0])).output
      = .longs [2] [0, 0] := by decide +kernel

end Engine

end Lanewise
