import Lanewise.Proofs.Calls
import Lanewise.Proofs.Elementwise

/-!
# Sizes that a policy is asked about

A policy is asked only after all checks on operands and output (`Engine.asked?`).
Where the output or an operand has the common shape, the number of its elements was
counted when that array was made, so it fits 64 bits (`Engine.asked_sizeFits`). A
reduction whose operands are all repeated has no such array
(`Engine.not_asked_sizeFits`).
-/

namespace Lanewise

open Shape (size)

/-! ## Sizes -/

/-- The elements of an array were counted when it was made. -/
theorem NdArray.WellFormed.sizeFits {a : NdArray} (h : a.WellFormed) :
    a.shape.checkedSize = .ok a.shape.size ∧ a.shape.size? = some a.shape.size ∧
      a.shape.size < UInt64.size := by
  obtain ⟨hsize, hmax⟩ := h.size_eq
  have hcount : a.shape.checkedSize = .ok a.shape.size := hsize ▸ h
  exact ⟨hcount, Shape.checkedSize_eq_ok_iff.1 hcount, Shape.lt_uint64_iff.2 hmax⟩

/-- Without shapes the common one is that of a single element, and one shape is its own. -/
theorem Shape.eq_nil_or_mem_of_broadcast {shapes : List Shape} {shape : Shape}
    (hfew : shapes.length ≤ 1) (h : Shape.broadcast shapes = .ok shape) :
    shape = [] ∨ shape ∈ shapes := by
  cases shapes with
  | nil =>
    cases h
    exact .inl rfl
  | cons first rest =>
    obtain rfl : rest = [] :=
      List.length_eq_zero_iff.1 (Nat.le_zero.1 (Nat.le_of_succ_le_succ hfew))
    have hfirst : Shape.join? [] first = some first := by
      simp [Shape.join?, Shape.joinInner?]
    simp only [Shape.broadcast, List.foldlM_cons, List.foldlM_nil, hfirst] at h
    cases h
    exact .inr (.head _)

theorem Accepted.sizeFits {k : Kernel} {operands : List Operand} {out : NdArray} {g : Geometry}
    (h : Accepted k operands out g) (hout : out.WellFormed)
    (harrays : ∀ o ∈ operands, (o.resolve out).WellFormed)
    (hwhole : k.isReduction = true → operands.length ≤ 1 ∨
      ∃ o ∈ operands, (o.resolve out).shape = g.shape) :
    g.shape.checkedSize = .ok g.shape.size ∧ g.shape.size? = some g.shape.size ∧
      g.shape.size < UInt64.size := by
  have hoperand : ∀ o ∈ operands, (o.resolve out).shape = g.shape →
      g.shape.checkedSize = .ok g.shape.size ∧ g.shape.size? = some g.shape.size ∧
      g.shape.size < UInt64.size := by
    intro o ho hshape
    rw [← hshape]
    exact (harrays o ho).sizeFits
  cases hred : k.isReduction with
  | false =>
    rw [← (h.elementwise hred).2]
    exact hout.sizeFits
  | true =>
    rcases hwhole hred with hfew | ⟨o, ho, hshape⟩
    · rcases Shape.eq_nil_or_mem_of_broadcast (by simpa using hfew) h.geometry.1 with hnil | hmem
      · rw [hnil]
        decide
      · obtain ⟨o, ho, hshape⟩ := List.mem_map.1 hmem
        exact hoperand o ho hshape
    · exact hoperand o ho hshape

/-- An output does not have a shape whose elements cannot be counted. -/
theorem geometryFor_of_overflow {k : Kernel} {operands : List Operand} {out : NdArray}
    {shape : Shape} {e : EvalError} (hout : out.WellFormed) (hplain : k.isReduction = false)
    (hchecked : checkOperands k operands out = .ok ())
    (hshape : Shape.broadcast (operands.map fun o => (o.resolve out).shape) = .ok shape)
    (hoverflow : shape.checkedSize = .error e) :
    geometryFor k operands out = .error (.shape (.outputShape out.shape shape)) := by
  have haxis : k.program.reductionAxis? = none := by
    rw [Program.reductionAxis?, show k.program.isReduction = false from hplain]
    rfl
  have hgeometry : Geometry.ofShapes k (operands.map fun o => (o.resolve out).shape)
      = .ok ⟨shape, none, shape⟩ := by
    rw [Geometry.ofShapes, hshape, haxis]
    rfl
  have hother : shape ≠ out.shape := by
    intro heq
    rw [heq, show out.shape.checkedSize = .ok out.data.size from hout] at hoverflow
    cases hoverflow
  have hreads : ¬ (operands.any Operand.isOutput = true ∧ k.isReduction = true) := by
    simp [hplain]
  simp only [geometryFor, hchecked, hgeometry, if_neg hreads, bind, Except.bind, pure,
    Except.pure, if_pos hother]
  rfl

/-! ## Calls -/

namespace Engine

variable {engine : Engine} {k : Kernel} {operands : List Operand} {out : NdArray}

/-- What the policy is asked in a call, if the call gets that far. -/
def asked? (engine : Engine) (k : Kernel) (operands : List Operand) (out : NdArray) :
    Option PlanInput :=
  match engine.validate k, geometryFor k operands out with
  | .ok _, .ok g => some ⟨g.shape, operands.length, g.reduction?⟩
  | _, _ => none

theorem asked?_eq_some_iff (h : k.validate = .ok ()) {input : PlanInput} :
    engine.asked? k operands out = some input ↔
      ∃ g, Accepted k operands out g ∧ input = ⟨g.shape, operands.length, g.reduction?⟩ := by
  obtain ⟨validated, hvalidate⟩ := engine.validate_eq_ok (.inr h)
  simp only [asked?, hvalidate, ← geometryFor_eq_ok_iff]
  cases geometryFor k operands out with
  | error e => simp
  | ok g => simp [eq_comm]

section Calls

variable [Allocator] [Scheduler]

/-- A call that fails in the checks leaves the output alone. -/
theorem evaluateInto_of_geometryFor {e : EvalError} (engine : Engine) (hk : k.validate = .ok ())
    (h : geometryFor k operands out = .error e) :
    engine.asked? k operands out = none ∧
      (engine.evaluateInto k operands out).result = .error e ∧
      (engine.evaluateInto k operands out).output = out := by
  obtain ⟨validated, hvalidate⟩ := engine.validate_eq_ok (.inr hk)
  exact ⟨by simp only [asked?, hvalidate, h], engine.evaluateInto_of_geometryFor_error hk h⟩

/-- A call that does not get to its policy is the same under all of them. -/
theorem evaluateInto_of_asked?_none (hk : k.validate = .ok ())
    (h : engine.asked? k operands out = none) :
    ∃ e, ∀ policy, ((engine.withPolicy policy).evaluateInto k operands out).result = .error e ∧
      ((engine.withPolicy policy).evaluateInto k operands out).output = out := by
  obtain ⟨validated, hvalidate⟩ := engine.validate_eq_ok (.inr hk)
  cases hgeometry : geometryFor k operands out with
  | ok g =>
    simp only [asked?, hvalidate, hgeometry] at h
    cases h
  | error e =>
    exact ⟨e, fun policy =>
      ((engine.withPolicy policy).evaluateInto_of_geometryFor hk hgeometry).2⟩

/-- Of its policy a call knows the answer to the one question. -/
theorem evaluateInto_of_asked?_some (hk : k.validate = .ok ()) {input : PlanInput}
    (h : engine.asked? k operands out = some input) (policy : PlanPolicy) :
    ((engine.withPolicy policy).evaluateInto k operands out).result
        = ((engine.withPolicy (fun _ _ => policy input engine.config)).evaluateInto k operands
          out).result ∧
      ((engine.withPolicy policy).evaluateInto k operands out).output
        = ((engine.withPolicy (fun _ _ => policy input engine.config)).evaluateInto k operands
          out).output := by
  obtain ⟨g, hg, rfl⟩ := (asked?_eq_some_iff hk).1 h
  have hplan : planFor engine.config policy k operands out = planFor engine.config
      (fun _ _ => policy ⟨g.shape, operands.length, g.reduction?⟩ engine.config) k operands
      out := by
    rw [planFor_eq_geometryFor, planFor_eq_geometryFor, geometryFor_eq_ok_iff.2 hg]
    rfl
  have hvalid : evaluateValid engine.config policy k operands out = evaluateValid engine.config
      (fun _ _ => policy ⟨g.shape, operands.length, g.reduction?⟩ engine.config) k operands
      out := by
    simp only [evaluateValid, hplan]
  obtain ⟨hresult, houtput⟩ := (engine.withPolicy policy).evaluateInto_valid operands out (.inr hk)
  obtain ⟨hresult', houtput'⟩ := (engine.withPolicy fun _ _ =>
    policy ⟨g.shape, operands.length, g.reduction?⟩ engine.config).evaluateInto_valid operands
      out (.inr hk)
  rw [hresult, houtput, hresult', houtput']
  exact ⟨congrArg Prod.fst hvalid, congrArg Prod.snd hvalid⟩

/-- What a policy is asked about fits 64 bits, unless a reduction repeats all of its
operands. Other programs are refused when the common shape does not fit. -/
theorem asked_sizeFits (engine : Engine) (k : Kernel) (operands : List Operand) (out : NdArray)
    (hk : k.validate = .ok ()) (hout : out.WellFormed)
    (harrays : ∀ o ∈ operands, (o.resolve out).WellFormed) :
    (∀ input, engine.asked? k operands out = some input →
      (k.isReduction = true → operands.length ≤ 1 ∨
        ∃ o ∈ operands, (o.resolve out).shape = input.shape) →
      input.shape.checkedSize = .ok (size input.shape) ∧
        input.size? = some (size input.shape) ∧ size input.shape < UInt64.size) ∧
    (∀ shape e, k.isReduction = false → checkOperands k operands out = .ok () →
      Shape.broadcast (operands.map fun o => (o.resolve out).shape) = .ok shape →
      shape.checkedSize = .error e →
      engine.asked? k operands out = none ∧
        (engine.evaluateInto k operands out).result
          = .error (.shape (.outputShape out.shape shape)) ∧
        (engine.evaluateInto k operands out).output = out) := by
  refine ⟨?_, ?_⟩
  · intro input hasked hwhole
    obtain ⟨g, hg, rfl⟩ := (asked?_eq_some_iff hk).1 hasked
    exact hg.sizeFits hout harrays hwhole
  · intro shape e hplain hchecked hshape hoverflow
    exact engine.evaluateInto_of_geometryFor hk
      (geometryFor_of_overflow hout hplain hchecked hshape hoverflow)

end Calls

attribute [local instance] Allocator.roomy Scheduler.inOrder

/-- A number is added to two others, whose sums are summed. With a row and a column of
`2 ^ 40` times nothing the common shape does not fit. -/
theorem asked_sizeFits_sumOfSums :
    ((usual .serial).asked? .sumOfSums [.array (.longs [2] [1, 2]), .array (.longs [1] [3])]
        (.longs [] [0]) = some ⟨[2], 2, some .all⟩ ∧
      PlanInput.size? ⟨[2], 2, some .all⟩ = some 2) ∧
    ((usual .serial).evaluateInto .addLongs
        [.array (.longs [1099511627776, 1, 0] []), .array (.longs [1, 1099511627776, 0] [])]
        (.longs [0] [])).result
      = .error (.shape (.outputShape [0] [1099511627776, 1099511627776, 0])) := by
  have hasked : (usual .serial).asked? .sumOfSums
      [.array (.longs [2] [1, 2]), .array (.longs [1] [3])] (.longs [] [0])
        = some ⟨[2], 2, some .all⟩ := by decide +kernel
  have hfits := (asked_sizeFits (usual .serial) .sumOfSums
    [.array (.longs [2] [1, 2]), .array (.longs [1] [3])] (.longs [] [0]) (by decide +kernel)
    (by decide +kernel) (by decide +kernel)).1 _ hasked fun _ => .inr ⟨_, .head _, rfl⟩
  have hrefused := (asked_sizeFits (usual .serial) .addLongs
    [.array (.longs [1099511627776, 1, 0] []), .array (.longs [1, 1099511627776, 0] [])]
    (.longs [0] []) (by decide +kernel) (by decide +kernel) (by decide +kernel)).2
    [1099511627776, 1099511627776, 0] (.shape (.overflow [1099511627776, 1099511627776, 0]))
    (by decide +kernel) (by decide +kernel) (by decide +kernel) (by decide +kernel)
  exact ⟨⟨hasked, hfits.2.1⟩, hrefused.2.1⟩

/-- A row and a column are both repeated. No array of the common shape ever exists, and
nothing looks at the number of its elements before the policy. -/
theorem not_asked_sizeFits : ¬ ∀ (engine : Engine) (k : Kernel) (operands : List Operand)
    (out : NdArray) (input : PlanInput), k.validate = .ok () → out.WellFormed →
    (∀ o ∈ operands, (o.resolve out).WellFormed) →
    engine.asked? k operands out = some input →
    ∃ n, input.shape.checkedSize = .ok n ∧ input.size? = some n := by
  intro h
  obtain ⟨n, -, hsize⟩ := h (usual .serial) .sumOfSums
    [.array (.longs [1099511627776, 1, 0] []), .array (.longs [1, 1099511627776, 0] [])]
    (.longs [] [0]) ⟨[1099511627776, 1099511627776, 0], 2, some .all⟩ (by decide +kernel)
    (by decide +kernel) (by decide +kernel) (by decide +kernel)
  have hnone : PlanInput.size? ⟨[1099511627776, 1099511627776, 0], 2, some .all⟩ = none := by
    decide +kernel
  cases hnone.symm.trans hsize

end Engine

end Lanewise
