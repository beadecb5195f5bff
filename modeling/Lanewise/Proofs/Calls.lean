import Lanewise.Proofs.Reductions

/-!
# Calls to an engine

A call goes through validation, the checks on operands, the start of the output
and a plan. A call that passes all of them is a request under way
(`evaluateValid_eq`); one that does not is refused before the output is touched
(`Engine.evaluateInto_invalid`).
-/

namespace Lanewise

open Shape (size maxSize)

/-! ## The start of a reduction -/

/-- Identities are numbers of the type they are asked for. -/
theorem Reducer.of_identity? {r : Reducer} {t : ElementType} {c : Constant}
    (h : r.identity? t = some c) : c.elementType = t ∧ t ≠ .str := by
  cases r <;> cases t <;> cases h <;> exact ⟨rfl, nofun⟩

/-- Types other than strings have one storage. -/
theorem Storage.eq_storage {s : Storage} (h : s.elementType ≠ .str) (width : Nat) :
    s.elementType.storage width = s := by
  cases s <;> first | rfl | exact absurd rfl h

/-- The reducer of a program that is a reduction. -/
theorem Program.exists_reducer {p : Program} (h : p.isReduction = true) :
    ∃ op r, p.reduction? = some op ∧ op.operation.reducer? = some r := by
  obtain ⟨op, hop⟩ := Option.isSome_iff_exists.1 h
  have hred := (Option.filter_eq_some_iff.1 hop).2
  obtain ⟨r, hr⟩ := Option.isSome_iff_exists.1 hred
  exact ⟨op, r, hop, hr⟩

section Accumulator

variable [Allocator]

/-- What a reduction starts from. -/
theorem of_accumulator {k : Kernel} {out data : Column} {op : Opcode} {r : Reducer} {c : Constant}
    (hop : k.program.reduction? = some op) (hr : op.operation.reducer? = some r)
    (hc : r.identity? out.elementType = some c) (h : accumulator k out = .ok data) :
    out.Alike data ∧
      ∀ i < out.size, c.lane? out.elementType out.stringWidth = some (data.lane i) := by
  simp only [accumulator, hop, hr, hc, Option.bind_some] at h
  obtain ⟨hs, hsize, hlane⟩ := Column.of_filled h
  exact ⟨⟨hs.trans (Storage.eq_storage (Reducer.of_identity? hc).2 _), hsize⟩, hlane⟩

/-- A reduction starts where there is room for it. -/
theorem accumulator_eq_ok {k : Kernel} {out : Column} {op : Opcode} {r : Reducer} {c : Constant}
    (hop : k.program.reduction? = some op) (hr : op.operation.reducer? = some r)
    (hc : r.identity? out.elementType = some c)
    (hroom : out.size * out.storage.cellSize ≤ Allocator.limit) :
    ∃ data, accumulator k out = .ok data ∧ out.Alike data ∧
      ∀ i < out.size, c.lane? out.elementType out.stringWidth = some (data.lane i) := by
  obtain ⟨htype, hstr⟩ := Reducer.of_identity? hc
  have hcells : out.size * (out.elementType.storage (max out.stringWidth c.stringWidth)).cellSize
      ≤ Allocator.limit := by
    rw [Column.elementType, Storage.eq_storage hstr]
    exact hroom
  obtain ⟨data, hfilled, -⟩ := Column.filled_eq_ok
    (by rw [htype]; exact ElementType.accepts_refl _) hcells
  have hdata : accumulator k out = .ok data := by
    simp only [accumulator, hop, hr, hc, Option.bind_some]
    exact hfilled
  exact ⟨data, hdata, of_accumulator hop hr hc hdata⟩

/-- Other programs start from the output as it is. -/
theorem accumulator_of_plain {k : Kernel} (hplain : k.program.isReduction = false) (out : Column) :
    accumulator k out = .ok out := by
  have hnone : k.program.reduction? = none := by simpa [Program.isReduction] using hplain
  simp only [accumulator, hnone, Option.bind_none]

/-- What an evaluation starts from is of the kind of the output. -/
theorem alike_of_accumulator {k : Kernel} {out data : Column}
    (h : accumulator k out = .ok data) : out.Alike data := by
  cases hred : k.program.isReduction with
  | false =>
    rw [accumulator_of_plain hred] at h
    cases h
    exact .refl _
  | true =>
    obtain ⟨op, r, hop, hr⟩ := Program.exists_reducer hred
    cases hc : r.identity? out.elementType with
    | none =>
      simp only [accumulator, hop, hr, hc, Option.bind_some] at h
      cases h
    | some c => exact (of_accumulator hop hr hc h).1

/-- The output before the first block: as it is, or filled. A type without an
identity is refused. -/
theorem accumulator_cases (k : Kernel) {out : Column}
    (hroom : k.program.isReduction = true →
      out.size * out.storage.cellSize ≤ Allocator.limit) :
    (∃ e, accumulator k out = .error e ∧ e.IsRefusal) ∨
      ∃ data, accumulator k out = .ok data ∧ out.Alike data ∧
        (k.program.isReduction = false → data = out) := by
  cases hred : k.program.isReduction with
  | false =>
    exact .inr ⟨out, accumulator_of_plain hred out, .refl _, fun _ => rfl⟩
  | true =>
    obtain ⟨op, r, hop, hr⟩ := Program.exists_reducer hred
    cases hc : r.identity? out.elementType with
    | none =>
      refine .inl ⟨.unsupported (.noIdentity r out.elementType), ?_, trivial⟩
      simp only [accumulator, hop, hr, hc, Option.bind_some]
    | some c =>
      obtain ⟨data, hdata, halike, -⟩ := accumulator_eq_ok hop hr hc (hroom hred)
      exact .inr ⟨data, hdata, halike, fun h => absurd h (by decide)⟩

end Accumulator

/-! ## An output of the same kind -/

section Alike

variable {k : Kernel} {operands : List Operand} {out : NdArray} {g : Geometry} {data : Column}
  {config : EngineConfig}

/-- An operand over an output whose elements changed. -/
theorem Operand.resolve_alike (h : out.data.Alike data) (o : Operand) :
    (o.resolve { out with data }).shape = (o.resolve out).shape ∧
      (o.resolve out).data.Alike (o.resolve { out with data }).data := by
  cases o with
  | array a => exact ⟨rfl, .refl _⟩
  | output => exact ⟨rfl, h⟩

theorem Operand.storage_resolve (h : out.data.Alike data) (o : Operand) :
    (o.resolve { out with data }).data.storage = (o.resolve out).data.storage :=
  (o.resolve_alike h).2.storage

theorem checkOperandTypes_alike (h : out.data.Alike data) (index : Nat) (sig : Signature) :
    checkOperandTypes { out with data } index operands sig
      = checkOperandTypes out index operands sig := by
  induction operands generalizing index sig with
  | nil => rfl
  | cons o operands ih =>
    cases sig with
    | nil => rfl
    | cons t sig =>
      have htype : (o.resolve { out with data }).elementType = (o.resolve out).elementType :=
        congrArg Storage.elementType (o.storage_resolve h)
      simp only [checkOperandTypes, htype, ih]

/-- The checks do not look at elements. -/
theorem Accepted.alike (h : Accepted k operands out g) (halike : out.data.Alike data) :
    Accepted k operands { out with data } g := by
  have htype : NdArray.elementType { out with data } = out.elementType :=
    congrArg Storage.elementType halike.storage
  have hshapes : (operands.map fun o => (o.resolve { out with data }).shape)
      = operands.map fun o => (o.resolve out).shape :=
    List.map_congr_left fun o _ => (o.resolve_alike halike).1
  refine ⟨?_, h.reading, by rw [hshapes]; exact h.shapes, h.outputShape⟩
  rw [← h.checked]
  simp only [checkOperands, checkOperandTypes_alike halike, htype]

theorem NdArray.WellFormed.alike {a b : NdArray} (h : a.WellFormed) (hshape : b.shape = a.shape)
    (halike : a.data.Alike b.data) : b.WellFormed := by
  unfold WellFormed
  rw [hshape, halike.size]
  exact h

theorem HasRoom.alike [Allocator] (h : HasRoom config k operands out)
    (halike : out.data.Alike data) : HasRoom config k operands { out with data } := by
  have hwidths : (operands.map fun o => (o.resolve { out with data }).stringWidth)
      = operands.map fun o => (o.resolve out).stringWidth :=
    List.map_congr_left fun o _ => congrArg Storage.stringWidth (o.storage_resolve halike)
  refine ⟨h.table, fun reg s hs => h.registers reg s (by rwa [hwidths] at hs), fun o ho => ?_, ?_,
    fun hred => ?_, ?_⟩
  · rw [o.storage_resolve halike]
    exact h.inputs o ho
  · rw [halike.storage]
    exact h.output
  · rw [halike.storage, halike.size]
    exact h.accumulator hred
  · simp only [List.forall_mem_cons, List.forall_mem_map, halike.size] at h ⊢
    obtain ⟨hout, hoperands⟩ := List.forall_mem_cons.1 h.memory
    refine ⟨hout, fun o ho => ?_⟩
    rw [(o.resolve_alike halike).2.size]
    exact hoperands _ (List.mem_map_of_mem ho)

theorem HasRoom.size_lt [Allocator] (h : HasRoom config k operands out) :
    ∀ o ∈ operands, (o.resolve out).data.size < memorySize := fun _ ho =>
  h.memory _ (.tail _ (List.mem_map_of_mem ho))

theorem HasRoom.size_out_lt [Allocator] (h : HasRoom config k operands out) :
    out.data.size < memorySize :=
  h.memory out (.head _)

end Alike

/-! ## Calls -/

/-- A new output holds fresh elements. -/
theorem Engine.freshOutput_spec [Allocator] {k : Kernel} {inputs : List NdArray} {out : NdArray}
    (h : freshOutput k inputs = .ok out) :
    out.WellFormed ∧ ∀ i < out.data.size, out.data.lane i = .fresh out.data.storage := by
  unfold freshOutput at h
  obtain ⟨g, -, h⟩ := bind_eq_ok_iff.1 h
  obtain ⟨t, -, h⟩ := bind_eq_ok_iff.1 h
  unfold NdArray.zeros at h
  obtain ⟨n, hn, h⟩ := bind_eq_ok_iff.1 h
  obtain ⟨data, hdata, heq⟩ := bind_eq_ok_iff.1 h
  unfold Column.zeros at hdata
  obtain ⟨_, -, hfresh⟩ := bind_eq_ok_iff.1 hdata
  cases heq
  cases hfresh
  refine ⟨?_, fun i hi => ?_⟩
  · rw [NdArray.WellFormed, hn, Column.size_fresh]
  · rw [Column.size_fresh] at hi
    exact Column.lane_fresh hi

/-- A new engine with the usual policy. -/
def Engine.usual (config : EngineConfig) : Engine :=
  ⟨config, .byThresholds, []⟩

section Admits

variable [Allocator]

/-- A call with arrays as they are constructed, to an engine that has the usual
policy and a valid configuration, with room for all that is laid out. -/
structure Engine.Admits (engine : Engine) (k : Kernel) (operands : List Operand) (out : NdArray) :
    Prop where
  policy : engine.policy = .byThresholds
  config : engine.config.validate = .ok ()
  output : out.WellFormed
  arrays : ∀ o ∈ operands, (o.resolve out).WellFormed
  room : HasRoom engine.config k operands out

theorem Engine.admits_usual_iff {config : EngineConfig} {k : Kernel} {operands : List Operand}
    {out : NdArray} : (usual config).Admits k operands out ↔
      config.validate = .ok () ∧ out.WellFormed ∧ (∀ o ∈ operands, (o.resolve out).WellFormed) ∧
        HasRoom config k operands out :=
  ⟨fun h => ⟨h.config, h.output, h.arrays, h.room⟩,
    fun ⟨hconfig, hout, harrays, hroom⟩ => ⟨rfl, hconfig, hout, harrays, hroom⟩⟩

instance (config : EngineConfig) (k : Kernel) (operands : List Operand) (out : NdArray) :
    Decidable ((Engine.usual config).Admits k operands out) :=
  decidable_of_iff _ Engine.admits_usual_iff.symm

end Admits

/-- 64-bit integers as an array. -/
def NdArray.longs (shape : Shape) (values : List Int64) : NdArray :=
  ⟨⟨.long, (values.toArray : Array Int64)⟩, shape⟩

/-- `add_lll r0, r1, r2` -/
def Kernel.addLongs : Kernel :=
  ⟨⟨[42, 0, 1, 2]⟩, [.long, .long, .long], [.long, .long], [], 0⟩

/-- `add_lll r3, r1, r2`, `sum_lln r0, r3, 255` -/
def Kernel.sumOfSums : Kernel :=
  ⟨⟨[42, 3, 1, 2, 101, 0, 3, 255]⟩, [.long, .long, .long, .long], [.long, .long], [], 1⟩

theorem EngineConfig.blockSize_pos {config : EngineConfig} (h : config.validate = .ok ()) :
    0 < config.blockSize := by
  exact (pos_of_validate h).2.2.1

/-- The usual policy has a plan where the positions can be counted from left to right. -/
theorem PlanPolicy.exists_byThresholds (input : PlanInput) (config : EngineConfig) {n : Nat}
    (h : input.size? = some n) : ∃ plan, byThresholds input config = some plan := by
  unfold byThresholds
  rw [h]
  simp only [Option.bind_eq_bind, Option.bind_some]
  repeat' split
  all_goals exact ⟨_, rfl⟩

theorem PlanPolicy.size?_of_byThresholds {input : PlanInput} {config : EngineConfig}
    {plan : ExecutionPlan} (h : byThresholds input config = some plan) :
    input.size? = some (size input.shape) := by
  obtain ⟨n, hn, -⟩ := Option.bind_eq_some_iff.1 h
  rw [hn, (Shape.of_size? hn).1]

/-- An element-wise request can be cut into tasks where a round of them can be counted. -/
theorem Accepted.divides {config : EngineConfig} {k : Kernel} {operands : List Operand}
    {out : NdArray} {g : Geometry} (h : Accepted k operands out g) (hout : out.WellFormed)
    (hmemory : out.data.size < memorySize) (hconfig : config.validate = .ok ())
    (hround : config.RoundFits) (hnone : g.reduction? = none) :
    config.Divides (size g.shape) := by
  cases hred : k.program.isReduction with
  | false =>
    rw [← (h.elementwise hred).2, ← hout.size_eq.1]
    exact hround.divides hconfig hmemory
  | true => exact absurd hnone (h.reduction?_ne_none hred)

/-- An accepted request, once the output holds what it starts from. -/
theorem evaluateValid_eq [Allocator] [Scheduler] {config : EngineConfig} {policy : PlanPolicy}
    {k : Kernel} {operands : List Operand} {out : NdArray} {g : Geometry} {data : Column}
    {plan : ExecutionPlan} (hk : k.Valid) (haccepted : Accepted k operands out g)
    (hplan : policy ⟨g.shape, operands.length, g.reduction?⟩ config = some plan)
    (hfits : g.fits plan = true) (hblock : 0 < config.blockSize) (hout : out.WellFormed)
    (harrays : ∀ o ∈ operands, (o.resolve out).WellFormed) (hcount : size g.shape ≤ maxSize)
    (hroom : HasRoom config k operands out) (hdata : accumulator k out.data = .ok data)
    (halike : out.data.Alike data) :
    ∃ strides w, Request config k operands { out with data } g strides w ∧
      ∀ Result, Request.Yields config k operands { out with data } g strides w plan Result →
        ∃ final, evaluateValid config policy k operands out = (.ok (), { out with data := final }) ∧
          out.data.Alike final ∧ Result final := by
  obtain ⟨strides, w, hrequest, hrun⟩ := exists_request hk (haccepted.alike halike) hblock
    (hout.alike rfl halike) (fun o ho => (harrays o ho).alike (o.resolve_alike halike).1
      (o.resolve_alike halike).2) hcount (hroom.alike halike)
  refine ⟨strides, w, hrequest, fun Result hyields => ?_⟩
  obtain ⟨final, hfinish, hfinal, hresult⟩ := hyields
  refine ⟨final, ?_, halike.trans hfinal, hresult⟩
  simp only [evaluateValid, planFor_eq_ok_iff.2 ⟨haccepted, hfits, hplan⟩, hdata, hrun, hfinish]

namespace Engine

variable {k : Kernel}

theorem validate_eq_ok (engine : Engine)
    (h : engine.validated.contains k.digest = true ∨ k.validate = .ok ()) :
    ∃ validated, engine.validate k = .ok { engine with validated } := by
  unfold validate
  cases hseen : engine.validated.contains k.digest with
  | true => exact ⟨engine.validated, rfl⟩
  | false =>
    rw [hseen] at h
    simp only [h.resolve_left Bool.false_ne_true]
    exact ⟨_, rfl⟩

/-- The error for a kernel that is not valid. Where its registers cannot be counted the
engine breaks off. -/
def refusal : ValidationError → EvalError
  | .uncountable => .crash .overflow
  | cause => .invalid cause

theorem isRefusal_refusal {cause : ValidationError} (h : cause ≠ .uncountable) :
    (refusal cause).IsRefusal := by
  cases cause with
  | uncountable => exact absurd rfl h
  | _ => trivial

/-- A kernel that is not valid does not pass. -/
theorem validate_eq_error {engine : Engine} {cause : ValidationError}
    (hseen : engine.validated.contains k.digest = false) (h : k.validate = .error cause) :
    engine.validate k = .error (refusal cause) := by
  simp only [validate, hseen, h, Bool.false_eq_true, if_false]
  cases cause <;> rfl

/-- A call with a kernel that is valid, or was when it was seen before. -/
theorem evaluateInto_valid [Allocator] [Scheduler] (engine : Engine) (operands : List Operand)
    (out : NdArray) (h : engine.validated.contains k.digest = true ∨ k.validate = .ok ()) :
    (engine.evaluateInto k operands out).result
        = (evaluateValid engine.config engine.policy k operands out).1 ∧
      (engine.evaluateInto k operands out).output
        = (evaluateValid engine.config engine.policy k operands out).2 := by
  obtain ⟨validated, hvalidate⟩ := engine.validate_eq_ok h
  simp only [evaluateInto, hvalidate, and_self]

/-- A call with a kernel that is not valid does not touch the output. -/
theorem evaluateInto_invalid [Allocator] [Scheduler] {engine : Engine} (operands : List Operand)
    (out : NdArray) (hseen : engine.validated.contains k.digest = false)
    (h : k.validate ≠ .ok ()) :
    ∃ e, (engine.evaluateInto k operands out).result = .error e ∧
      (e.IsRefusal ∨ (e = .crash .overflow ∧ k.validate = .error .uncountable)) ∧
      (engine.evaluateInto k operands out).output = out := by
  cases hvalid : k.validate with
  | ok _ => exact absurd hvalid h
  | error cause =>
    have hvalidate := validate_eq_error hseen hvalid
    refine ⟨refusal cause, by simp only [evaluateInto, hvalidate], ?_,
      by simp only [evaluateInto, hvalidate]⟩
    by_cases huncountable : cause = .uncountable
    · subst huncountable
      exact .inr ⟨rfl, rfl⟩
    · exact .inl (isRefusal_refusal huncountable)

/-- A call whose checks fail gives their error. -/
theorem evaluateInto_of_geometryFor_error [Allocator] [Scheduler] (engine : Engine)
    {operands : List Operand} {out : NdArray} {e : EvalError} (hvalid : k.validate = .ok ())
    (h : geometryFor k operands out = .error e) :
    (engine.evaluateInto k operands out).result = .error e ∧
      (engine.evaluateInto k operands out).output = out := by
  obtain ⟨hresult, houtput⟩ := engine.evaluateInto_valid operands out (.inr hvalid)
  have hplan : planFor engine.config engine.policy k operands out = .error e := by
    rw [planFor_eq_geometryFor, h]
    rfl
  have hfailed : evaluateValid engine.config engine.policy k operands out = (.error e, out) := by
    simp only [evaluateValid, hplan]
  rw [hresult, houtput, hfailed]
  exact ⟨rfl, rfl⟩

end Engine

end Lanewise
