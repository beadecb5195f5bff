import Lanewise.Proofs.Calls
import Lanewise.Proofs.PaddedPlans

/-!
# Evaluations of padded strings

Two evaluations of a kernel, each over inputs whose strings have widths of their own, lay
out buffers that are alike, choose the same plan and come to the same end
(`Engine.withstands_evaluate`). Temporaries and the output are as wide as the widest input
or constant. Where the second evaluation has the wider strings, it needs more memory, and
it may be refused that.
-/

namespace Lanewise

open Shape (size)

/-! ## Laying out columns -/

namespace Column

variable [Allocator] {v : Vocabulary} {P : Prop} {s s' : Storage} {len : Nat}

theorem withstands_reserve (htype : s.elementType = s'.elementType)
    (hle : s.stringWidth ≤ s'.stringWidth) (hP : Allocator.limit < len * s'.stringWidth → P) :
    Withstands P (· = ·) (reserve s len) (reserve s' len) := by
  by_cases hs : s.elementType = .str
  · have hs' := htype ▸ hs
    have hsize : s.cellSize = s.stringWidth := by
      rw [Storage.cellSize, hs]
      exact Nat.zero_max _
    have hsize' : s'.cellSize = s'.stringWidth := by
      rw [Storage.cellSize, hs']
      exact Nat.zero_max _
    by_cases hroom : len * s'.stringWidth ≤ Allocator.limit
    · have hless := Nat.le_trans (Nat.mul_le_mul_left len hle) hroom
      rw [reserve_eq_ok (hsize ▸ hless), reserve_eq_ok (hsize' ▸ hroom)]
      exact .inr (.ok rfl)
    · have hrefused : reserve s' len = .error (.allocation _) := if_neg (hsize' ▸ hroom)
      exact .inl ⟨⟨_, hrefused⟩, hP (Nat.lt_of_not_le hroom)⟩
  · obtain rfl := Storage.eq_of_plain htype hs
    exact .inr .refl

theorem withstands_zeros (h : s.Roomy v s') (hle : v.width ≤ v.width')
    (hP : Allocator.limit < len * v.width' → P) :
    Withstands P (Held v) (zeros s len) (zeros s' len) := by
  have hreserve : Withstands P (· = ·) (reserve s len) (reserve s' len) := by
    cases h with
    | plain => exact .inr .refl
    | str => exact withstands_reserve rfl hle hP
  exact hreserve.bind fun _ _ _ => .inr (.ok (.fresh h len))

/-- A column to collect an input in is as wide as that. -/
theorem withstands_staging (htype : s.elementType = s'.elementType)
    (hle : s.stringWidth ≤ s'.stringWidth) (hwidth : s.stringWidth ≤ v.width)
    (hwidth' : s'.stringWidth ≤ v.width') (hP : Allocator.limit < len * v.width' → P) :
    Withstands P (Akin v) (zeros s len) (zeros s' len) := by
  have hreserve : Withstands P (· = ·) (reserve s len) (reserve s' len) :=
    withstands_reserve htype hle fun hlimit =>
      hP (Nat.lt_of_lt_of_le hlimit (Nat.mul_le_mul_left _ hwidth'))
  refine hreserve.bind fun _ _ _ => .inr (.ok ?_)
  exact akin_replicate len htype (Storage.akin_zero htype hwidth hwidth')

/-- The column of a constant is alike for both evaluations. -/
theorem akin_filled {c : Constant} {t : ElementType} {width : Nat} {col : Column}
    (h : filled c t width len = .ok col)
    (hhas : ∀ bytes, c = .str bytes → v.Has (Text.trimPadding bytes))
    (hwidth : max (max width c.stringWidth) 1 ≤ v.width) (hle : v.width ≤ v.width') :
    col.Akin v col := by
  have hstorage := (of_filled h).1
  by_cases ht : t = .str
  · subst ht
    simp only [filled] at h
    split at h
    · next value write hvalue hwrite =>
      obtain ⟨_, -, heq⟩ := bind_eq_ok_iff.1 h
      cases heq
      cases c <;> cases hvalue
      cases hwrite
      have hfits : value.length ≤ max (max width value.length) 1 := by omega
      exact akin_replicate len rfl (Storage.akin_str
        (Vocabulary.akin_padded rfl (hhas value rfl) hfits hfits hwidth (Nat.le_trans hwidth hle)))
    · cases h
  · refine akin_self ?_
    rwa [elementType, hstorage, ElementType.elementType_storage]

end Column

/-! ## Widths of registers -/

theorem foldl_max_le_iff {l : List Nat} {a n : Nat} :
    l.foldl max a ≤ n ↔ a ≤ n ∧ ∀ x ∈ l, x ≤ n := by
  induction l generalizing a with
  | nil => simp
  | cons x l ih =>
    rw [List.foldl_cons, ih, List.forall_mem_cons, Nat.max_le, and_assoc]

namespace Kernel

variable {k : Kernel} {widths widths' : List Nat}

theorem widestString_le_iff {n : Nat} :
    k.widestString widths ≤ n ↔ (∀ w ∈ widths, w ≤ n) ∧ ∀ c ∈ k.constants, c.stringWidth ≤ n := by
  rw [widestString, foldl_max_le_iff, List.forall_mem_append, List.forall_mem_map]
  exact ⟨fun h => h.2, fun h => ⟨Nat.zero_le n, h⟩⟩

theorem widestString_mono (h : List.Forall₂ (· ≤ ·) widths widths') :
    k.widestString widths ≤ k.widestString widths' := by
  have hwide := widestString_le_iff.1 (Nat.le_refl (k.widestString widths'))
  refine widestString_le_iff.2 ⟨fun w hw => ?_, hwide.2⟩
  obtain ⟨w', hw', hle⟩ := exists_of_mem_of_forall₂ h.flip hw
  exact Nat.le_trans hle (hwide.1 w' hw')

theorem stringWidths_getD {reg : Nat} {t : ElementType} (h : k.fullSignature[reg]? = some t) :
    (k.stringWidths widths).getD reg 0 =
      if t ≠ .str then 0
      else
        match k.layout.role? reg with
        | some .input => widths.getD (reg - 1) 0
        | some .constant =>
          (k.constants[reg - k.layout.firstConstant]?.map Constant.stringWidth).getD 0
        | _ => k.widestString widths := by
  rw [stringWidths, List.getD_eq_getElem?_getD, List.getElem?_map, List.getElem?_zipIdx, h,
    Nat.zero_add]
  rfl

end Kernel

/-- The same array in two evaluations. -/
structure NdArray.Akin (v : Vocabulary) (a b : NdArray) : Prop where
  shape : a.shape = b.shape
  width : a.stringWidth ≤ b.stringWidth
  fits : a.stringWidth ≤ v.width
  fits' : b.stringWidth ≤ v.width'
  data : a.data.Akin v b.data

/-- Two evaluations of a kernel use the strings of a vocabulary, and results are as wide as the
widest of them. -/
structure Vocabulary.Covers (v : Vocabulary) (k : Kernel) (inputs inputs' : List NdArray) :
    Prop where
  arrays : List.Forall₂ (NdArray.Akin v) inputs inputs'
  constants : ∀ bytes, Constant.str bytes ∈ k.constants → v.Has (Text.trimPadding bytes)
  width : v.width = max (k.widestString (inputs.map NdArray.stringWidth)) 1
  width' : v.width' = max (k.widestString (inputs'.map NdArray.stringWidth)) 1

namespace Vocabulary.Covers

variable {v : Vocabulary} {k : Kernel} {inputs inputs' : List NdArray}
  (h : v.Covers k inputs inputs')

include h

theorem width_le : v.width ≤ v.width' := by
  have hwidest : k.widestString (inputs.map NdArray.stringWidth)
      ≤ k.widestString (inputs'.map NdArray.stringWidth) := by
    refine Kernel.widestString_mono ?_
    rw [List.forall₂_map_left_iff, List.forall₂_map_right_iff]
    exact h.arrays.imp fun _ _ hab => hab.width
  rw [h.width, h.width']
  omega

theorem shapes_eq : inputs.map NdArray.shape = inputs'.map NdArray.shape := by
  have hshapes := h.arrays
  clear h
  induction hshapes with
  | nil => rfl
  | cons hab _ ih => rw [List.map_cons, List.map_cons, hab.shape, ih]

/-- The output and the temporaries hold results. -/
theorem roomy_storage {reg : Nat} {t : ElementType} (ht : k.fullSignature[reg]? = some t)
    (hrole : k.layout.role? reg = some .output ∨ k.layout.role? reg = some .temporary) :
    (t.storage ((k.stringWidths (inputs.map NdArray.stringWidth)).getD reg 0)).Roomy v
      (t.storage ((k.stringWidths (inputs'.map NdArray.stringWidth)).getD reg 0)) := by
  rw [Kernel.stringWidths_getD ht, Kernel.stringWidths_getD ht]
  cases t with
  | str =>
    have hstr : ¬ ElementType.str ≠ .str := fun hne => hne rfl
    rw [if_neg hstr, if_neg hstr]
    rcases hrole with hrole | hrole <;>
    · simp only [hrole]
      rw [ElementType.storage, ElementType.storage, ← h.width, ← h.width']
      exact .str
  | _ => exact .plain nofun

/-- A register starts alike. -/
theorem withstands_initialColumn [Allocator] {P : Prop} {reg : Nat} {t : ElementType}
    (ht : k.fullSignature[reg]? = some t) {blockSize : Nat}
    (hP : Allocator.limit < blockSize * v.width' → P) :
    Withstands P (fun c d => c.Akin v d ∧
        (k.layout.role? reg = some .temporary → c.storage.Roomy v d.storage))
      (RegisterFile.initialColumn k blockSize reg t
        ((k.stringWidths (inputs.map NdArray.stringWidth)).getD reg 0))
      (RegisterFile.initialColumn k blockSize reg t
        ((k.stringWidths (inputs'.map NdArray.stringWidth)).getD reg 0)) := by
  unfold RegisterFile.initialColumn
  split
  · next c hrole hc =>
    have hmem := List.mem_of_getElem? hc
    -- a constant is laid out at a width of its own, whatever the inputs are
    have hwidth : ∀ widths, (k.stringWidths widths).getD reg 0
        = if t ≠ .str then 0 else c.stringWidth := fun widths => by
      rw [Kernel.stringWidths_getD ht]
      simp only [hrole, hc, Option.map_some, Option.getD_some]
    rw [hwidth, hwidth]
    cases hcol : Column.filled c t (if t ≠ .str then 0 else c.stringWidth) blockSize with
    | error e => exact .inr (.error e)
    | ok col =>
      refine .inr (.ok ⟨Column.akin_filled hcol ?_ ?_ h.width_le, fun htemporary => ?_⟩)
      · rintro bytes rfl
        exact h.constants bytes hmem
      · have hwidest := (Kernel.widestString_le_iff.1 (Nat.le_refl (k.widestString
          (inputs.map NdArray.stringWidth)))).2 c hmem
        rw [h.width]
        split <;> omega
      · rw [hrole] at htemporary
        cases htemporary
  · next hrole =>
    exact (Column.withstands_zeros (h.roomy_storage ht (.inr hrole)) h.width_le hP).imp
      fun c d hcd => ⟨hcd.toAkin, fun _ => hcd.roomy⟩
  · next htemporary _ =>
    exact .inr (.ok ⟨Column.akin_self nofun, fun hrole => (htemporary hrole).elim⟩)

/-- All registers start alike. -/
theorem withstands_registers [Allocator] {P : Prop} {blockSize : Nat}
    (hP : Allocator.limit < blockSize * v.width' → P) :
    Withstands P (RegisterFile.Akin v)
      (RegisterFile.ofKernel k (k.stringWidths (inputs.map NdArray.stringWidth)) blockSize)
      (RegisterFile.ofKernel k (k.stringWidths (inputs'.map NdArray.stringWidth)) blockSize) := by
  have hcolumns := Withstands.mapM (P := P)
    (R := fun x (c d : Column) => c.Akin v d ∧
      (k.layout.role? x.2 = some .temporary → c.storage.Roomy v d.storage))
    k.fullSignature.zipIdx fun x hx =>
      h.withstands_initialColumn (List.mem_zipIdx_iff_getElem?.1 hx) hP
  refine Withstands.bind (R := (· = ·)) (.inr .refl) fun _ _ hcount => ?_
  subst hcount
  refine Withstands.bind (R := (· = ·)) (.inr .refl) fun _ _ _ => ?_
  refine hcolumns.bind fun cs ds hcds => .inr (.ok ⟨rfl, fun reg => ?_⟩)
  rw [List.getElem?_toArray, List.getElem?_toArray]
  refine rel_imp (hcds reg) ?_
  rintro c d ⟨x, hx, hcd⟩
  have hreg : x.2 = reg := by
    rw [List.getElem?_zipIdx, Option.map_eq_some_iff] at hx
    obtain ⟨_, -, rfl⟩ := hx
    exact Nat.zero_add reg
  exact hreg ▸ hcd

/-- The buffers of an evaluation. -/
theorem withstands_workspace [Allocator] {P : Prop} {config : EngineConfig}
    (hP : Allocator.limit < config.blockSize * v.width' → P) {s s' : Storage}
    (hout : s.Roomy v s') :
    Withstands P (fun w w' => w.registers.Akin v w'.registers ∧
        List.Forall₂ (Column.Akin v) w.staging w'.staging ∧ w.scratch.Held v w'.scratch)
      (Workspace.ofKernel k
        (k.prepare config.blockSize config.boundsCheck (inputs.map NdArray.stringWidth))
        (inputs.map fun a => a.data.storage) s)
      (Workspace.ofKernel k
        (k.prepare config.blockSize config.boundsCheck (inputs'.map NdArray.stringWidth))
        (inputs'.map fun a => a.data.storage) s') := by
  refine (h.withstands_registers hP).bind fun regs regs' hregs => ?_
  have hcollected : List.Forall₂
      (fun s s' => s.elementType = s'.elementType ∧ s.stringWidth ≤ s'.stringWidth ∧
        s.stringWidth ≤ v.width ∧ s'.stringWidth ≤ v.width')
      (inputs.map fun a => a.data.storage) (inputs'.map fun a => a.data.storage) := by
    rw [List.forall₂_map_left_iff, List.forall₂_map_right_iff]
    exact h.arrays.imp fun _ _ hab => ⟨hab.data.elementType, hab.width, hab.fits, hab.fits'⟩
  have hstaging := Withstands.forall₂_mapM (S := Column.Akin v) hcollected
    fun _ _ ⟨htype, hle, hfits, hfits'⟩ =>
      Column.withstands_staging htype hle hfits hfits' hP
  refine hstaging.bind fun _ _ hstaging => ?_
  exact (Column.withstands_zeros hout h.width_le hP).bind fun _ _ hscratch =>
    .inr (.ok ⟨hregs, hstaging, hscratch⟩)

/-! ## Evaluations -/

theorem checkOperandTypes_eq (out out' : NdArray) (index : Nat) (sig : Signature) :
    checkOperandTypes out index (inputs.map .array) sig
      = checkOperandTypes out' index (inputs'.map .array) sig := by
  have harrays := h.arrays
  clear h
  induction harrays generalizing index sig with
  | nil => rfl
  | cons hab _ ih =>
    cases sig with
    | nil => rfl
    | cons expected sig =>
      simp only [List.map_cons, checkOperandTypes, Operand.resolve, NdArray.elementType,
        hab.data.elementType, ih]
      rfl

/-- The plan does not depend on the widths. -/
theorem planFor_eq {out out' : NdArray} (hshape : out.shape = out'.shape)
    (htype : out.elementType = out'.elementType) (config : EngineConfig) (policy : PlanPolicy) :
    planFor config policy k (inputs.map .array) out
      = planFor config policy k (inputs'.map .array) out' := by
  have hlength : (inputs.map Operand.array).length = (inputs'.map Operand.array).length := by
    rw [List.length_map, List.length_map, h.arrays.length_eq]
  have hshapes : (inputs.map Operand.array).map (fun o => (o.resolve out).shape)
      = (inputs'.map Operand.array).map fun o => (o.resolve out').shape := by
    rw [List.map_map, List.map_map]
    exact h.shapes_eq
  have hnoOutput : ∀ arrays : List NdArray,
      (arrays.map Operand.array).any Operand.isOutput = false := fun arrays => by
    simp [Operand.isOutput]
  simp only [planFor, checkOperands, h.checkOperandTypes_eq out out', hlength, hshapes, hshape,
    htype, hnoOutput]

end Vocabulary.Covers

/-- Each input has a column of its storage to be collected in. -/
theorem collects_of_ofKernel [Allocator] {k : Kernel} {p q : Prepared} {inputs : List NdArray}
    {s : Storage} {w : Workspace} {mode? : Option Accumulation}
    (h : Workspace.ofKernel k p (inputs.map fun a => a.data.storage) s = .ok w) :
    Evaluation.Collects ⟨q, (inputs.map Operand.array).map Operand.source, mode?⟩ w.staging := by
  intro i c data hc hsource
  rw [(Workspace.initial_of_ofKernel h).staging] at hc
  simp only [List.getElem?_map, Option.map_eq_some_iff] at hc hsource
  obtain ⟨_, ⟨a, ha, rfl⟩, rfl⟩ := hc
  obtain ⟨_, ⟨b, hb, rfl⟩, hsource⟩ := hsource
  obtain rfl := Option.some.inj (ha.symm.trans hb)
  cases hsource
  exact (Column.storage_fresh _ _).symm

/-- An axis that is found is one of the shape. -/
theorem Geometry.lt_of_target? {shape : Shape} {axis? : Option ReductionAxis} {i : Nat}
    (h : target? shape axis? = .ok (some (.axis i))) : i < shape.length := by
  unfold target? at h
  split at h
  · cases h
  · cases h
  · split at h
    · next hi =>
      cases h
      exact ReductionAxis.index?_lt hi
    · cases h

/-- The walks of an accepted request stay in the arrays, whatever the plan is. -/
theorem Accepted.fitted {k : Kernel} {operands : List Operand} {out : NdArray} {g : Geometry}
    (h : Accepted k operands out g) {strides : List (List Nat)}
    (harrays : ∀ o ∈ operands, (o.resolve out).WellFormed) (hout : out.WellFormed)
    (hstrides : (operands.map (Operand.resolve out)).mapM
      (fun a => operandStrides a.shape g.shape) = .ok strides) :
    Evaluation.Fitted (operands.map Operand.source) g strides out.data := by
  obtain ⟨hshapes, htarget, hshape⟩ := h.geometry
  obtain ⟨strides', hmap, hread⟩ := h.exists_strides
  obtain rfl : strides' = strides := Except.ok.inj (hmap.symm.trans hstrides)
  refine ⟨?_, h.outputShape.trans hshape, fun i hi => ?_, ?_⟩
  · rw [List.forall₂_map_left_iff]
    refine ((List.forall₂_and_left _ _).2 ⟨harrays, hread⟩).imp fun o s ⟨ha, hs⟩ => ⟨hs.length, ?_⟩
    intro data hsource is his
    cases o with
    | array a =>
      cases hsource
      exact (hs.dot_eq ha his).2
    | output => cases hsource
  · rw [hi] at htarget
    exact Geometry.lt_of_target? htarget
  · rw [hout.size_eq.1, h.outputShape]

theorem Column.Held.accumulator [Allocator] {v : Vocabulary} {out out' : Column}
    (h : out.Held v out') (k : Kernel) :
    Concur (Column.Held v) (accumulator k out) (accumulator k out') := by
  unfold Lanewise.accumulator
  split
  · exact .ok h
  · next r _ =>
    by_cases hstr : out.elementType = .str
    · have hnone : r.identity? .str = none := by cases r <;> rfl
      rw [← h.toAkin.elementType, hstr, hnone]
      exact .error _
    · obtain rfl := h.toAkin.eq_of_plain hstr
      split
      · exact .error _
      · next c _ =>
        cases hcol : Column.filled c out.elementType out.stringWidth out.size with
        | error e => exact .error e
        | ok col =>
          refine .ok (held_self ?_)
          rwa [elementType, (of_filled hcol).1, ElementType.elementType_storage]

namespace Vocabulary.Covers

variable [Allocator] {v : Vocabulary} {k : Kernel} {inputs inputs' : List NdArray}
  (h : v.Covers k inputs inputs') {P : Prop} {config : EngineConfig}
  (hP : Allocator.limit < config.blockSize * v.width' → P)

include h hP

theorem concludes_evaluatePlan [Scheduler] (hinputs : ∀ a ∈ inputs, a.WellFormed)
    {out out' : NdArray} (hwell : out.WellFormed) (hout : out.data.Held v out'.data)
    {g : Geometry} (haccepted : Accepted k (inputs.map .array) out g) {plan : ExecutionPlan}
    (hfits : g.fits plan = true) :
    Concludes P (Column.Held v) (evaluatePlan config k (inputs.map .array) out g plan)
      (evaluatePlan config k (inputs'.map .array) out' g plan) := by
  have hresolve : ∀ (out : NdArray) (arrays : List NdArray),
      (arrays.map Operand.array).map (Operand.resolve out) = arrays := fun out arrays => by
    rw [List.map_map]
    exact List.map_id _
  have hstrides : inputs.mapM (fun a => operandStrides a.shape g.shape)
      = inputs'.mapM fun a => operandStrides a.shape g.shape := by
    have hmap : ∀ arrays : List NdArray,
        (arrays.map NdArray.shape).mapM (fun shape => operandStrides shape g.shape)
          = arrays.mapM fun a => operandStrides a.shape g.shape := fun _ => List.mapM_map
    rw [← hmap, ← hmap, h.shapes_eq]
  have hsources : List.Forall₂ (Source.Akin v) ((inputs.map Operand.array).map Operand.source)
      ((inputs'.map Operand.array).map Operand.source) := by
    simp only [List.forall₂_map_left_iff, List.forall₂_map_right_iff]
    exact h.arrays.imp fun _ _ hab => .array hab.data
  have hcode : (k.prepare config.blockSize config.boundsCheck
      (inputs.map NdArray.stringWidth)).SameCode (k.prepare config.blockSize config.boundsCheck
        (inputs'.map NdArray.stringWidth)) := ⟨rfl, rfl, rfl, rfl⟩
  have hworkspace := h.withstands_workspace hP hout.roomy
  simp only [evaluatePlan, hresolve, hstrides]
  generalize hx : Workspace.ofKernel k _ _ out.data.storage = x at hworkspace ⊢
  generalize hy : Workspace.ofKernel k _ _ out'.data.storage = y at hworkspace ⊢
  rcases hworkspace with ⟨⟨n, rfl⟩, hrefused⟩ | hworkspace
  · exact .inl ⟨⟨n, rfl⟩, hrefused⟩
  · right
    cases hworkspace with
    | error e => exact ⟨rfl, hout⟩
    | @ok w w' hw =>
      dsimp only
      split
      · exact ⟨rfl, hout⟩
      next strides hfound =>
      have hworkspace : ∀ q q' mode?, w.Akin v ⟨q, _, mode?⟩ ⟨q', _, mode?⟩ w' := fun _ _ _ =>
        ⟨hw.1, hw.2.1, collects_of_ofKernel hx, collects_of_ofKernel hy, hw.2.2⟩
      have hfitted : Evaluation.Fitted ((inputs.map Operand.array).map Operand.source) g strides
          out.data := haccepted.fitted (fun o ho => ?_) hwell ?_
      · exact Evaluation.akin_runPlan hcode hsources (hworkspace _ _) (Workspace.fork_eq hx)
          (Workspace.fork_eq hy) hout hfitted config hfits
      · obtain ⟨a, ha, rfl⟩ := List.mem_map.1 ho
        exact hinputs a ha
      · rw [hresolve, hstrides, hfound]

theorem concludes_evaluateValid [Scheduler] (hinputs : ∀ a ∈ inputs, a.WellFormed)
    {out out' : NdArray} (hwell : out.WellFormed) (hout : out.data.Held v out'.data)
    (hshape : out.shape = out'.shape) (policy : PlanPolicy) :
    Concludes P (fun a b => a.shape = b.shape ∧ a.data.Held v b.data)
      (evaluateValid config policy k (inputs.map .array) out)
      (evaluateValid config policy k (inputs'.map .array) out') := by
  unfold evaluateValid
  rw [← h.planFor_eq hshape hout.toAkin.elementType]
  split
  · exact .inr ⟨rfl, hshape, hout⟩
  · next g plan hplan =>
    obtain ⟨haccepted, hfits, -⟩ := planFor_eq_ok_iff.1 hplan
    have haccumulator := hout.accumulator k
    generalize hx : accumulator k out.data = x at haccumulator ⊢
    generalize accumulator k out'.data = y at haccumulator ⊢
    cases haccumulator with
    | error e => exact .inr ⟨rfl, hshape, hout⟩
    | @ok data data' hdata =>
      have halike := alike_of_accumulator hx
      have hstart : ({ out with data } : NdArray).data.Held v
          ({ out' with data := data' } : NdArray).data := hdata
      have hwell : ({ out with data } : NdArray).WellFormed := hwell.alike rfl halike
      rcases h.concludes_evaluatePlan hP hinputs hwell hstart (haccepted.alike halike) hfits with
        hrefused | ⟨hresult, hend⟩
      · exact .inl hrefused
      · exact .inr ⟨hresult, hshape, hend⟩

omit hP in
/-- The array for the results. -/
theorem withstands_freshOutput (hP : ∀ g, Geometry.ofShapes k (inputs.map NdArray.shape) = .ok g →
    Allocator.limit < size g.outputShape * v.width' → P) :
    Withstands P (fun a b => a.shape = b.shape ∧ a.data.Held v b.data)
      (Engine.freshOutput k inputs) (Engine.freshOutput k inputs') := by
  unfold Engine.freshOutput
  rw [← h.shapes_eq]
  cases hg : Geometry.ofShapes k (inputs.map NdArray.shape) with
  | error e => exact .inr (.error e)
  | ok g =>
    cases houtput : outputType k with
    | error e => exact .inr (.error e)
    | ok t =>
      have ht : k.fullSignature[0]? = some t := by
        unfold outputType at houtput
        split at houtput
        · next hhead =>
          cases houtput
          rwa [← List.head?_eq_getElem?]
        · cases houtput
      have hhead : ∀ l : List Nat, l.headD 0 = l.getD 0 0 := fun l => by cases l <;> rfl
      have hroomy := h.roomy_storage ht (.inl rfl)
      rw [← hhead, ← hhead] at hroomy
      refine Withstands.bind (R := fun m n => m = n ∧ m = size g.outputShape) ?_ ?_
      · cases hsize : g.outputShape.checkedSize with
        | error e => exact .inr (.error e)
        | ok n => exact .inr (.ok ⟨rfl, (Shape.of_checkedSize hsize).1⟩)
      · rintro _ _ ⟨rfl, rfl⟩
        refine (Column.withstands_zeros hroomy h.width_le (hP g hg)).bind fun _ _ hcd => ?_
        exact .inr (.ok ⟨rfl, hcd⟩)

end Vocabulary.Covers

/-- A block of strings, or an output of strings, that memory has no room for. -/
def Engine.Outgrows [Allocator] (engine : Engine) (k : Kernel) (inputs : List NdArray) : Prop :=
  ∃ len, (len = engine.config.blockSize ∨
      ∃ g, Geometry.ofShapes k (inputs.map NdArray.shape) = .ok g ∧ len = size g.outputShape) ∧
    Allocator.limit < len * max (k.widestString (inputs.map NdArray.stringWidth)) 1

namespace Engine

variable {v : Vocabulary} {k : Kernel} {inputs inputs' : List NdArray}

theorem config_of_validate {engine next : Engine} (h : engine.validate k = .ok next) :
    next.config = engine.config := by
  unfold validate at h
  split at h
  · cases h
    rfl
  · split at h <;> cases h
    rfl

/-- **Evaluations over strings at two widths** agree, unless the second one is refused memory. -/
theorem withstands_evaluate [Allocator] [Scheduler] (h : v.Covers k inputs inputs')
    (hinputs : ∀ a ∈ inputs, a.WellFormed) (engine : Engine) :
    Withstands (engine.Outgrows k inputs') (fun a b => a.shape = b.shape ∧ a.data.Held v b.data)
      (engine.evaluate k inputs).1 (engine.evaluate k inputs').1 := by
  have hfresh := h.withstands_freshOutput (P := engine.Outgrows k inputs') fun g hg hlimit =>
    ⟨_, .inr ⟨g, h.shapes_eq ▸ hg, rfl⟩, h.width' ▸ hlimit⟩
  have hblock : Allocator.limit < engine.config.blockSize * v.width' →
      engine.Outgrows k inputs' := fun hlimit => ⟨_, .inl rfl, h.width' ▸ hlimit⟩
  unfold evaluate
  generalize hx : freshOutput k inputs = x at hfresh ⊢
  generalize freshOutput k inputs' = y at hfresh ⊢
  rcases hfresh with ⟨⟨n, rfl⟩, hrefused⟩ | hfresh
  · exact .inl ⟨⟨n, rfl⟩, hrefused⟩
  · cases hfresh with
    | error e => exact .inr (.error e)
    | @ok out out' hout =>
      obtain ⟨hshape, hdata⟩ := hout
      simp only [evaluateInto]
      cases hvalidate : engine.validate k with
      | error e => exact .inr (.error e)
      | ok next =>
        have hroom := config_of_validate hvalidate ▸ hblock
        exact (h.concludes_evaluateValid hroom hinputs (freshOutput_spec hx).1 hdata hshape
          next.policy).withstands

end Engine

end Lanewise
