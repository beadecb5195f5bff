import Lanewise.Proofs.Axes
import Lanewise.Proofs.Elementwise

/-!
# Reduction plans

The walks of the three plans for reductions stay within their arrays. One walks
over everything (`Request.runPlan_reduceFull`), one along the axis for each group
(`Request.runPlan_reduceInner`), one over all groups for each position of the
axis (`Request.runPlan_reduceOuter`). What the walks do to the output is told by
invariants of their blocks and of the loop around them.
-/

namespace Lanewise

open Shape (size maxSize)

/-! ## What a reduction goes over -/

/-- Reductions have a target in the common shape. -/
theorem Accepted.target {k : Kernel} {operands : List Operand} {out : NdArray} {g : Geometry}
    (h : Accepted k operands out g) (hred : k.program.isReduction = true) :
    (∀ o ∈ operands, o.isOutput = false) ∧
      ((g.reduction? = some .all ∧ out.shape = []) ∨
        ∃ axis, g.reduction? = some (.axis axis) ∧ axis < g.shape.length ∧
          out.shape = g.shape.eraseIdx axis) := by
  constructor
  · intro o ho
    by_contra hnot
    exact h.reading ⟨List.any_eq_true.2 ⟨o, ho, by simpa using hnot⟩, hred⟩
  · obtain ⟨-, htarget, hshape⟩ := h.geometry
    obtain ⟨byte, hbyte⟩ : ∃ byte, k.program.code.getLast? = some byte := by
      cases hcode : k.program.code with
      | nil =>
        simp [Program.isReduction, Program.reduction?, Program.finalOpcode?, Program.length, hcode,
          slotWidth] at hred
      | cons byte rest => exact ⟨_, List.getLast?_eq_some_getLast (List.cons_ne_nil _ _)⟩
    have haxis : k.program.reductionAxis? = some (ReductionAxis.ofByte byte) := by
      rw [Program.reductionAxis?, if_pos hred, hbyte]
      rfl
    rw [haxis] at htarget
    cases hax : ReductionAxis.ofByte byte with
    | all =>
      rw [hax] at htarget
      have htarget : some ReductionTarget.all = g.reduction? := Except.ok.inj htarget
      exact .inl ⟨htarget.symm, by rw [hshape, ← htarget]; rfl⟩
    | axis a =>
      rw [hax] at htarget
      simp only [Geometry.target?] at htarget
      split at htarget
      · next i hi =>
        have htarget : some (ReductionTarget.axis i) = g.reduction? := Except.ok.inj htarget
        exact .inr ⟨i, htarget.symm, ReductionAxis.index?_lt hi, by rw [hshape, ← htarget]; rfl⟩
      · cases htarget

/-- Reductions have a target. -/
theorem Accepted.reduction?_ne_none {k : Kernel} {operands : List Operand} {out : NdArray}
    {g : Geometry} (h : Accepted k operands out g) (hred : k.program.isReduction = true) :
    g.reduction? ≠ none := by
  intro hnone
  rcases (h.target hred).2 with ⟨htarget, -⟩ | ⟨axis, htarget, -⟩ <;>
    cases hnone.symm.trans htarget

/-- The axis of a reduction is one of the common shape, and the output is without it. -/
theorem Accepted.axis_spec {k : Kernel} {operands : List Operand} {out : NdArray} {g : Geometry}
    (h : Accepted k operands out g) (hred : k.program.isReduction = true) {axis : Nat}
    (htarget : g.reduction? = some (.axis axis)) :
    axis < g.shape.length ∧ out.shape = g.shape.eraseIdx axis := by
  rcases (h.target hred).2 with ⟨hall, -⟩ | ⟨i, hi, hlt, hshape⟩
  · rw [htarget] at hall
    cases hall
  · rw [htarget] at hi
    cases hi
    exact ⟨hlt, hshape⟩

/-- Whatever a program does, its walks go well. -/
theorem Evaluation.advances_any {ev : Evaluation} {first : Workspace} {s : Storage} {shape : Shape}
    {target : Strided} {inputs : List Strided} {start stop base len : Nat} :
    ev.Advances k first s shape target inputs start stop base len fun _ _ _ => True :=
  fun _ _ _ _ _ _ _ _ _ _ _ _ _ _ => trivial

namespace Request

variable [Allocator] {config : EngineConfig} {k : Kernel} {operands : List Operand} {out : NdArray}
  {g : Geometry} {strides : List (List Nat)} {w : Workspace} {mode? : Option Accumulation}

/-- No input of a reduction is the output. -/
theorem readsOutput_eq_false (h : Request config k operands out g strides w)
    (hred : k.program.isReduction = true) :
    (evaluationOf config k operands out mode?).readsOutput = false := by
  rw [readsOutput_evaluationOf, List.any_eq_false]
  exact fun o ho => Bool.not_eq_true _ ▸ (h.accepted.target hred).1 o ho

/-- The operands of a reduction lie in arrays. -/
theorem source_eq (h : Request config k operands out g strides w)
    (hred : k.program.isReduction = true) {o : Operand} (ho : o ∈ operands) :
    o.source = .array (o.resolve out).data := by
  have := (h.accepted.target hred).1 o ho
  cases o with
  | array a => rfl
  | output => cases this

/-! ## Walks -/

/-- Strides along an axis. The output stands still. -/
def stridesAlong (axis : Nat) (strides : List (List Nat)) : List (List Nat) :=
  [0] :: strides.map fun s => [s.getD axis 0]

/-- Strides over the groups of an axis. -/
def stridesOver (shape : Shape) (axis : Nat) (strides : List (List Nat)) : List (List Nat) :=
  Shape.contiguousStrides (shape.eraseIdx axis) :: strides.map (·.eraseIdx axis)

/-- An input of a walk reaches its elements, given where it is read. -/
theorem reaches (h : Request config k operands out g strides w)
    (hred : k.program.isReduction = true) {f : List Nat → Strided} {shape : Shape} {p q : Nat}
    (hoffset : ∀ o s, o ∈ operands → o.ReadBy out g.shape s →
      (f s).offset shape q = o.position out g.shape p ∧
        o.position out g.shape p < (o.resolve out).data.size)
    {x : Strided × Source} (hx : x ∈ (strides.map f).zip (operands.map Operand.source))
    {base len : Nat} : x.2.Reaches base len x.1 shape q := by
  obtain ⟨o, s, ho, hs, rfl⟩ := h.exists_operand hx
  obtain ⟨heq, hlt⟩ := hoffset o s ho hs
  simp only [h.source_eq hred ho, Source.Reaches, heq]
  exact hlt

/-- Everything into a single element. -/
theorem walk_full (h : Request config k operands out g strides w)
    (hred : k.program.isReduction = true) :
    (evaluationOf config k operands out (some .single)).Walk g.shape
      ⟨0, List.replicate g.shape.length 0⟩ (strides.map (⟨0, ·⟩)) 0 (size g.shape) 0 1 := by
  have hzero : ∀ s ∈ List.replicate g.shape.length 0, s = 0 := fun s hs =>
    List.eq_of_mem_replicate hs
  have hmax : 0 < maxSize := by decide
  refine ⟨Nat.le_refl _, List.length_replicate, ?_, h.inputCount, fun x hx p _ hp => ?_, ?_, ?_⟩
  · intro op hop
    obtain ⟨s, hs, rfl⟩ := List.mem_map.1 hop
    exact h.length_strides hs
  · exact h.reaches hred
      (fun o s ho hs => hs.offset_eq (h.arrays o ho) h.countable hp) hx
  · exact ⟨fun _ => ⟨h.readsOutput_eq_false hred, Strided.flatStep?_zero hzero _, Nat.le_refl _,
      Nat.one_pos, hmax⟩, fun hmode => absurd rfl hmode⟩
  · rw [List.forall_mem_cons]
    refine ⟨fun block hblock _ hend => ?_, fun op hop block hblock _ hend => ?_⟩
    · exact Strided.counts_still hzero List.length_replicate h.countable hmax hblock hend
    · exact h.counts_inputs
        (fun o s ho hs => hs.counts (h.arrays o ho) h.countable hblock hend) op hop

/-- One group, along the axis. -/
theorem walk_along (h : Request config k operands out g strides w)
    (hred : k.program.isReduction = true) {axis group : Nat} (haxis : axis < g.shape.length)
    (hextent : g.shape[axis] ≤ maxSize) (hgroups : size (g.shape.eraseIdx axis) ≤ maxSize)
    (hgroup : group < size (g.shape.eraseIdx axis)) :
    (evaluationOf config k operands out (some .single)).Walk [g.shape[axis]] ⟨group, [0]⟩
      (strides.map (.alongAxis g.shape axis group)) 0 g.shape[axis] 0
      (size (g.shape.eraseIdx axis)) := by
  have hextentSize := Shape.size_singleton g.shape[axis]
  have hlength : [0].length = [g.shape[axis]].length := rfl
  have hzero : ∀ s ∈ [0], s = 0 := fun s hs => List.mem_singleton.1 hs
  have hmax : group < maxSize := Nat.lt_of_lt_of_le hgroup hgroups
  refine ⟨Nat.le_of_eq hextentSize.symm, rfl, ?_, h.inputCount, fun x hx p _ hp => ?_, ?_, ?_⟩
  · intro op hop
    obtain ⟨s, -, rfl⟩ := List.mem_map.1 hop
    rfl
  · exact h.reaches hred (fun o s ho hs =>
      Strided.offset_alongAxis hs (h.arrays o ho) h.countable haxis hgroup hp) hx
  · exact ⟨fun _ => ⟨h.readsOutput_eq_false hred, Strided.flatStep?_zero hzero _, Nat.zero_le _,
      by rwa [Nat.zero_add], hmax⟩, fun hmode => absurd rfl hmode⟩
  · rw [List.forall_mem_cons]
    refine ⟨fun block hblock _ hend => ?_, fun op hop block hblock _ hend => ?_⟩
    · exact Strided.counts_still hzero hlength (by rwa [hextentSize]) hmax hblock
        (by rwa [hextentSize])
    · exact h.counts_inputs (fun o s ho hs =>
        hs.counts_alongAxis (h.arrays o ho) h.countable haxis hgroup hblock hend) op hop

/-- All groups, at one position of the axis. -/
theorem walk_over (h : Request config k operands out g strides w)
    (hred : k.program.isReduction = true) {axis m : Nat} (haxis : axis < g.shape.length)
    (hm : m < g.shape[axis]) (hgroups : size (g.shape.eraseIdx axis) ≤ maxSize)
    (hmemory : ∀ o ∈ operands, (o.resolve out).data.size < memorySize) :
    (evaluationOf config k operands out (some .lanewise)).Walk (g.shape.eraseIdx axis)
      ⟨0, Shape.contiguousStrides (g.shape.eraseIdx axis)⟩ (strides.map (.overGroups axis m)) 0
      (size (g.shape.eraseIdx axis)) 0 (size (g.shape.eraseIdx axis)) := by
  refine ⟨Nat.le_refl _, Shape.length_contiguousStrides _, ?_, h.inputCount,
    fun x hx p _ hp => ?_, ⟨fun hmode => (by cases hmode), fun _ p _ hp => ?_⟩, ?_⟩
  · intro op hop
    obtain ⟨s, hs, rfl⟩ := List.mem_map.1 hop
    exact Shape.length_eraseIdx (h.length_strides hs)
  · exact h.reaches hred (fun o s ho hs =>
      Strided.offset_overGroups hs (h.arrays o ho) h.countable haxis hp hm) hx
  · rw [Strided.offset_contiguous 0 hgroups hp, Nat.zero_add]
    refine ⟨Nat.zero_le _, by omega, fun q _ hq heq => ?_⟩
    rwa [Strided.offset_contiguous 0 hgroups hq, Nat.zero_add] at heq
  · rw [List.forall_mem_cons]
    refine ⟨fun block hblock _ hend => ?_, fun op hop block hblock _ hend => ?_⟩
    · exact Strided.counts_contiguous hgroups hblock hend
    · exact h.counts_inputs (fun o s ho hs => hs.counts_overGroups (h.arrays o ho) (hmemory o ho)
        h.countable haxis hm hblock hend) op hop

/-! ## Where walks start -/

/-- Offsets of a group, in the output and in every input. -/
theorem offset?_groups (h : Request config k operands out g strides w) {axis group : Nat}
    (haxis : axis < g.shape.length) (hgroups : size (g.shape.eraseIdx axis) ≤ maxSize)
    (hgroup : group < size (g.shape.eraseIdx axis)) :
    ((stridesOver g.shape axis strides).map fun s => (⟨0, s⟩ : Strided)).mapM
        (fun op => op.offset? (g.shape.eraseIdx axis) group)
      = some (group :: strides.map fun s =>
          Strided.offset ⟨0, s.eraseIdx axis⟩ (g.shape.eraseIdx axis) group) := by
  rw [mapM_eq_some_iff, stridesOver, List.map_cons, List.map_map]
  refine .cons ?_ ?_
  · have hoffset := Strided.offset_contiguous 0 hgroups hgroup
    rw [Nat.zero_add] at hoffset
    rw [Strided.offset?_eq_some] <;> rw [hoffset]
    exact Shape.lt_uint64_iff.2 (by omega)
  · rw [List.forall₂_map_left_iff, List.forall₂_map_right_iff, List.forall₂_same]
    intro s hs
    obtain ⟨o, ho, hread⟩ := exists_of_mem_of_forall₂ h.readBy hs
    have hoffset := Strided.offset_overGroups_eq_dot (m := 0) hread.length haxis hgroup hgroups
    rw [Strided.overGroups, Nat.zero_mul] at hoffset
    have hlt := hread.dot_lt (Shape.inBounds_occupied haxis hgroup)
    rw [Shape.size_occupied haxis (by omega)] at hlt
    -- an axis without positions leaves as many places as there are groups
    have hle : max g.shape[axis] 1 * size (g.shape.eraseIdx axis) ≤ maxSize := by
      rcases Nat.le_total g.shape[axis] 1 with hnone | hsome
      · rwa [Nat.max_eq_right hnone, Nat.one_mul]
      · rw [Nat.max_eq_left hsome, ← Shape.size_eraseIdx haxis]
        exact h.countable
    have hfits :
        Strided.offset ⟨0, s.eraseIdx axis⟩ (g.shape.eraseIdx axis) group < UInt64.size := by
      rw [hoffset, Shape.lt_uint64_iff]
      exact Nat.le_of_lt (Nat.lt_of_lt_of_le hlt hle)
    exact Strided.offset?_eq_some hfits

/-- Offsets of a position of the axis. The output has none. -/
theorem checkedProduct_axis (h : Request config k operands out g strides w) {axis m : Nat}
    (haxis : axis < g.shape.length) (hm : m < g.shape[axis])
    (hgroups : 0 < size (g.shape.eraseIdx axis)) :
    (0 :: strides.map (·.getD axis 0)).mapM (fun stride => checkedProduct m stride)
      = some (0 :: strides.map fun s => m * s.getD axis 0) := by
  rw [mapM_eq_some_iff]
  refine .cons (checkedProduct_eq_some_iff.2 ⟨by rw [Nat.mul_zero]; decide, Nat.mul_zero m⟩) ?_
  rw [List.forall₂_map_left_iff, List.forall₂_map_right_iff, List.forall₂_same]
  intro s hs
  obtain ⟨o, ho, hread⟩ := exists_of_mem_of_forall₂ h.readBy hs
  have hoffset := Strided.offset_overGroups hread (h.arrays o ho) h.countable haxis hgroups hm
  have hbase := Strided.base_le_offset (.overGroups axis m s) (g.shape.eraseIdx axis) 0
  have hmax := (h.arrays o ho).size_eq
  simp only [Strided.overGroups] at hbase hoffset
  exact checkedProduct_eq_some (Shape.lt_uint64_iff.2 (by omega))

theorem exists_along (h : Request config k operands out g strides w) (hpos : size g.shape ≠ 0)
    {axis : Nat} (haxis : axis < g.shape.length) :
    ∃ it, Iteration.ofStrides [g.shape[axis]] (stridesAlong axis strides) config.blockSize
        = .ok it ∧
      it.Covers [g.shape[axis]] (stridesAlong axis strides) config.blockSize := by
  obtain ⟨hd, hfits, -, -⟩ := Shape.size_groups hpos h.countable haxis
  rw [← Shape.size_singleton g.shape[axis]] at hd hfits
  obtain ⟨it, hit, hcovers, -⟩ := h.exists_iteration (stridesAlong axis strides) hd hfits
    fun s hs => by
      rcases List.mem_cons.1 hs with rfl | hs
      · rfl
      · obtain ⟨s, -, rfl⟩ := List.mem_map.1 hs
        rfl
  exact ⟨it, hit, hcovers⟩

theorem exists_over (h : Request config k operands out g strides w) (hpos : size g.shape ≠ 0)
    {axis : Nat} (haxis : axis < g.shape.length) :
    ∃ it, Iteration.ofStrides (g.shape.eraseIdx axis) (stridesOver g.shape axis strides)
        config.blockSize = .ok it ∧
      it.Covers (g.shape.eraseIdx axis) (stridesOver g.shape axis strides) config.blockSize ∧
      it.operands = (stridesOver g.shape axis strides).map (⟨0, ·⟩) := by
  obtain ⟨-, -, hgroups, hfits⟩ := Shape.size_groups hpos h.countable haxis
  obtain ⟨it, hit, hcovers, hoperands, -⟩ := h.exists_iteration
    (stridesOver g.shape axis strides) hgroups hfits fun s hs => by
      rcases List.mem_cons.1 hs with rfl | hs
      · exact Shape.length_contiguousStrides _
      · obtain ⟨full, hfull, rfl⟩ := List.mem_map.1 hs
        exact Shape.length_eraseIdx (h.length_strides hfull)
  exact ⟨it, hit, hcovers, hoperands⟩

/-- A loop of whole walks between two of them. -/
structure Looping (config : EngineConfig) (k : Kernel) (out : NdArray) (w : Workspace)
    (shape : Shape) (all : List (List Nat)) (len : Nat) (Holds : Column → Prop) (t : Traversal) :
    Prop where
  course : Traversal.OnCourse k config.blockSize w out.data.storage 0 len t.workspace
    t.sink
  covers : t.iteration.Covers shape all config.blockSize
  holds : Holds t.sink.data

/-- A loop of whole walks over a shape, each from bases of its own. -/
theorem forEach_runFrom (h : Request config k operands out g strides w) (mode : Accumulation)
    (bases? : Nat → Option (List Nat)) (target : Nat → Strided) (f : Nat → List Nat → Strided)
    {shape : Shape} {all : List (List Nat)} {count len : Nat} {Holds : Nat → Column → Prop}
    (hmoved : ∀ i < count, ∃ bases, bases? i = some bases ∧ bases.length = all.length ∧
      Evaluation.operandsAt bases all = target i :: strides.map (f i))
    (hwalk : ∀ i < count, (evaluationOf config k operands out (some mode)).Walk shape (target i)
      (strides.map (f i)) 0 (size shape) 0 len)
    (hstep : ∀ i data, i < count → data.storage = out.data.storage → data.size = len →
      Holds i data → ∃ Inv : Nat → Workspace → Column → Prop,
        (evaluationOf config k operands out (some mode)).Advances k w out.data.storage
          shape (target i) (strides.map (f i)) 0 (size shape) 0 len Inv ∧
        (∀ w₀, Inv 0 w₀ data) ∧
          ∀ w₁ now, now.size = len → Inv (size shape) w₁ now → Holds (i + 1) now)
    {t : Traversal} (ht : Looping config k out w shape all len (Holds 0) t) :
    ∃ t', Evaluation.forEach (fun i => do
        (evaluationOf config k operands out (some mode)).runFrom
          (← liftExcept (counted (bases? i)))) 0 count t = .ok () t' ∧
      Looping config k out w shape all len (Holds count) t' := by
  have hbody : ∀ i t, 0 ≤ i → i < 0 + count → Looping config k out w shape all len (Holds i) t →
      ∃ t', (liftExcept (counted (bases? i)) >>= fun bases =>
          (evaluationOf config k operands out (some mode)).runFrom bases) t = .ok () t' ∧
        Looping config k out w shape all len (Holds (i + 1)) t' := by
    intro i t _ hi ht
    rw [Nat.zero_add] at hi
    obtain ⟨bases, hbases, hlen, hoperands⟩ := hmoved i hi
    obtain ⟨Inv, hadvances, hfirst, hlast⟩ := hstep i t.sink.data hi ht.course.storage
      ht.course.size ht.holds
    obtain ⟨t', hrun, hcourse, hcovers, hinv⟩ := Evaluation.runFrom_eq_ok
      (h.serves (some mode) fun _ => rfl) hlen hoperands (hwalk i hi) hadvances ht.covers ht.course
      (hfirst _)
    refine ⟨t', ?_, hcourse, hcovers, hlast _ _ hcourse.size hinv⟩
    exact TraversalM.bind_eq_ok t
      (TraversalM.liftExcept_eq_ok (counted_eq_ok_iff.2 hbases) t) hrun
  obtain ⟨t', hrun, ht'⟩ := Evaluation.forEach_eq_ok hbody ht
  rw [Nat.zero_add] at ht'
  exact ⟨t', hrun, ht'⟩

/-- The shapes of a reduction along an axis. -/
theorem axis_spec (h : Request config k operands out g strides w)
    (hred : k.program.isReduction = true) {axis : Nat}
    (htarget : g.reduction? = some (.axis axis)) :
    axis < g.shape.length ∧ g.outputShape = g.shape.eraseIdx axis ∧
      out.data.size = size (g.shape.eraseIdx axis) := by
  obtain ⟨hlt, hshape⟩ := h.accepted.axis_spec hred htarget
  exact ⟨hlt, h.accepted.outputShape.trans hshape, by rw [h.output.size_eq.1, hshape]⟩

/-- The axis taken apart for a loop. -/
theorem ofAxis_eq (h : Request config k operands out g strides w)
    (hred : k.program.isReduction = true) {axis : Nat}
    (htarget : g.reduction? = some (.axis axis)) (haxis : axis < g.shape.length) :
    AxisSplit.ofAxis g axis strides = ⟨g.shape.eraseIdx axis, stridesOver g.shape axis strides,
      g.shape[axis], 0 :: strides.map (·.getD axis 0)⟩ := by
  obtain ⟨-, hout, -⟩ := h.axis_spec hred htarget
  exact AxisSplit.ofAxis_eq haxis hout strides

/-! ## Plans -/

section Plans

variable [Scheduler]

/-- One walk over everything. -/
theorem runPlan_reduceFull (h : Request config k operands out g strides w)
    (hred : k.program.isReduction = true) (hpos : size g.shape ≠ 0) (hsize : out.data.size = 1)
    {Inv : Nat → Workspace → Column → Prop}
    (hstep : (evaluationOf config k operands out (some .single)).Advances k w
      out.data.storage g.shape ⟨0, List.replicate g.shape.length 0⟩ (strides.map (⟨0, ·⟩)) 0
      (size g.shape) 0 1 Inv)
    (hinv : Inv 0 w out.data) :
    ∃ w' data, Evaluation.runPlan (k.preparedFor config operands out)
        (operands.map Operand.source) w g strides config .reduceFull out.data = (.ok (), data) ∧
      out.data.Alike data ∧ Inv (size g.shape) w' data := by
  obtain ⟨it, hit, hcovers, hoperands, hposition⟩ := h.exists_iteration
    (List.replicate g.shape.length 0 :: strides) hpos h.countable fun s hs => by
      rcases List.mem_cons.1 hs with rfl | hs
      · exact List.length_replicate
      · exact h.length_strides hs
  let t₀ : Traversal := ⟨w, ⟨out.data, 0⟩, it⟩
  have hcourse₀ : Traversal.OnCourse k config.blockSize w out.data.storage 0 1
      t₀.workspace t₀.sink := ⟨h.usable, rfl, hsize, rfl⟩
  obtain ⟨t, hrun, hcourse, -, hlast⟩ := Evaluation.runPlain_eq_ok
    (h.serves (some .single) fun _ => rfl) (h.walk_full hred) hstep (t := t₀) hcovers.shape_eq
    hoperands hcovers.blockSize_le hcovers.stop_eq hposition (Nat.zero_le _) hcourse₀ hinv
  refine ⟨t.workspace, t.sink.data, ?_, ⟨hcourse.storage, hcourse.size.trans hsize.symm⟩, hlast⟩
  simp only [Evaluation.runPlan, hit]
  exact Evaluation.runSerial_eq_ok hrun

/-- A loop over the groups, with a walk along the axis for each. -/
theorem runPlan_reduceInner (h : Request config k operands out g strides w)
    (hred : k.program.isReduction = true) (hpos : size g.shape ≠ 0) {axis : Nat}
    (htarget : g.reduction? = some (.axis axis)) (haxis : axis < g.shape.length)
    (Holds : Nat → Column → Prop)
    (hstep : ∀ group data, group < out.data.size → data.storage = out.data.storage →
      data.size = out.data.size → Holds group data →
      ∃ Inv : Nat → Workspace → Column → Prop,
        (evaluationOf config k operands out (some .single)).Advances k w
          out.data.storage [g.shape[axis]] ⟨group, [0]⟩
          (strides.map (.alongAxis g.shape axis group)) 0 (size [g.shape[axis]]) 0 out.data.size
          Inv ∧
        (∀ w₀, Inv 0 w₀ data) ∧ ∀ w₁ now, now.size = out.data.size →
          Inv (size [g.shape[axis]]) w₁ now → Holds (group + 1) now)
    (hstart : Holds 0 out.data) :
    ∃ data, Evaluation.runPlan (k.preparedFor config operands out)
        (operands.map Operand.source) w g strides config (.reduceInner axis) out.data
          = (.ok (), data) ∧
      out.data.Alike data ∧ Holds out.data.size data := by
  obtain ⟨-, -, hsize⟩ := h.axis_spec hred htarget
  obtain ⟨hextent, hextentFits, -, hfits⟩ := Shape.size_groups hpos h.countable haxis
  obtain ⟨outer, houter, hover, hoperands⟩ := h.exists_over hpos haxis
  obtain ⟨inner, hinner, halong⟩ := h.exists_along hpos haxis
  have hcourse : Looping config k out w [g.shape[axis]] (stridesAlong axis strides) out.data.size
      (Holds 0) ⟨w, ⟨out.data, 0⟩, inner⟩ := ⟨⟨h.usable, rfl, rfl, rfl⟩, halong, hstart⟩
  obtain ⟨t, hrun, ht⟩ := h.forEach_runFrom .single
    (fun group => outer.operands.mapM fun op => op.offset? outer.shape group)
    (fun group => ⟨group, [0]⟩) (.alongAxis g.shape axis) (fun group hgroup => by
      rw [hsize] at hgroup
      rw [hoperands, hover.shape_eq]
      refine ⟨_, h.offset?_groups haxis hfits hgroup,
        by simp [stridesAlong], ?_⟩
      simp only [Evaluation.operandsAt, stridesAlong, List.zipWith_cons_cons, List.zipWith_map,
        List.zipWith_self]
      rfl)
    (fun group hgroup => by
      rw [hsize] at hgroup ⊢
      rw [Shape.size_singleton]
      exact h.walk_along hred haxis hextentFits hfits hgroup) hstep hcourse
  refine ⟨t.sink.data, ?_, ⟨ht.course.storage, ht.course.size⟩, ht.holds⟩
  have hinner' : Iteration.ofStrides [g.shape[axis]]
      ((0 :: strides.map (·.getD axis 0)).map ([·])) config.blockSize = .ok inner := by
    rw [← hinner, stridesAlong, List.map_cons, List.map_map]
    rfl
  have hcount : outer.size = out.data.size := by rw [Iteration.size, hover.shape_eq, hsize]
  simp only [Evaluation.runPlan, h.ofAxis_eq hred htarget haxis, houter, hinner',
    Evaluation.runReduceInner, hcount]
  exact Evaluation.runSerial_eq_ok hrun

/-- A loop along the axis, with a walk over all groups for each position. -/
theorem runPlan_reduceOuter (h : Request config k operands out g strides w)
    (hmemory : ∀ o ∈ operands, (o.resolve out).data.size < memorySize)
    (hred : k.program.isReduction = true) (hpos : size g.shape ≠ 0) {axis : Nat}
    (htarget : g.reduction? = some (.axis axis)) (haxis : axis < g.shape.length)
    (Holds : Nat → Column → Prop)
    (hstep : ∀ m data, m < g.shape[axis] → data.storage = out.data.storage →
      data.size = out.data.size → Holds m data →
      ∃ Inv : Nat → Workspace → Column → Prop,
        (evaluationOf config k operands out (some .lanewise)).Advances k w
          out.data.storage (g.shape.eraseIdx axis)
          ⟨0, Shape.contiguousStrides (g.shape.eraseIdx axis)⟩ (strides.map (.overGroups axis m)) 0
          (size (g.shape.eraseIdx axis)) 0 out.data.size Inv ∧
        (∀ w₀, Inv 0 w₀ data) ∧ ∀ w₁ now, now.size = out.data.size →
          Inv (size (g.shape.eraseIdx axis)) w₁ now → Holds (m + 1) now)
    (hstart : Holds 0 out.data) :
    ∃ data, Evaluation.runPlan (k.preparedFor config operands out)
        (operands.map Operand.source) w g strides config (.reduceOuter axis) out.data
          = (.ok (), data) ∧
      out.data.Alike data ∧ Holds g.shape[axis] data := by
  obtain ⟨-, -, hsize⟩ := h.axis_spec hred htarget
  obtain ⟨-, -, hgroupCount, hfits⟩ := Shape.size_groups hpos h.countable haxis
  obtain ⟨groups, hgroups, hover, -⟩ := h.exists_over hpos haxis
  have hcourse : Looping config k out w (g.shape.eraseIdx axis) (stridesOver g.shape axis strides)
      out.data.size (Holds 0) ⟨w, ⟨out.data, 0⟩, groups⟩ :=
    ⟨⟨h.usable, rfl, rfl, rfl⟩, hover, hstart⟩
  obtain ⟨t, hrun, ht⟩ := h.forEach_runFrom .lanewise
    (fun m => (0 :: strides.map (·.getD axis 0)).mapM fun stride => checkedProduct m stride)
    (fun _ => ⟨0, Shape.contiguousStrides (g.shape.eraseIdx axis)⟩) (.overGroups axis)
    (fun m hm => by
      refine ⟨_, h.checkedProduct_axis haxis hm (Nat.pos_of_ne_zero hgroupCount),
        by simp [stridesOver], ?_⟩
      simp only [Evaluation.operandsAt, stridesOver, List.zipWith_cons_cons, List.zipWith_map,
        List.zipWith_self]
      rfl)
    (fun m hm => by
      rw [hsize]
      exact h.walk_over hred haxis hm hfits hmemory) hstep hcourse
  refine ⟨t.sink.data, ?_, ⟨ht.course.storage, ht.course.size⟩, ht.holds⟩
  simp only [Evaluation.runPlan, h.ofAxis_eq hred htarget haxis, hgroups]
  exact Evaluation.runSerial_eq_ok hrun

/-- Without operands there is a single position, which one walk goes over. -/
theorem runPlan_constant_reduction (h : Request config k operands out g strides w)
    (hred : k.program.isReduction = true) (hnone : operands.length = 0) :
    size g.shape = 1 ∧ out.data.size = 1 ∧ g.fits .reduceFull = true ∧
      Evaluation.runPlan (k.preparedFor config operands out) (operands.map Operand.source) w
          g strides config .constant out.data =
        Evaluation.runPlan (k.preparedFor config operands out) (operands.map Operand.source) w
          g strides config .reduceFull out.data := by
  obtain rfl := List.length_eq_zero_iff.1 hnone
  obtain ⟨rfl, hshape⟩ := h.of_no_operands
  rcases (h.accepted.target hred).2 with ⟨htarget, hout⟩ | ⟨axis, -, haxis, -⟩
  · have hsize : out.data.size = 1 := by rw [h.output.size_eq.1, hout, Shape.size_nil]
    refine ⟨by rw [hshape, Shape.size_nil], hsize, by simp only [Geometry.fits, htarget], ?_⟩
    simp only [Evaluation.runPlan, hsize, hshape, htarget, ne_eq, not_true_eq_false, if_false,
      Option.map_some, List.length_nil, List.replicate_zero]
  · rw [hshape] at haxis
    cases haxis

/-- A plan goes well and leaves the output as it is asked for. -/
def Yields (config : EngineConfig) (k : Kernel) (operands : List Operand) (out : NdArray)
    (g : Geometry) (strides : List (List Nat)) (w : Workspace) (plan : ExecutionPlan)
    (Result : Column → Prop) : Prop :=
  ∃ data, Evaluation.runPlan (k.preparedFor config operands out) (operands.map Operand.source) w
      g strides config plan out.data = (.ok (), data) ∧
    out.data.Alike data ∧ Result data

/-- Plans for reductions are those of three loops, unless there is nothing to go
over. -/
theorem yields_reduction (h : Request config k operands out g strides w)
    (hred : k.program.isReduction = true) {Result : Column → Prop} {plan : ExecutionPlan}
    (hfits : g.fits plan = true) (hsuits : g.Suits config operands.length plan)
    (hempty : size g.shape = 0 → Result out.data)
    (hfull : size g.shape ≠ 0 → out.data.size = 1 → g.fits .reduceFull = true →
      Yields config k operands out g strides w .reduceFull Result)
    (hinner : ∀ axis, size g.shape ≠ 0 → g.reduction? = some (.axis axis) →
      Yields config k operands out g strides w (.reduceInner axis) Result)
    (houter : ∀ axis, size g.shape ≠ 0 → g.reduction? = some (.axis axis) →
      Yields config k operands out g strides w (.reduceOuter axis) Result) :
    Yields config k operands out g strides w plan Result := by
  obtain ⟨target, htarget⟩ := Option.ne_none_iff_exists'.1 (h.accepted.reduction?_ne_none hred)
  cases plan with
  | constant =>
    obtain ⟨hpos, hsize, hwhole, heq⟩ := h.runPlan_constant_reduction hred hsuits
    unfold Yields
    rw [heq]
    exact hfull (by omega) hsize hwhole
  | empty => exact ⟨out.data, rfl, .refl _, hempty hsuits⟩
  | serial => simp [Geometry.fits, htarget] at hfits
  | parallel threads => simp [Geometry.fits, htarget] at hfits
  | reduceFull =>
    refine hfull hsuits ?_ hfits
    rw [h.output.size_eq.1]
    rcases (h.accepted.target hred).2 with ⟨-, hout⟩ | ⟨axis, haxis, hlt, hout⟩
    · rw [hout, Shape.size_nil]
    · have hflat : g.shape.length ≤ 1 := by simpa [Geometry.fits, haxis] using hfits
      have hgroups : (g.shape.eraseIdx axis).length = 0 := by
        rw [List.length_eraseIdx_of_lt hlt]
        omega
      rw [hout, List.length_eq_zero_iff.1 hgroups, Shape.size_nil]
  | reduceInner axis =>
    cases target with
    | all => simp [Geometry.fits, htarget] at hfits
    | axis i =>
      obtain rfl : axis = i := by simpa [Geometry.fits, htarget] using hfits
      exact hinner axis hsuits htarget
  | reduceOuter axis =>
    cases target with
    | all => simp [Geometry.fits, htarget] at hfits
    | axis i =>
      obtain rfl : axis = i := by simpa [Geometry.fits, htarget] using hfits
      exact houter axis hsuits htarget

/-- Every plan that is made for a request goes well. -/
theorem yields_any (h : Request config k operands out g strides w) {plan : ExecutionPlan}
    (hmemory : ∀ o ∈ operands, (o.resolve out).data.size < memorySize)
    (hfits : g.fits plan = true) (hsuits : g.Suits config operands.length plan) :
    Yields config k operands out g strides w plan fun _ => True := by
  cases hred : k.program.isReduction with
  | false =>
    obtain ⟨data, hrun, halike, -⟩ := h.runPlan_elementwise hred (h.delivers_any hred) hfits hsuits
    exact ⟨data, hrun, halike, trivial⟩
  | true =>
    refine h.yields_reduction hred hfits hsuits (fun _ => trivial) (fun hpos hsize _ => ?_)
      (fun axis hpos htarget => ?_) (fun axis hpos htarget => ?_)
    · obtain ⟨_, data, hrun, halike, -⟩ :=
        h.runPlan_reduceFull hred hpos hsize Evaluation.advances_any trivial
      exact ⟨data, hrun, halike, trivial⟩
    · obtain ⟨haxis, -, -⟩ := h.axis_spec hred htarget
      exact h.runPlan_reduceInner hred hpos htarget haxis (fun _ _ => True)
        (fun _ _ _ _ _ _ =>
          ⟨_, Evaluation.advances_any, fun _ => trivial, fun _ _ _ _ => trivial⟩) trivial
    · obtain ⟨haxis, -, -⟩ := h.axis_spec hred htarget
      exact h.runPlan_reduceOuter hmemory hred hpos htarget haxis (fun _ _ => True)
        (fun _ _ _ _ _ _ =>
          ⟨_, Evaluation.advances_any, fun _ => trivial, fun _ _ _ _ => trivial⟩) trivial

end Plans

end Request

end Lanewise
