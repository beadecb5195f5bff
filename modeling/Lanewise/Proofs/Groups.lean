import Lanewise.Proofs.Calls
import Lanewise.Proofs.Folds

/-!
# What reductions compute

An evaluation of a program that ends in a fold has each element of the output
absorb the values of its group (`Geometry.group`), in the order of their positions
(`evaluateValid_absorbs`). Where the program folds values of the type of the output,
an element is the fold of its group. The three loops go over the positions in
different orders, but each of them gives an element its values one after the other.
-/

namespace Lanewise

open Shape (size maxSize)

/-- The positions that go into an element of the output, in the order in which
they are folded. -/
def Geometry.group (g : Geometry) (q : Nat) : List Nat :=
  match g.reduction? with
  | some (.axis axis) => (List.range (g.shape.getD axis 0)).map (g.shape.along axis q)
  | _ => List.range (size g.shape)

/-- Every element holds the fold of the values of its group. -/
def Geometry.FoldsGroups (g : Geometry) {t : ElementType} (combine : t.Value → t.Value → t.Value)
    (first : t.Value) (value : Nat → t.Value) (c : Column) : Prop :=
  ∀ q < c.size, (c.lane q).read? t
    = some ((g.group q).foldl (fun acc p => combine acc (value p)) first)

/-- Every element absorbed the values of its group. -/
def Geometry.AbsorbsGroups (g : Geometry) (start : Column) {t : ElementType}
    (combine : t.Value → t.Value → t.Value) (value : Nat → t.Value) (c : Column) : Prop :=
  ∀ q < c.size, (start.lane q).Absorbs combine ((g.group q).map value) (c.lane q)

section Group

variable {g : Geometry} {t : ElementType} {combine : t.Value → t.Value → t.Value} {first : t.Value}
  {value : Nat → t.Value}

theorem Geometry.group_axis {axis : Nat} (htarget : g.reduction? = some (.axis axis))
    (haxis : axis < g.shape.length) (q : Nat) :
    g.group q = (List.range g.shape[axis]).map (g.shape.along axis q) := by
  rw [group, htarget]
  simp only [List.getD_eq_getElem?_getD, List.getElem?_eq_getElem haxis, Option.getD_some]

/-- A single group has every position. -/
theorem Geometry.group_full (hfits : g.fits .reduceFull = true)
    (haxis : ∀ axis, g.reduction? = some (.axis axis) → axis < g.shape.length) :
    g.group 0 = List.range (size g.shape) := by
  cases htarget : g.reduction? with
  | none => simp [fits, htarget] at hfits
  | some target =>
    cases target with
    | all =>
      rw [group, htarget]
    | axis axis =>
      have hlt := haxis axis htarget
      have hflat : g.shape.length ≤ 1 := by simpa [fits, htarget] using hfits
      obtain ⟨d, hd⟩ : ∃ d, g.shape = [d] := List.length_eq_one_iff.1 (by omega)
      obtain rfl : axis = 0 := by omega
      rw [g.group_axis htarget hlt]
      simp only [hd, Shape.size_singleton, List.getElem_cons_zero]
      exact (List.map_congr_left fun m _ => Shape.along_singleton d m).trans (List.map_id _)

/-- Elements of the type of the values hold the folds of their groups. -/
theorem Geometry.AbsorbsGroups.folds {start c : Column} (h : g.AbsorbsGroups start combine value c)
    (hfirst : ∀ q < c.size, (start.lane q).read? t = some first) (htype : start.elementType = t)
    (hstr : t ≠ .str) : g.FoldsGroups combine first value c := by
  intro q hq
  obtain ⟨-, hstored⟩ := (h q hq).stored (hfirst q hq)
    (Storage.tolerates_of_keeps fun _ _ => Storage.keeps_of_elementType htype hstr _)
  rw [List.foldl_map] at hstored
  rcases hstored with ⟨hempty, hlane⟩ | hwrite
  · rw [hlane, List.map_eq_nil_iff.1 hempty]
    exact hfirst q hq
  · exact Lane.read?_of_write? hwrite htype hstr

end Group

/-- Reducers that combine values of a type start from one of them. -/
theorem Reducer.exists_identity {r : Reducer} {t : ElementType}
    {combine : t.Value → t.Value → t.Value} (h : r.on? t = some combine) :
    t ≠ .str ∧ ∃ c first, r.identity? t = some c ∧ c.value? t = some first := by
  cases r <;> cases t <;> first
    | exact ⟨nofun, _, _, rfl, rfl⟩
    | cases h

/-- A constant that a register stores in its own type is read as the constant is. -/
theorem Constant.read?_of_lane? {c : Constant} {s t : ElementType} {width : Nat} {l : Lane}
    (h : c.lane? s width = some l) (htype : c.elementType = s) (hstr : s ≠ .str) :
    l.read? t = c.value? t := by
  subst htype
  cases c <;> first
    | exact absurd rfl hstr
    | · cases h
        cases t <;> rfl

namespace Request

variable [Allocator] {config : EngineConfig} {k : Kernel} {operands : List Operand} {out : NdArray}
  {g : Geometry} {strides : List (List Nat)} {w : Workspace} {before : List Instruction}
  {last : Instruction} {r : Reducer} {t : ElementType} {combine : t.Value → t.Value → t.Value}

/-- There is a value to fold for each position. -/
theorem exists_foldedValue? (h : Request config k operands out g strides w)
    (hk : k.EndsInFold before last r t) {p : Nat} (hp : p < size g.shape) :
    ∃ v, k.foldedValue? before last t
      (k.stringWidths (operands.map fun o => (o.resolve out).stringWidth))
      (operandLanes operands out g.shape p) out.data.storage = some v := by
  obtain ⟨hinputs, hcells, houtput⟩ := h.typed hp
  have hready : ∀ pre inst post, before = pre ++ inst :: post → ∀ reg ∈ inst.sources,
      k.layout.isWritable reg.toNat = true → reg.toNat ∈ destinations pre ∨
        (k.lanesFrom (k.stringWidths (operands.map fun o => (o.resolve out).stringWidth))
          (operandLanes operands out g.shape p) (.unset out.data.storage)
          fun _ s => .unset s).Holds reg.toNat := by
    intro pre inst post heq reg hreg hw
    refine .inl (hk.writesFirst pre inst (post ++ [last]) ?_ reg hreg hw)
    rw [hk.instructions, heq, List.append_assoc, List.cons_append]
  obtain ⟨lanes, hlanes, htyped, hholds⟩ := Kernel.exists_run_lanesFrom h.valid
    (fun _ => hk.mem_before) (fun _ => hk.isReduction_before h.valid) hinputs hcells houtput
    (fun _ _ => rfl) hready
  have hsources := (h.valid.wellTyped last hk.last_mem).sources
  rw [hk.operation] at hsources
  obtain ⟨reg, _, ⟨found, hfound, haccepts⟩, hnil, hsource⟩ :=
    List.forall₂_cons_right_iff.1 hsources
  obtain rfl := List.forall₂_nil_right_iff.1 hnil
  obtain ⟨l, hl, htype⟩ := htyped _ _ hfound
  have hheld : lanes.Holds reg.toNat := by
    refine hholds _ ?_
    cases hw : k.layout.isWritable reg.toNat with
    | true => exact .inl (hk.writesFirst before last [] hk.instructions reg (by simp [hsource]) hw)
    | false => exact .inr (Kernel.holds_lanesFrom hcells hw)
  obtain ⟨v, hv⟩ := Option.isSome_iff_exists.1
    (Lane.isSome_read? (hheld l hl) (ElementType.accepts_trans htype haccepts))
  refine ⟨v, ?_⟩
  simp only [Kernel.foldedValue?, Kernel.lanes, hlanes, hsource, List.head?_cons, hl,
    Option.bind_eq_bind, Option.bind_some, hv]

/-- A walk supplies the values of the positions that it goes over. -/
theorem supplies (h : Request config k operands out g strides w)
    (hred : k.program.isReduction = true) {mode? : Option Accumulation} {f : List Nat → Strided}
    {shape : Shape} {stop : Nat} {position : Nat → Nat} {value : Nat → t.Value}
    (hvalue : ∀ p < size g.shape, k.foldedValue? before last t
      (k.stringWidths (operands.map fun o => (o.resolve out).stringWidth))
      (operandLanes operands out g.shape p) out.data.storage = some (value p))
    (hposition : ∀ q < stop, position q < size g.shape)
    (hoffset : ∀ q < stop, ∀ o s, o ∈ operands → o.ReadBy out g.shape s →
      (f s).offset shape q = o.position out g.shape (position q)) :
    (evaluationOf config k operands out mode?).Supplies k before last out.data.storage shape
      (strides.map f) stop fun q => value (position q) := by
  intro sink q hq
  rw [h.inputLanes_eq fun o s ho hs => ?_]
  · exact hvalue _ (hposition q hq)
  · rw [h.source_eq hred ho, ← hoffset q hq o s ho hs]
    rfl

/-- Nothing goes into the elements where there is nothing to go over. -/
theorem group_eq_nil (h : Request config k operands out g strides w)
    (hred : k.program.isReduction = true) (hempty : size g.shape = 0) {q : Nat}
    (hq : q < out.data.size) : g.group q = [] := by
  unfold Geometry.group
  split
  · next axis htarget =>
    obtain ⟨haxis, -, hsize⟩ := h.axis_spec hred htarget
    have hgroups : size (g.shape.eraseIdx axis) ≠ 0 := by omega
    rw [Shape.size_eraseIdx haxis] at hempty
    have hlength : g.shape[axis] = 0 := (Nat.mul_eq_zero.1 hempty).resolve_right hgroups
    simp [haxis, hlength]
  · rw [hempty, List.range_zero]

section Plans

variable [Scheduler] (h : Request config k operands out g strides w)
  (hk : k.EndsInFold before last r t) (hcombine : r.on? t = some combine) {value : Nat → t.Value}
  (hvalue : ∀ p < size g.shape, k.foldedValue? before last t
    (k.stringWidths (operands.map fun o => (o.resolve out).stringWidth))
    (operandLanes operands out g.shape p) out.data.storage = some (value p))

include h hk hcombine hvalue

theorem yields_reduceFull (hpos : size g.shape ≠ 0) (hsize : out.data.size = 1)
    (hfits : g.fits .reduceFull = true) :
    Yields config k operands out g strides w .reduceFull
      (g.AbsorbsGroups out.data combine value) := by
  have hred := hk.isReduction h.valid
  let values : Nat → Nat → t.Value := fun _ => value
  have hvalues : (evaluationOf config k operands out (some .single)).Supplies k before last
      out.data.storage g.shape (strides.map (⟨0, ·⟩)) (size g.shape) (values 0) :=
    h.supplies hred hvalue (fun _ hq => hq) fun q hq o s ho hs =>
      (hs.offset_eq (h.arrays o ho) h.countable hq).1
  have hsteps := Evaluation.advances_single (h.serves (some .single) fun _ => rfl) h.inputCount hk
    hcombine ⟨0, List.replicate g.shape.length 0⟩ 0 out.data (fun _ => 0) rfl rfl Nat.one_pos
    hvalues
  have hstart : out.data.Absorbed out.data combine values fun i => if i = 0 then 0 else 0 :=
    (out.data.absorbed_start combine values).congr fun i _ => by rw [ite_self]
  obtain ⟨_, data, hrun, halike, hdata⟩ := h.runPlan_reduceFull hred hpos hsize hsteps hstart
  refine ⟨data, hrun, halike, fun q hq => ?_⟩
  rw [halike.size, hsize] at hq
  obtain rfl : q = 0 := by omega
  rw [g.group_full hfits fun axis htarget => (h.axis_spec hred htarget).1]
  exact hdata 0 (by rw [halike.size]; omega)

theorem yields_reduceInner (hpos : size g.shape ≠ 0) {axis : Nat}
    (htarget : g.reduction? = some (.axis axis)) :
    Yields config k operands out g strides w (.reduceInner axis)
      (g.AbsorbsGroups out.data combine value) := by
  have hred := hk.isReduction h.valid
  obtain ⟨haxis, -, hsize⟩ := h.axis_spec hred htarget
  let values : Nat → Nat → t.Value := fun q m => value (g.shape.along axis q m)
  have hvalues : ∀ group < out.data.size, (evaluationOf config k operands out
      (some .single)).Supplies k before last out.data.storage [g.shape[axis]]
        (strides.map (.alongAxis g.shape axis group)) (size [g.shape[axis]]) (values group) := by
    intro group hgroup
    rw [hsize] at hgroup
    rw [Shape.size_singleton]
    exact h.supplies hred hvalue (fun _ hm => Shape.along_lt haxis hgroup hm) fun m hm o s ho hs =>
      (Strided.offset_alongAxis hs (h.arrays o ho) h.countable haxis hgroup hm).1
  -- the group at work has its first values, groups before it have all
  have hopened : ∀ group i : Nat, (if i = group then 0 else if i < group then g.shape[axis] else 0)
      = if i < group then g.shape[axis] else 0 := by grind
  have hclosed : ∀ group i : Nat, (if i = group then g.shape[axis] else
      if i < group then g.shape[axis] else 0) = if i < group + 1 then g.shape[axis] else 0 := by
    grind
  have hsteps := fun group (hgroup : group < out.data.size) => Evaluation.advances_single
    (h.serves (some .single) fun _ => rfl) h.inputCount hk hcombine ⟨group, [0]⟩ 0 out.data
    (fun i => if i < group then g.shape[axis] else 0) rfl (Nat.sub_zero group) hgroup
    (hvalues group hgroup)
  obtain ⟨data, hrun, halike, hdata⟩ := h.runPlan_reduceInner hred hpos htarget haxis
    (fun group data => data.Absorbed out.data combine values
      fun i => if i < group then g.shape[axis] else 0)
    (fun group data hgroup _ _ hheld => ⟨_, hsteps group hgroup,
      fun _ => hheld.congr fun i _ => (hopened group i).symm,
      fun _ now _ hnow => hnow.congr fun i _ => by rw [Shape.size_singleton, hclosed]⟩)
    ((out.data.absorbed_start combine values).congr fun i _ => (if_neg (Nat.not_lt_zero i)).symm)
  refine ⟨data, hrun, halike, fun q hq => ?_⟩
  rw [g.group_axis htarget haxis, List.map_map]
  have habsorbed := hdata q hq
  rw [halike.size] at hq
  simp only [if_pos hq] at habsorbed
  exact habsorbed

theorem yields_reduceOuter (hmemory : ∀ o ∈ operands, (o.resolve out).data.size < memorySize)
    (hpos : size g.shape ≠ 0) {axis : Nat}
    (htarget : g.reduction? = some (.axis axis)) :
    Yields config k operands out g strides w (.reduceOuter axis)
      (g.AbsorbsGroups out.data combine value) := by
  have hred := hk.isReduction h.valid
  obtain ⟨haxis, -, hsize⟩ := h.axis_spec hred htarget
  obtain ⟨-, -, -, hgroups⟩ := Shape.size_groups hpos h.countable haxis
  let values : Nat → Nat → t.Value := fun q m => value (g.shape.along axis q m)
  have hvalues : ∀ m < g.shape[axis], (evaluationOf config k operands out
      (some .lanewise)).Supplies k before last out.data.storage (g.shape.eraseIdx axis)
        (strides.map (.overGroups axis m)) (size (g.shape.eraseIdx axis)) fun q => values q m :=
    fun m hm => h.supplies hred hvalue (fun _ hq => Shape.along_lt haxis hq hm)
      fun q hq o s ho hs =>
        (Strided.offset_overGroups hs (h.arrays o ho) h.countable haxis hq hm).1
  have hoffset : ∀ p < size (g.shape.eraseIdx axis), Strided.offset
      ⟨0, Shape.contiguousStrides (g.shape.eraseIdx axis)⟩ (g.shape.eraseIdx axis) p = p := by
    intro p hp
    rw [Strided.offset_contiguous 0 hgroups hp, Nat.zero_add]
  have hsteps := fun m (hm : m < g.shape[axis]) => Evaluation.advances_lanewise
    (h.serves (some .lanewise) fun _ => rfl) h.inputCount hk hcombine out.data.size out.data rfl
    hoffset (hvalues m hm)
  obtain ⟨data, hrun, halike, hdata⟩ := h.runPlan_reduceOuter hmemory hred hpos htarget haxis
    (fun m data => data.Absorbed out.data combine values fun _ => m)
    (fun m data hm _ hcount hheld => ⟨_, hsteps m hm,
      fun _ => hheld.congr fun i _ => (if_neg (Nat.not_lt_zero i)).symm,
      fun _ now hnow habsorbed => habsorbed.congr fun i hi => if_pos (by omega)⟩)
    (out.data.absorbed_start combine values)
  refine ⟨data, hrun, halike, fun q hq => ?_⟩
  rw [g.group_axis htarget haxis, List.map_map]
  exact hdata q hq

/-- Every plan that is made for a reduction has the elements absorb the values of
their groups. -/
theorem yields_absorbs {plan : ExecutionPlan}
    (hmemory : ∀ o ∈ operands, (o.resolve out).data.size < memorySize)
    (hfits : g.fits plan = true) (hsuits : g.Suits config operands.length plan) :
    Yields config k operands out g strides w plan (g.AbsorbsGroups out.data combine value) := by
  have hred := hk.isReduction h.valid
  refine h.yields_reduction hred hfits hsuits (fun hempty q hq => ?_) (fun hpos hsize hfull => ?_)
    (fun axis hpos htarget => ?_) fun axis hpos htarget => ?_
  · rw [h.group_eq_nil hred hempty hq]
    exact .nothing
  · exact h.yields_reduceFull hk hcombine hvalue hpos hsize hfull
  · exact h.yields_reduceInner hk hcombine hvalue hpos htarget
  · exact h.yields_reduceOuter hk hcombine hvalue hmemory hpos htarget

end Plans

end Request

/-- What the groups fold to says what the elements are. -/
theorem Geometry.FoldsGroups.unique {g : Geometry} {t : ElementType}
    {combine : t.Value → t.Value → t.Value} {first : t.Value} {value : Nat → t.Value} {a b : Column}
    (ha : g.FoldsGroups combine first value a) (hb : g.FoldsGroups combine first value b)
    (halike : a.Alike b) (htype : a.elementType = t) (hstr : t ≠ .str) : a = b := by
  refine Column.ext_lane halike.storage.symm halike.size.symm fun i hi => ?_
  have hstorage : (a.lane i).storage = (b.lane i).storage := halike.storage.symm
  have hleft := Lane.write?_of_read? (ha i hi) htype hstr
  have hright := Lane.write?_of_read? (hb i (by rwa [halike.size]))
    (htype ▸ congrArg _ halike.storage) hstr
  exact Option.some.inj (hleft.symm.trans ((Lane.write?_congr hstorage _).trans hright))

section Calls

variable {k : Kernel} {operands : List Operand} {out : NdArray} {g : Geometry}
  {before : List Instruction} {last : Instruction} {r : Reducer} {t : ElementType}
  {combine : t.Value → t.Value → t.Value} {first seed : t.Value}

/-- The output of a reduction before its first block: the identity at the type of the
output, which the program may read as a value of another type. -/
theorem read?_accumulator [Allocator] (hk : k.EndsInFold before last r t) (hvalid : k.Valid)
    (hseed : (r.identity? out.elementType).bind (·.value? t) = some seed) {data : Column}
    (hdata : accumulator k out.data = .ok data) :
    out.data.Alike data ∧ ∀ i < data.size, (data.lane i).read? t = some seed := by
  obtain ⟨c, hc, hvalue⟩ := Option.bind_eq_some_iff.1 hseed
  obtain ⟨hreduction, hreducer⟩ := hk.reducer? hvalid
  obtain ⟨halike, hlanes⟩ := of_accumulator hreduction hreducer hc hdata
  obtain ⟨htype, hstr⟩ := Reducer.of_identity? hc
  refine ⟨halike, fun i hi => ?_⟩
  rw [halike.size] at hi
  rw [← hvalue]
  exact Constant.read?_of_lane? (hlanes i hi) htype hstr

theorem exists_accumulator [Allocator] (hk : k.EndsInFold before last r t) (hvalid : k.Valid)
    (hseed : (r.identity? out.elementType).bind (·.value? t) = some seed)
    (hroom : out.data.size * out.data.storage.cellSize ≤ Allocator.limit) :
    ∃ data, accumulator k out.data = .ok data ∧ out.data.Alike data ∧
      ∀ i < data.size, (data.lane i).read? t = some seed := by
  obtain ⟨c, hc, -⟩ := Option.bind_eq_some_iff.1 hseed
  obtain ⟨hreduction, hreducer⟩ := hk.reducer? hvalid
  obtain ⟨data, hdata, -⟩ := accumulator_eq_ok hreduction hreducer hc hroom
  exact ⟨data, hdata, read?_accumulator hk hvalid hseed hdata⟩

/-- Elements of the operands do not depend on the output if none of them is the
output. -/
theorem operandLanes_alike (hinputs : ∀ o ∈ operands, o.isOutput = false) (out : NdArray)
    (data : Column) :
    (operands.map fun o => (o.resolve { out with data }).stringWidth)
        = (operands.map fun o => (o.resolve out).stringWidth) ∧
      ∀ shape p, operandLanes operands { out with data } shape p
        = operandLanes operands out shape p := by
  refine ⟨List.map_congr_left fun o ho => ?_, fun shape p => List.map_congr_left fun o ho => ?_⟩
  all_goals
    cases o with
    | array a => rfl
    | output => cases hinputs _ ho

/-- The value that a program folds for a position of the common shape. -/
def Kernel.valueAt? (k : Kernel) (before : List Instruction) (last : Instruction) (t : ElementType)
    (operands : List Operand) (out : NdArray) (shape : Shape) (p : Nat) : Option t.Value :=
  k.foldedValue? before last t
    (k.stringWidths (operands.map fun o => (o.resolve out).stringWidth))
    (operandLanes operands out shape p) out.data.storage

/-- A fold does not see what the output holds. -/
theorem Kernel.valueAt?_alike (hinputs : ∀ o ∈ operands, o.isOutput = false) {data : Column}
    (halike : out.data.Alike data) (shape : Shape) (p : Nat) :
    k.valueAt? before last t operands { out with data } shape p
      = k.valueAt? before last t operands out shape p := by
  obtain ⟨hwidths, hlanes⟩ := operandLanes_alike hinputs out data
  rw [valueAt?, valueAt?, hwidths, hlanes, halike.storage]

/-- One plan, under one configuration. -/
theorem evaluateValid_absorbs [Allocator] [Scheduler] {config : EngineConfig}
    {policy : PlanPolicy} {plan : ExecutionPlan} (hvalid : k.Valid)
    (hk : k.EndsInFold before last r t) (hcombine : r.on? t = some combine)
    (hseed : (r.identity? out.elementType).bind (·.value? t) = some seed)
    (haccepted : Accepted k operands out g) (hcount : size g.shape ≤ maxSize)
    (hconfig : config.validate = .ok ()) (hout : out.WellFormed)
    (harrays : ∀ o ∈ operands, (o.resolve out).WellFormed) (hroom : HasRoom config k operands out)
    (hplan : policy ⟨g.shape, operands.length, g.reduction?⟩ config = some plan)
    (hfits : g.fits plan = true) (hsuits : g.Suits config operands.length plan) :
    (∀ p < size g.shape, (k.valueAt? before last t operands out g.shape p).isSome) ∧
      ∃ start final, evaluateValid config policy k operands out
          = (.ok (), { out with data := final }) ∧
        out.data.Alike start ∧ out.data.Alike final ∧
        (∀ i < start.size, (start.lane i).read? t = some seed) ∧
        g.AbsorbsGroups start combine
          (fun p => (k.valueAt? before last t operands out g.shape p).getD seed) final := by
  have hred := hk.isReduction hvalid
  obtain ⟨data, hdata, halike, hlanes⟩ :=
    exists_accumulator hk hvalid hseed (hroom.accumulator hred)
  obtain ⟨strides, w, hrequest, hyields⟩ := evaluateValid_eq hvalid haccepted hplan hfits
    (EngineConfig.blockSize_pos hconfig) hout harrays hcount hroom hdata halike
  have hvalueAt : ∀ p, k.valueAt? before last t operands { out with data } g.shape p
      = k.valueAt? before last t operands out g.shape p :=
    Kernel.valueAt?_alike (haccepted.target hred).1 halike g.shape
  have hvalue : ∀ p < size g.shape, (k.valueAt? before last t operands out g.shape p).isSome := by
    intro p hp
    obtain ⟨v, hv⟩ := hrequest.exists_foldedValue? hk hp
    rw [← hvalueAt, Kernel.valueAt?, hv]
    rfl
  have hgiven : ∀ p < size g.shape, k.valueAt? before last t operands { out with data } g.shape p
      = some ((k.valueAt? before last t operands out g.shape p).getD seed) := by
    intro p hp
    obtain ⟨v, hv⟩ := Option.isSome_iff_exists.1 (hvalue p hp)
    rw [hvalueAt, hv, Option.getD_some]
  obtain ⟨final, hrun, hfinal, habsorbs⟩ :=
    hyields _ (hrequest.yields_absorbs hk hcombine hgiven (hroom.alike halike).size_lt hfits hsuits)
  exact ⟨hvalue, data, final, hrun, halike, hfinal, hlanes, habsorbs⟩

/-- One plan for a program that folds values of the type of the output. -/
theorem evaluateValid_folds [Allocator] [Scheduler] {config : EngineConfig}
    {policy : PlanPolicy} {plan : ExecutionPlan} (hvalid : k.Valid)
    (hk : k.EndsInFold before last r t) (hcombine : r.on? t = some combine)
    (hfirst : (r.identity? t).bind (·.value? t) = some first) (htype : out.elementType = t)
    (haccepted : Accepted k operands out g) (hcount : size g.shape ≤ maxSize)
    (hconfig : config.validate = .ok ()) (hout : out.WellFormed)
    (harrays : ∀ o ∈ operands, (o.resolve out).WellFormed) (hroom : HasRoom config k operands out)
    (hplan : policy ⟨g.shape, operands.length, g.reduction?⟩ config = some plan)
    (hfits : g.fits plan = true) (hsuits : g.Suits config operands.length plan) :
    (∀ p < size g.shape, (k.valueAt? before last t operands out g.shape p).isSome) ∧
      ∃ final, evaluateValid config policy k operands out = (.ok (), { out with data := final }) ∧
        out.data.Alike final ∧ g.FoldsGroups combine first
          (fun p => (k.valueAt? before last t operands out g.shape p).getD first) final := by
  obtain ⟨hstr, -⟩ := Reducer.exists_identity hcombine
  obtain ⟨hvalue, start, final, hrun, hstart, hfinal, hlanes, habsorbs⟩ :=
    evaluateValid_absorbs hvalid hk hcombine (by rwa [htype]) haccepted hcount
      hconfig hout harrays hroom hplan hfits hsuits
  have htype' : start.elementType = t :=
    (congrArg Storage.elementType hstart.storage).trans htype
  exact ⟨hvalue, final, hrun, hfinal, habsorbs.folds
    (fun q hq => hlanes q (by rwa [hstart.size, ← hfinal.size])) htype' hstr⟩

end Calls

namespace Engine

section Folds

variable [Allocator] [Scheduler] {engine : Engine} {k : Kernel} {operands : List Operand}
  {out : NdArray} {g : Geometry} {before : List Instruction} {last : Instruction} {r : Reducer}
  {t : ElementType}

/-- A call with a program that ends in a fold of the type of the output leaves in
each element the fold of the values of its group, from the identity on. So does
every plan that can carry out the program, under every configuration. The positions of the
common shape must be countable from left to right. -/
theorem evaluateInto_folds (h : engine.Admits k operands out) (hvalid : k.validate = .ok ())
    (hk : k.EndsInFold before last r t) (htype : out.elementType = t)
    (haccepted : Accepted k operands out g) (hcount : g.shape.size?.isSome) :
    (∃ byte, last.immediate? = some byte ∧
      Geometry.target? g.shape (some (.ofByte byte)) = .ok g.reduction?) ∧
    ∃ (combine : t.Value → t.Value → t.Value) (first : t.Value) (value : Nat → t.Value),
      r.on? t = some combine ∧ (r.identity? t).bind (·.value? t) = some first ∧
      (∀ p < size g.shape, k.valueAt? before last t operands out g.shape p = some (value p)) ∧
      (engine.evaluateInto k operands out).result = .ok () ∧
      (engine.evaluateInto k operands out).output.shape = out.shape ∧
      out.data.Alike (engine.evaluateInto k operands out).output.data ∧
      g.FoldsGroups combine first value (engine.evaluateInto k operands out).output.data ∧
      ∀ config plan, config.validate = .ok () → HasRoom config k operands out →
        g.fits plan = true → g.Suits config operands.length plan →
        evaluateValid config (.fixed plan) k operands out
          = (.ok (), (engine.evaluateInto k operands out).output) := by
  have hkernel := Kernel.valid_of_validate hvalid
  obtain ⟨-, byte, hbyte, haxis⟩ := hkernel.reduction?_eq hk.last_mem (by rw [hk.operation]; rfl)
  obtain ⟨combine, hcombine⟩ := Option.isSome_iff_exists.1 (hk.isSome_on? hkernel)
  obtain ⟨hstr, c, first, hc, hvalue⟩ := Reducer.exists_identity hcombine
  have hfirst : (r.identity? t).bind (·.value? t) = some first := by rw [hc]; exact hvalue
  obtain ⟨n, hn⟩ := Option.isSome_iff_exists.1 hcount
  obtain ⟨rfl, hcountable⟩ := Shape.of_size? hn
  obtain ⟨usual, husual⟩ := PlanPolicy.exists_byThresholds
    ⟨g.shape, operands.length, g.reduction?⟩ engine.config hn
  -- a reduction is never cut into tasks
  obtain ⟨hfits, hsuits⟩ := g.suits_byThresholds husual fun hnone =>
    absurd hnone (haccepted.reduction?_ne_none (hk.isReduction hkernel))
  obtain ⟨hvalues, final, heq, hfinal, hfolds⟩ := evaluateValid_folds hkernel hk hcombine hfirst
    htype haccepted hcountable h.config h.output h.arrays h.room husual hfits hsuits
  obtain ⟨hresult, houtput⟩ := engine.evaluateInto_valid operands out (.inr hvalid)
  rw [hresult, houtput, h.policy, heq]
  refine ⟨⟨byte, hbyte, haxis ▸ haccepted.geometry.2.1⟩, combine, first, _, hcombine, hfirst,
    fun p hp => ?_, rfl, rfl, hfinal, hfolds, fun config plan hconfig hroom hfits hsuits => ?_⟩
  · obtain ⟨v, hv⟩ := Option.isSome_iff_exists.1 (hvalues p hp)
    rw [hv, Option.getD_some]
  · have hfixed : PlanPolicy.fixed plan ⟨g.shape, operands.length, g.reduction?⟩ config
        = some plan := rfl
    obtain ⟨-, final', heq', hfinal', hfolds'⟩ := evaluateValid_folds hkernel hk hcombine hfirst
      htype haccepted hcountable hconfig h.output h.arrays hroom hfixed hfits hsuits
    have hsame : final = final' := hfolds.unique hfolds'
      ⟨hfinal'.storage.trans hfinal.storage.symm, hfinal'.size.trans hfinal.size.symm⟩
      (htype ▸ congrArg Storage.elementType hfinal.storage) hstr
    rw [heq', hsame]

end Folds

end Engine

/-- `mul_lll r2, r1, r1; sum_lln r0, r2, 1` -/
def Kernel.sumSquares : Kernel :=
  ⟨⟨[44, 2, 1, 1, 101, 0, 2, 1]⟩, [.long, .long, .long], [.long], [], 1⟩

namespace Engine

attribute [local instance] Allocator.roomy Scheduler.inOrder

/-- The squares of two rows, summed over one group after the other. -/
theorem evaluateInto_folds_sumSquares :
    ((usual .serial).evaluateInto .sumSquares [.array (.longs [2, 3] [1, 2, 3, 4, 5, 6])]
      (.longs [2] [0, 0])).result = .ok () ∧
    evaluateValid (.withBlockSize .serial 2) (.fixed (.reduceInner 1)) .sumSquares
        [.array (.longs [2, 3] [1, 2, 3, 4, 5, 6])] (.longs [2] [0, 0])
      = (.ok (), ((usual .serial).evaluateInto .sumSquares
          [.array (.longs [2, 3] [1, 2, 3, 4, 5, 6])] (.longs [2] [0, 0])).output) := by
  have hadmits : (usual .serial).Admits .sumSquares [.array (.longs [2, 3] [1, 2, 3, 4, 5, 6])]
      (.longs [2] [0, 0]) := by decide +kernel
  have haccepted : Accepted .sumSquares [.array (.longs [2, 3] [1, 2, 3, 4, 5, 6])]
      (.longs [2] [0, 0]) ⟨[2, 3], some (.axis 1), [2]⟩ := by decide +kernel
  have hprogram : Kernel.sumSquares.EndsInFold Kernel.sumSquares.instructions.dropLast
      (Kernel.sumSquares.instructions.getLast (by decide +kernel)) .sum .long := by decide +kernel
  obtain ⟨-, -, -, -, -, -, -, hresult, -, -, -, hplans⟩ :=
    evaluateInto_folds hadmits (by decide +kernel) hprogram rfl haccepted rfl
  have hpositions : Shape.size [2, 3] ≠ 0 := by decide
  exact ⟨hresult, hplans _ _ rfl (by decide +kernel) rfl hpositions⟩

example : ((usual .serial).evaluateInto .sumSquares
    [.array (.longs [2, 3] [1, 2, 3, 4, 5, 6])] (.longs [2] [0, 0])).output
      = .longs [2] [14, 77] := by decide +kernel

/-- The sum over the common shape of a row and a column of `2 ^ 40` times nothing is that of
no values. The positions of that shape are counted from left to right, and the count does not
get to the extent that is zero. -/
theorem not_evaluateInto_folds : ¬ ∀ (engine : Engine) (k : Kernel) (operands : List Operand)
    (out : NdArray) (g : Geometry) (before : List Instruction) (last : Instruction) (r : Reducer)
    (t : ElementType), engine.Admits k operands out → k.validate = .ok () →
    k.EndsInFold before last r t → out.elementType = t → Accepted k operands out g →
    (engine.evaluateInto k operands out).result = .ok () := by
  intro h
  have hcrash : ((usual .serial).evaluateInto .sumOfSums
      [.array (.longs [1099511627776, 1, 0] []), .array (.longs [1, 1099511627776, 0] [])]
      (.longs [] [0])).result = .error (.crash .overflow) := by decide +kernel
  have haccepted : Accepted .sumOfSums
      [.array (.longs [1099511627776, 1, 0] []), .array (.longs [1, 1099511627776, 0] [])]
      (.longs [] [0]) ⟨[1099511627776, 1099511627776, 0], some .all, []⟩ := by decide +kernel
  have hprogram : Kernel.sumOfSums.EndsInFold Kernel.sumOfSums.instructions.dropLast
      (Kernel.sumOfSums.instructions.getLast (by decide +kernel)) .sum .long := by decide +kernel
  have hok := h (usual .serial) _ _ _ _ _ _ _ _ (by decide +kernel) (by decide +kernel) hprogram
    rfl haccepted
  cases hok.symm.trans hcrash

end Engine

end Lanewise
