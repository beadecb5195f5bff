import Lanewise.Block.InPlace
import Lanewise.Proofs.Block

/-!
# Blocks in place

In memory a program ends as it does on frames, and leaves the same columns
(`Prepared.runStepsInPlace_eq`), with either kind of loop
(`Prepared.runBlockFixed_eq_runBlock`): an instruction never reads what it has
written itself, since it is given the shadow of its own destination. So a block is
executed lane by lane (`Prepared.runBlock_lanes`).
-/

namespace Lanewise

/-! ## Loops -/

namespace Loop

variable {α : Type} {body : Nat → α → Option α}

/-- Once an operand has ended it has no further lanes. -/
def Ends (body : Nat → α → Option α) : Prop :=
  ∀ i j old old', i ≤ j → body i old = none → body j old' = none

/-- A loop up to the end changes every element that is left and reached. -/
theorem getElem?_untilEnd (hends : Ends body) (out : Array α) (i j : Nat) :
    (untilEnd body out i)[j]?
      = if i ≤ j then out[j]?.map fun old => (body j old).getD old else out[j]? := by
  fun_induction untilEnd body out i with
  | case1 out i h value hvalue ih =>
    rw [ih]
    by_cases hj : i = j
    · subst hj
      rw [if_neg (by omega), if_pos (Nat.le_refl i), Array.getElem?_set_self,
        Array.getElem?_eq_getElem h, Option.map_some, hvalue, Option.getD_some]
    · rw [Array.getElem?_set_ne h hj]
      congr 1
      exact propext (by omega)
  | case2 out i h hnone =>
    -- no operand that has ended comes back
    split
    · next hle =>
      cases hold : out[j]? with
      | none => rfl
      | some old => rw [Option.map_some, hends i j _ old hle hnone, Option.getD_none]
    · rfl
  | case3 out i h =>
    split
    · rw [Array.getElem?_eq_none (by omega), Option.map_none]
    · rfl

theorem size_times (body : Nat → α → Option α) (out : Array α) (lanes : Nat) :
    (times body out lanes).size = out.size := by
  induction lanes with
  | zero => rfl
  | succ lanes ih =>
    rw [times]
    split
    · rw [Array.size_setIfInBounds, ih]
    · exact ih

theorem getElem?_times (body : Nat → α → Option α) (out : Array α) (lanes j : Nat) :
    (times body out lanes)[j]?
      = if j < lanes then out[j]?.map fun old => (body j old).getD old else out[j]? := by
  induction lanes generalizing j with
  | zero => rfl
  | succ lanes ih =>
    have hold : (times body out lanes)[lanes]? = out[lanes]? := by
      rw [ih, if_neg (Nat.lt_irrefl lanes)]
    rw [times, hold]
    by_cases hj : j = lanes
    · subst hj
      rw [if_pos (Nat.lt_succ_self j)]
      cases hlane : out[j]? with
      | none => exact hold.trans hlane
      | some old =>
        have hlt : j < (times body out j).size := by
          rw [size_times]
          exact (Array.getElem?_eq_some_iff.1 hlane).1
        rw [Option.bind_some, Option.map_some]
        cases hvalue : body j old with
        | none => exact hold.trans hlane
        | some value => rw [Array.getElem?_setIfInBounds_self_of_lt hlt, Option.getD_some]
    · have hother : (times body out lanes)[j]? =
          if j < lanes + 1 then out[j]?.map fun old => (body j old).getD old else out[j]? := by
        rw [ih]
        congr 1
        exact propext (by omega)
      split
      · rw [Array.getElem?_setIfInBounds_ne (Ne.symm hj), hother]
      · exact hother

theorem ends_getElem? {β : Type} (values : Array β) (f : α → β → α) :
    Ends fun i old => values[i]?.map (f old) := by
  intro i j _ _ hij hnone
  rw [Option.map_eq_none_iff, Array.getElem?_eq_none_iff] at hnone ⊢
  omega

/-- Either way a loop changes the elements that all operands reach. -/
theorem run_eq_mapIdx (loop : Loop) (hasLanes : Nat → Bool) (hends : Ends body) (out : Array α) :
    loop.run hasLanes body out = out.mapIdx fun i old => (body i old).getD old := by
  apply Array.ext_getElem?
  intro j
  rw [Array.getElem?_mapIdx]
  have hend : (untilEnd body out 0)[j]? = out[j]?.map fun old => (body j old).getD old := by
    rw [getElem?_untilEnd hends, if_pos (Nat.zero_le j)]
  cases loop with
  | counted => exact hend
  | fixed lanes =>
    rw [run]
    split
    · next hfits =>
      rw [getElem?_times]
      split
      · rfl
      · next hle => rw [Array.getElem?_eq_none (by omega), Option.map_none]
    · exact hend

end Loop

/-! ## Operands -/

theorem getElem?_extract_of_lt {α : Type} {cells : Array α} {n i : Nat} (hi : i < n) :
    (cells.extract 0 n)[i]? = cells[i]? := by
  rw [Array.getElem?_extract, Nat.zero_add]
  split
  · rfl
  · rw [Array.getElem?_eq_none (by omega)]

/-- A column is read whole or lane by lane. -/
theorem Column.fetch?_head (c : Column) (n : Nat) (t : ElementType) :
    (c.values? t = none ∧ (c.head n).fetch? t = none) ∨
      ∃ lanes values, c.values? t = some lanes ∧ (c.head n).fetch? t = some values ∧
        values.size = min n c.size ∧ ∀ i < n, values[i]? = lanes i := by
  have hhead : (c.head n).fetch? t
      = (c.storage.read? t).map fun read => (c.cells.extract 0 n).map read := rfl
  rw [hhead, values?]
  cases c.storage.read? t with
  | none => exact .inl ⟨rfl, rfl⟩
  | some read =>
    refine .inr ⟨_, _, rfl, rfl, by simp [size], fun i hi => ?_⟩
    rw [Array.getElem?_map, getElem?_extract_of_lt hi]

namespace Operands

/-- An operand that has ended has no further lanes. -/
theorem lane?_eq_none {ts : List ElementType} {operands : Operands ts} {i j : Nat} (hij : i ≤ j)
    (h : operands.lane? i = none) : operands.lane? j = none := by
  induction operands with
  | nil => cases h
  | cons first rest ih =>
    rw [lane?] at h ⊢
    cases hfirst : first[j]? with
    | none => rfl
    | some value =>
      have hj := (Array.getElem?_eq_some_iff.1 hfirst).1
      have hi : first[i]? = some first[i] := Array.getElem?_eq_getElem (by omega)
      rw [hi] at h
      cases hrest : rest.lane? i with
      | none => rw [ih hrest]; rfl
      | some values => rw [hrest] at h; cases h

theorem ends_lane? {α : Type} {ts : List ElementType} (operands : Operands ts)
    (f : Values ts → α) : Loop.Ends fun i (_ : α) => (operands.lane? i).map f := by
  intro i j _ _ hij hnone
  rw [Option.map_eq_none_iff] at hnone ⊢
  exact operands.lane?_eq_none hij hnone

theorem fetch?_head (ts : List ElementType) (cs : List Column) (n : Nat) :
    (Values.ofColumns? ts cs = none ∧ fetch? ts (cs.map fun c => c.head n) = none) ∨
      ∃ lanes operands, Values.ofColumns? ts cs = some lanes ∧
        fetch? ts (cs.map fun c => c.head n) = some operands ∧
        ∀ i < n, operands.lane? i = lanes i := by
  induction ts generalizing cs with
  | nil =>
    cases cs with
    | nil => exact .inr ⟨_, _, rfl, rfl, fun _ _ => rfl⟩
    | cons c cs => exact .inl ⟨rfl, rfl⟩
  | cons t ts ih =>
    cases cs with
    | nil => exact .inl ⟨rfl, rfl⟩
    | cons c cs =>
      rw [List.map_cons, fetch?, Values.ofColumns?]
      rcases c.fetch?_head n t with ⟨hfirst, hfirst'⟩ | ⟨first, first', hfirst, hfirst', -, hlane⟩
      · exact .inl ⟨by rw [hfirst]; rfl, by rw [hfirst']; rfl⟩
      · rw [hfirst, hfirst']
        rcases ih cs with ⟨hrest, hrest'⟩ | ⟨rest, rest', hrest, hrest', hlanes⟩
        · exact .inl ⟨by rw [hrest]; rfl, by rw [hrest']; rfl⟩
        · refine .inr ⟨_, _, by rw [hrest]; rfl, by rw [hrest']; rfl, fun i hi => ?_⟩
          rw [lane?, hlane i hi, hlanes i hi]

end Operands

/-! ## Columns -/

namespace Column

/-- Changed cells of the first lanes, put back where they were. -/
theorem copyFrom_mapIdx (c : Column) (n : Nat) (f : Nat → c.storage.Cell → c.storage.Cell) :
    (c.copyFrom ⟨c.storage, (c.cells.extract 0 n).mapIdx f⟩).1
      = ⟨c.storage, c.cells.mapIdx fun i cell => if i < n then f i cell else cell⟩ := by
  let lanes : Column := ⟨c.storage, (c.cells.extract 0 n).mapIdx f⟩
  have hsize : lanes.size = min n c.size := by simp [lanes, size]
  obtain ⟨-, hcopy⟩ := c.write_replaced lanes 0 rfl (by omega)
  refine hcopy.unique ⟨rfl, by simp [size], fun i hi => ?_, fun j hj => ?_⟩
  · rw [List.length_range', hsize] at hi
    rw [List.getElem_range', Nat.zero_add, Nat.one_mul]
    refine congrArg (Lane.mk c.storage) ?_
    rw [Array.getElem?_mapIdx, Array.getElem?_mapIdx, getElem?_extract_of_lt (by omega)]
    simp only [show i < n by omega, if_true]
  · rw [List.mem_range'_1, hsize] at hj
    refine congrArg (Lane.mk c.storage) ?_
    rw [Array.getElem?_mapIdx]
    by_cases hin : j < c.size
    · simp only [show ¬ j < n by omega, if_false, Option.map_id']
    · rw [Array.getElem?_eq_none (Nat.le_of_not_lt hin), Option.map_none]

/-- Lanes that are changed in place and put back where they were. -/
theorem copyFrom_store? (c : Column) (n : Nat) {t : ElementType}
    {compute : Array t.Value → Array t.Value} {f : Nat → t.Value → t.Value}
    (hcompute : ∀ out, out.size = min n c.size → compute out = out.mapIdx f) :
    ((c.head n).store? t compute).map (fun lanes => (c.copyFrom lanes).1) = c.revise? n t f := by
  have hstore : (c.head n).store? t compute = (do
      let read ← c.storage.read? t
      let write ← c.storage.write? t
      return ⟨c.storage, (compute ((c.cells.extract 0 n).map read)).map write⟩) := rfl
  rw [hstore, revise?]
  cases hread : c.storage.read? t with
  | none => rfl
  | some read =>
    cases hwrite : c.storage.write? t with
    | none => rfl
    | some write =>
      have hcells : (compute ((c.cells.extract 0 n).map read)).map write
          = (c.cells.extract 0 n).mapIdx fun i cell => write (f i (read cell)) := by
        apply Array.ext_getElem?
        intro i
        rw [hcompute _ (by simp [size])]
        simp only [Array.getElem?_map, Array.getElem?_mapIdx, Option.map_map]
        rfl
      refine congrArg some ?_
      rw [hcells]
      exact c.copyFrom_mapIdx n fun i cell => write (f i (read cell))

theorem revise?_congr (c : Column) {n : Nat} {t : ElementType} {f g : Nat → t.Value → t.Value}
    (h : ∀ i < n, f i = g i) : c.revise? n t f = c.revise? n t g := by
  have hcells : ∀ (read : c.storage.Cell → t.Value) (write : t.Value → c.storage.Cell),
      (c.cells.mapIdx fun i cell => if i < n then write (f i (read cell)) else cell)
        = c.cells.mapIdx fun i cell => if i < n then write (g i (read cell)) else cell := by
    intro read write
    refine Array.mapIdx_eq_mapIdx_iff.2 fun i _ => ?_
    split
    · next hi => rw [h i hi]
    · rfl
  simp only [revise?, hcells]

end Column

/-! ## Rules -/

namespace Rule

/-- A fold over the lanes is a fold over the values. -/
theorem foldLanes_eq_foldl {α : Type} (combine : α → α → α) (start : α) {lanes : Nat → Option α}
    (values : Array α) (h : ∀ i < values.size, values[i]? = lanes i) :
    foldLanes combine start lanes values.size = values.foldl combine start := by
  have hsteps : ∀ (xs : List α) (start : α), (List.range xs.length).foldl
      (fun acc i => (xs[i]?.map (combine acc)).getD acc) start = xs.foldl combine start := by
    intro xs
    induction xs with
    | nil => exact fun _ => rfl
    | cons x xs ih =>
      intro start
      rw [List.length_cons, List.range_succ_eq_map, List.foldl_cons, List.foldl_map]
      exact ih (combine start x)
  rw [← Array.foldl_toList, ← hsteps, Array.length_toList, foldLanes]
  refine List.foldl_ext _ _ _ fun acc i hi => ?_
  rw [Array.getElem?_toList, h i (List.mem_range.1 hi)]

/-- It does not matter which loop there is. -/
theorem inPlace?_loop (rule : Rule) (loop loop' : Loop) (mode : Accumulation)
    (sources : List Column) (target : Column) :
    rule.inPlace? loop mode sources target = rule.inPlace? loop' mode sources target := by
  have hrun : ∀ {α : Type} {body : Nat → α → Option α} (hasLanes : Nat → Bool),
      Loop.Ends body → loop.run hasLanes body = loop'.run hasLanes body := by
    intro α body hasLanes hends
    funext out
    rw [loop.run_eq_mapIdx hasLanes hends, loop'.run_eq_mapIdx hasLanes hends]
  cases rule with
  | map arguments result f =>
    refine Option.bind_congr fun operands _ => ?_
    rw [hrun _ (operands.ends_lane? f)]
  | fold t combine =>
    rcases sources with _ | ⟨source, _ | ⟨_, _⟩⟩
    · rfl
    · refine Option.bind_congr fun values _ => ?_
      cases mode with
      | single => rfl
      | lanewise =>
        simp only
        rw [hrun _ (Loop.ends_getElem? values combine)]
    · rfl

/-- In place a rule leaves the lanes that it leaves otherwise. -/
theorem copyFrom_inPlace? (rule : Rule) (loop : Loop) (mode : Accumulation) (n : Nat)
    (sources : List Column) (target : Column) :
    (rule.inPlace? loop mode (sources.map fun c => c.head n) (target.head n)).map
        (fun lanes => (target.copyFrom lanes).1)
      = rule.onColumns? mode n sources target := by
  cases rule with
  | map arguments result f =>
    rw [inPlace?, onColumns?]
    rcases Operands.fetch?_head arguments sources n with
      ⟨hlanes, hoperands⟩ | ⟨lanes, operands, hlanes, hoperands, hlane⟩
    · rw [hlanes, hoperands]
      rfl
    · rw [hlanes, hoperands]
      simp only [Option.bind_eq_bind, Option.bind_some]
      rw [Column.copyFrom_store? target n fun out _ =>
        loop.run_eq_mapIdx _ (operands.ends_lane? f) out]
      refine target.revise?_congr fun i hi => ?_
      rw [hlane i hi]
  | fold t combine =>
    rcases sources with _ | ⟨source, _ | ⟨_, _⟩⟩
    · rfl
    · rw [List.map_singleton, inPlace?, onColumns?]
      rcases source.fetch?_head n t with
        ⟨hlanes, hvalues⟩ | ⟨lanes, values, hlanes, hvalues, hsize, hlane⟩
      · rw [hlanes, hvalues]
        rfl
      · rw [hlanes, hvalues]
        simp only [Option.bind_eq_bind, Option.bind_some]
        cases mode with
        | single =>
          simp only
          rw [← hsize]
          refine Column.copyFrom_store? target n fun out _ => Array.ext_getElem? fun i => ?_
          rw [Array.getElem?_modify, Array.getElem?_mapIdx]
          by_cases hi : i = 0
          · subst hi
            simp only [if_true, foldLanes_eq_foldl combine _ values fun i hi => hlane i (by omega)]
          · simp only [hi, Ne.symm hi, if_false, Option.map_id']
        | lanewise =>
          simp only
          rw [Column.copyFrom_store? target n fun out _ =>
            loop.run_eq_mapIdx _ (Loop.ends_getElem? values combine) out]
          refine target.revise?_congr fun i hi => ?_
          rw [hlane i hi]
    · rfl

end Rule

/-! ## Instructions -/

namespace Frame

variable {frame : Frame} {reg : Nat} {c : Column}

/-- A register can be written to more than once, and gets what is written last. -/
theorem set_set (frame : Frame) (reg : Nat) (c c' : Column) :
    (frame.set reg c).set reg c' = frame.set reg c' := by
  unfold set
  split
  · rfl
  · simp only [RegisterFile.set, Array.setIfInBounds_setIfInBounds]

/-- What a register holds can be put back. -/
theorem set_register? (hw : frame.isWritable reg = true) (hc : frame.register? reg = some c) :
    frame.set reg c = frame := by
  unfold set
  split
  · next h =>
    subst h
    cases hc
    rfl
  · next h =>
    have hcol : frame.registers.columns[reg]? = some c := by
      simpa only [Frame.register?, role?_of_isWritable hw h] using hc
    have hcolumns : frame.registers.columns.setIfInBounds reg c = frame.registers.columns := by
      apply Array.ext_getElem?
      intro r
      rw [Array.getElem?_setIfInBounds]
      split
      · next heq =>
        subst heq
        rw [hcol, if_pos (Array.getElem?_eq_some_iff.1 hcol).1]
      · rfl
    rw [RegisterFile.set, hcolumns]

end Frame

theorem Column.head_head (c : Column) (n : Nat) : (c.head n).head n = c.head n := by
  refine congrArg (Column.mk c.storage) ?_
  change (c.cells.extract 0 n).extract 0 n = c.cells.extract 0 n
  rw [Array.extract_extract, Nat.add_zero, Nat.zero_add, Nat.min_self]

namespace Memory

variable {m : Memory} {n : Nat} {inst : Instruction}

/-- With its destination out of the way, an instruction reads what was there before. -/
theorem mapM_source? (m : Memory) (n : Nat) (inst : Instruction) {target : Column}
    (htarget : m.frame.register? inst.dest.toNat = some target) :
    (inst.sources.mapM fun reg => (m.takeOut n inst target).source? inst.dest.toNat n reg.toNat)
      = (inst.sources.mapM fun reg => m.frame.register? reg.toNat).map
          (List.map fun c => c.head n) := by
  have hsource : ∀ reg ∈ inst.sources,
      (m.takeOut n inst target).source? inst.dest.toNat n reg.toNat
        = (m.frame.register? reg.toNat).map fun c => c.head n := by
    intro reg hreg
    unfold source?
    split
    · next heq =>
      -- the instruction reads its own destination
      obtain rfl : reg = inst.dest := UInt8.toNat_inj.1 heq
      rw [htarget, takeOut, if_pos hreg, Option.map_some, Column.head_head]
    · next hne => rw [takeOut, Frame.register?_set_ne hne]
  generalize inst.sources = regs at hsource
  induction regs with
  | nil => rfl
  | cons reg regs ih =>
    rw [List.mapM_cons, List.mapM_cons, hsource reg (.head _),
      ih fun reg hreg => hsource reg (.tail _ hreg)]
    cases m.frame.register? reg.toNat with
    | none => rfl
    | some c => cases regs.mapM fun reg => m.frame.register? reg.toNat <;> rfl

/-- A computation on lanes of the destination, which is put back behind it. -/
theorem apply_eq (hw : m.frame.isWritable inst.dest.toNat = true) {target : Column}
    (htarget : m.frame.register? inst.dest.toNat = some target)
    (compute : List Column → Column → Option Column) :
    let frame? := (inst.sources.mapM fun reg => m.frame.register? reg.toNat).bind fun sources =>
      (compute (sources.map fun c => c.head n) (target.head n)).map fun lanes =>
        m.frame.set inst.dest.toNat (target.copyFrom lanes).1
    (m.apply n inst compute).1 = frame?.isSome ∧
      (m.apply n inst compute).2.frame = frame?.getD m.frame := by
  unfold apply
  simp only [hw, if_true, htarget, mapM_source? m n inst htarget, Option.bind_eq_bind]
  cases inst.sources.mapM fun reg => m.frame.register? reg.toNat with
  | none =>
    refine ⟨rfl, ?_⟩
    exact (Frame.set_set _ _ _ _).trans (Frame.set_register? hw htarget)
  | some sources =>
    simp only [Option.map_some, Option.bind_some]
    cases compute (sources.map fun c => c.head n) (target.head n) with
    | none => exact ⟨rfl, (Frame.set_set _ _ _ _).trans (Frame.set_register? hw htarget)⟩
    | some lanes => exact ⟨rfl, Frame.set_set _ _ _ _⟩

/-- In place an instruction does to the frame what it does otherwise. -/
theorem execute_eq (m : Memory) (loop : Loop) (mode : Accumulation) (n : Nat)
    (inst : Instruction) :
    (m.execute loop mode n inst).1 = (m.frame.execute? mode n inst).isSome ∧
      (m.execute loop mode n inst).2.frame = (m.frame.execute? mode n inst).getD m.frame := by
  unfold execute
  by_cases hnoop : inst.operation = .noop
  · rw [if_pos hnoop, Frame.execute?, if_pos hnoop]
    exact ⟨rfl, rfl⟩
  rw [if_neg hnoop]
  cases hw : m.frame.isWritable inst.dest.toNat with
  | false =>
    rw [Frame.execute?_of_not_isWritable hnoop hw]
    simp only [apply, hw]
    exact ⟨rfl, rfl⟩
  | true =>
    rw [Frame.execute?_of_isWritable hnoop hw]
    cases htarget : m.frame.register? inst.dest.toNat with
    | none =>
      simp only [apply, hw, htarget, if_true]
      cases inst.sources.mapM fun reg => m.frame.register? reg.toNat <;>
        cases inst.rule? <;> exact ⟨rfl, rfl⟩
    | some target =>
      obtain ⟨hdone, hframe⟩ := apply_eq (n := n) hw htarget fun sources target => do
        let rule ← inst.rule?
        rule.inPlace? (inst.operation.loop loop) mode sources target
      refine ⟨hdone.trans ?_, hframe.trans ?_⟩
      all_goals
        cases inst.sources.mapM fun reg => m.frame.register? reg.toNat with
        | none => rfl
        | some sources =>
          cases inst.rule? with
          | none => rfl
          | some rule =>
            have hcopy := rule.copyFrom_inPlace? (inst.operation.loop loop) mode n sources target
            simp only [Option.bind_eq_bind, Option.bind_some, Option.pure_def, ← hcopy]
            cases rule.inPlace? (inst.operation.loop loop) mode
              (sources.map fun c => c.head n) (target.head n) <;> rfl

end Memory

/-! ## Programs -/

namespace Prepared

variable (p : Prepared) (loop : Loop) (mode? : Option Accumulation) (n : Nat)

theorem stepInPlace_eq (isLast : Bool) (m : Memory) (step : Step) :
    (p.stepInPlace loop mode? n isLast m step).1
        = (p.step mode? n isLast m.frame step).map (fun _ => ()) ∧
      (p.stepInPlace loop mode? n isLast m step).2.frame
        = (p.step mode? n isLast m.frame step).toOption.getD m.frame := by
  cases step with
  | invalid pc => exact ⟨rfl, rfl⟩
  | truncated pc => exact ⟨rfl, rfl⟩
  | execute inst =>
    simp only [stepInPlace, Prepared.step]
    -- the checks before an instruction do not touch anything
    iterate 4
      split
      · exact ⟨rfl, rfl⟩
    obtain ⟨hdone, hframe⟩ := m.execute_eq loop (mode?.getD .lanewise) n inst
    rw [hdone, hframe]
    cases m.frame.execute? (mode?.getD .lanewise) n inst <;> exact ⟨rfl, rfl⟩

/-- In place a run ends as it does otherwise, with the same frame. -/
theorem runStepsInPlace_eq (steps : List Step) (m : Memory) :
    (p.runStepsInPlace loop mode? n steps m).1 = (p.runSteps mode? n steps m.frame).1 ∧
      (p.runStepsInPlace loop mode? n steps m).2.frame
        = (p.runSteps mode? n steps m.frame).2 := by
  induction steps generalizing m with
  | nil => exact ⟨rfl, rfl⟩
  | cons step rest ih =>
    obtain ⟨hresult, hframe⟩ := p.stepInPlace_eq loop mode? n rest.isEmpty m step
    rw [runStepsInPlace, runSteps]
    generalize p.stepInPlace loop mode? n rest.isEmpty m step = outcome at hresult hframe ⊢
    obtain ⟨result, m'⟩ := outcome
    cases hstep : p.step mode? n rest.isEmpty m.frame step with
    | ok frame =>
      rw [hstep] at hresult hframe
      obtain rfl : result = .ok () := hresult
      obtain rfl : m'.frame = frame := hframe
      exact ih m'
    | error e =>
      rw [hstep] at hresult hframe
      obtain rfl : result = .error e := hresult
      exact ⟨rfl, hframe⟩

/-- A block ends the same with either kind of loop, the shadow included. -/
theorem runStepsInPlace_loop (loop' : Loop) (steps : List Step) (m : Memory) :
    p.runStepsInPlace loop mode? n steps m = p.runStepsInPlace loop' mode? n steps m := by
  have hstep : ∀ isLast m step,
      p.stepInPlace loop mode? n isLast m step = p.stepInPlace loop' mode? n isLast m step := by
    intro isLast m step
    cases step with
    | invalid pc => rfl
    | truncated pc => rfl
    | execute inst =>
      have hexecute : m.execute loop (mode?.getD .lanewise) n inst
          = m.execute loop' (mode?.getD .lanewise) n inst := by
        simp only [Memory.execute, Rule.inPlace?_loop _ (inst.operation.loop loop)
          (inst.operation.loop loop')]
      simp only [stepInPlace, hexecute]
  induction steps generalizing m with
  | nil => rfl
  | cons step rest ih => simp only [runStepsInPlace, hstep, ih]

theorem runBlockFixed_eq_runBlock (m : Memory) : p.runBlockFixed mode? n m = p.runBlock mode? n m :=
  p.runStepsInPlace_loop _ mode? n _ _ m

end Prepared

/-! ## Lanes behind the block -/

/-- A rule leaves lanes behind the block alone. -/
theorem Rule.lane_of_onColumns?_of_le {rule : Rule} {mode : Accumulation} {n : Nat}
    {sources : List Column} {target new : Column}
    (h : rule.onColumns? mode n sources target = some new) {j : Nat} (hj : n ≤ j) :
    new.lane j = target.lane j := by
  unfold onColumns? at h
  split at h
  · obtain ⟨_, -, h⟩ := Option.bind_eq_some_iff.1 h
    exact Column.lane_of_revise?_of_le h hj
  · split at h
    · obtain ⟨_, -, h⟩ := Option.bind_eq_some_iff.1 h
      split at h <;> exact Column.lane_of_revise?_of_le h hj
    · cases h

namespace Frame

variable {frame frame' : Frame} {mode : Accumulation} {n : Nat}

theorem lanes_execute?_of_le {inst : Instruction} (h : frame.execute? mode n inst = some frame')
    (hrule : inst.rule?.isSome) {j : Nat} (hj : n ≤ j) : frame'.lanes j = frame.lanes j := by
  obtain ⟨hw, sources, rule, target, new, -, -, htarget, hnew, rfl⟩ := execute?_eq_some h hrule
  rw [lanes_set hw, Rule.lane_of_onColumns?_of_le hnew hj]
  funext reg
  by_cases hreg : reg = inst.dest.toNat
  · rw [hreg, Lanes.set_self, lanes, htarget, Option.map_some]
  · rw [Lanes.set_ne _ _ hreg]

theorem lanes_runAll?_of_le {insts : List Instruction}
    (h : frame.runAll? mode n insts = some frame') (hrule : ∀ inst ∈ insts, inst.rule?.isSome)
    {j : Nat} (hj : n ≤ j) : frame'.lanes j = frame.lanes j := by
  induction insts generalizing frame with
  | nil =>
    cases h
    rfl
  | cons inst insts ih =>
    rw [runAll?_cons] at h
    obtain ⟨next, hnext, hrest⟩ := Option.bind_eq_some_iff.1 h
    rw [ih hrest fun i hi => hrule i (.tail _ hi)]
    exact lanes_execute?_of_le hnext (hrule inst (.head _)) hj

end Frame

/-! ## Lane by lane -/

/-- Registers of a kernel, whatever its temporaries hold by now. -/
def RegisterFile.LaidOut [Allocator] (k : Kernel) (widths : List Nat) (blockSize : Nat)
    (regs : RegisterFile) : Prop :=
  ∃ first, ofKernel k widths blockSize = .ok first ∧
    first.After (List.range' k.layout.firstTemporary k.layout.temporaries) regs

namespace Prepared

/-- A block is executed lane by lane. A valid program without reductions runs over a
block of `n` lanes, and leaves in each of them what the machine of one lane makes of
that lane of all registers. Lanes behind the block stay as they are. Loops that are
made for `n` lanes leave the same. -/
theorem runBlock_lanes [Allocator] {k : Kernel} (hvalid : k.validate = .ok ())
    (hmaps : ∀ inst ∈ k.instructions, inst.operation.isReduction = false)
    {widths : List Nat} {blockSize : Nat} {regs : RegisterFile}
    (hregs : regs.LaidOut k widths blockSize) {n : Nat} (hn : n ≤ blockSize)
    {inputs : List Column} {output : Column}
    (hinputs : List.Forall₂ (fun c t => c.size = n ∧ c.elementType.accepts t = true) inputs
      k.inputSignature)
    (hsize : output.size = n)
    (houtput : ∀ t, k.fullSignature[0]? = some t → output.elementType.accepts t = true)
    (fullBlock : Nat) (boundsCheck : Bool) (inputWidths : List Nat) (mode? : Option Accumulation)
    (shadow : Column) :
    let p := k.prepare fullBlock boundsCheck inputWidths
    let before : Memory := ⟨⟨regs, inputs, output⟩, shadow⟩
    ∃ after : Memory, p.runBlock mode? n before = (.ok (), after) ∧
      p.runBlockFixed mode? n before = (.ok (), after) ∧
      (∀ j < n, (before.frame.lanes j).run? k.instructions = some (after.frame.lanes j)) ∧
      ∀ j, n ≤ j → after.frame.lanes j = before.frame.lanes j := by
  intro p before
  have hk := Kernel.valid_of_validate hvalid
  obtain ⟨first, hfirst, hafter⟩ := hregs
  have hinitial := RegisterFile.initial_of_ofKernel hfirst
  have htyped : before.frame.Typed k.fullSignature k.layout :=
    hk.typed hinitial hafter (hinputs.imp fun _ _ h => h.2) houtput
  have hrules : ∀ inst ∈ k.instructions, inst.rule?.isSome := fun inst hi =>
    (hk.wellTyped inst hi).rule
  obtain ⟨frame, hall⟩ := Option.isSome_iff_exists.1
    (Frame.isSome_runAll? (mode?.getD .lanewise) n htyped hk.wellTyped)
  have hrun : p.runSteps mode? n p.steps before.frame = (.ok (), frame) := by
    have hsteps : p.steps = k.instructions.map .execute := hk.steps
    rw [hsteps]
    have hlayout : before.frame.registers.layout = p.layout :=
      hafter.layout.trans hinitial.layout
    have hcount : p.layout.count?.isSome := Option.isSome_iff_exists.2 ⟨_, hk.count?⟩
    refine runSteps_eq_ok hall hcount hlayout (fun inst => hk.inBounds rfl)
      fun prior inst rest heq hred => ?_
    have hmap := hmaps inst (by rw [heq]; simp)
    rw [hred] at hmap
    cases hmap
  obtain ⟨hresult, hframe⟩ := p.runStepsInPlace_eq .counted mode? n p.steps before
  rw [hrun] at hresult hframe
  have hwide : ∀ inst ∈ k.instructions, before.frame.Wide n inst := fun inst hi =>
    hk.wide hinitial hafter hn hinputs.length_eq
      (fun c hc => by
        obtain ⟨_, -, hcolumn⟩ := exists_of_mem_of_forall₂ hinputs.flip hc
        exact Nat.le_of_eq hcolumn.1.symm) hi fun _ => Nat.le_of_eq hsize.symm
  have hblock : p.runBlock mode? n before = (.ok (), (p.runBlock mode? n before).2) :=
    Prod.ext hresult rfl
  refine ⟨(p.runBlock mode? n before).2, hblock,
    (p.runBlockFixed_eq_runBlock mode? n before).trans hblock, fun j hj => ?_, fun j hj => ?_⟩
  · rw [runBlock, hframe]
    exact Frame.runAll?_lanes hall hwide hrules hmaps hj
  · rw [runBlock, hframe]
    exact Frame.lanes_runAll?_of_le hall hrules hj

attribute [local instance] Allocator.roomy

/-- Adds longs into a 32-bit temporary, which it doubles before it is added to itself:
`add_lll r3, r1, r2; add_lll r3, r3, r3; add_lll r0, r3, r3`. -/
def narrowSum : Kernel :=
  ⟨⟨[42, 3, 1, 2, 42, 3, 3, 3, 42, 0, 3, 3]⟩, [.long, .long, .long, .int], [.long, .long], [], 1⟩

/-- One lane of two, with a sum that does not fit 32 bits and a temporary that was used
before. -/
theorem runBlock_lanes_narrowSum :
    let longs (n : Int64) : Column := ⟨.long, (#[n] : Array Int64)⟩
    let regs : RegisterFile :=
      ⟨narrowSum.layout, #[.empty, .empty, .empty, ⟨.int, (#[7, 8] : Array Int32)⟩], 2⟩
    let p := narrowSum.prepare 2 true []
    let before : Memory := ⟨⟨regs, [longs 0x80000005, longs 1], longs 0⟩, .empty⟩
    ∃ after : Memory, p.runBlockFixed none 1 before = (.ok (), after) ∧
      (before.frame.lanes 0).run? narrowSum.instructions = some (after.frame.lanes 0) ∧
      after.frame.lanes 1 3 = some ⟨.int, some (8 : Int32)⟩ := by
  intro longs regs p before
  let first : RegisterFile :=
    ⟨narrowSum.layout, #[.empty, .empty, .empty, .fresh .int 2], 2⟩
  have hold : first.columns[3]? = some (.fresh .int 2) := rfl
  have hregs : regs.LaidOut narrowSum [] 2 := ⟨first, rfl, .set hold ⟨rfl, rfl⟩⟩
  have hinputs : List.Forall₂ (fun c t => c.size = 1 ∧ c.elementType.accepts t = true)
      [longs 0x80000005, longs 1] narrowSum.inputSignature :=
    .cons ⟨rfl, rfl⟩ (.cons ⟨rfl, rfl⟩ .nil)
  have houtput : ∀ t, narrowSum.fullSignature[0]? = some t →
      (longs 0).elementType.accepts t = true := by
    rintro _ ⟨⟩
    rfl
  obtain ⟨after, -, hrun, hlanes, hbehind⟩ := @runBlock_lanes _ narrowSum (by decide +kernel)
    (by decide +kernel) [] 2 regs hregs 1 (by decide) _ (longs 0) hinputs rfl houtput 2 true []
    none .empty
  exact ⟨after, hrun, hlanes 0 (by decide), congrFun (hbehind 1 (by decide)) 3⟩

end Prepared

end Lanewise
