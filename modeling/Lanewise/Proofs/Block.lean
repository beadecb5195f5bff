import Lanewise.Block
import Lanewise.Proofs.Ready

/-!
# Running a block: success and lanes

A valid program runs over any frame whose columns have the declared types
(`Prepared.run_eq_ok`). What it leaves there is said lane by lane: as long as
instructions map lanes, lane `k` of the frame goes through the machine of one
lane (`Frame.lanes_runAll`), and a fold at the end combines the lanes that the
machine made (`Frame.fold_single`, `Frame.fold_lanewise`).
-/

namespace Lanewise

namespace Frame

/-- `new` is `old` after writes to some registers. -/
structure After (written : List Nat) (old new : Frame) : Prop where
  registers : old.registers.After written new.registers
  inputs : new.inputs = old.inputs
  output : old.output.Alike new.output
  unwritten : 0 ∉ written → new.output = old.output

theorem After.refl (written : List Nat) (frame : Frame) : frame.After written frame :=
  ⟨.refl _ _, rfl, .refl _, fun _ => rfl⟩

theorem After.trans {written : List Nat} {a b c : Frame} (hab : a.After written b)
    (hbc : b.After written c) : a.After written c :=
  ⟨hab.registers.trans hbc.registers, hbc.inputs.trans hab.inputs, hab.output.trans hbc.output,
    fun h => (hbc.unwritten h).trans (hab.unwritten h)⟩

theorem After.mono {written more : List Nat} {a b : Frame} (h : a.After written b)
    (hsub : written ⊆ more) : a.After more b :=
  ⟨h.registers.mono hsub, h.inputs, h.output,
    fun hzero => h.unwritten fun hmem => hzero (hsub hmem)⟩

theorem After.register? {written : List Nat} {old new : Frame} (h : old.After written new)
    {reg : Nat} {c : Column} (hc : old.register? reg = some c) :
    ∃ c', new.register? reg = some c' ∧ c.Alike c' := by
  unfold Frame.register? at hc ⊢
  rw [h.registers.layout]
  split at hc
  · cases hc
  · cases hc
    exact ⟨_, rfl, h.output⟩
  · exact ⟨c, by rw [h.inputs]; exact hc, .refl c⟩
  all_goals exact h.registers.column _ _ hc

/-- The columns of a frame have the types that a signature declares, up to the
width of integers. -/
structure Typed (sig : Signature) (layout : RegisterLayout) (frame : Frame) : Prop where
  layout : frame.registers.layout = layout
  size : frame.registers.size = sig.length
  column : ∀ (reg : Nat) (t : ElementType), sig[reg]? = some t →
    ∃ c, frame.register? reg = some c ∧ c.elementType.accepts t = true

theorem Typed.after {sig : Signature} {layout : RegisterLayout} {written : List Nat}
    {old new : Frame} (h : old.Typed sig layout) (hafter : old.After written new) :
    new.Typed sig layout := by
  refine ⟨hafter.registers.layout.trans h.layout, hafter.registers.size.trans h.size, ?_⟩
  intro reg t ht
  obtain ⟨c, hc, haccepts⟩ := h.column reg t ht
  obtain ⟨c', hc', halike⟩ := hafter.register? hc
  exact ⟨c', hc', (halike.accepts t).trans haccepts⟩

/-! ## One write -/

section Set

variable {frame : Frame} {reg : Nat} {c new : Column}

/-- A register that can be written to is the output or a temporary. -/
theorem role?_of_isWritable (h : frame.isWritable reg = true) (hreg : reg ≠ 0) :
    frame.registers.layout.role? reg = some .temporary := by
  unfold isWritable at h
  rw [Bool.and_eq_true] at h
  exact RegisterLayout.role?_of_isWritable h.1 hreg

theorem After.set (hw : frame.isWritable reg = true) (hc : frame.register? reg = some c)
    (halike : c.Alike new) : frame.After [reg] (frame.set reg new) := by
  unfold Frame.set
  split
  · next h =>
    subst h
    cases hc
    exact ⟨.refl _ _, rfl, halike, fun hzero => absurd (List.mem_singleton.2 rfl) hzero⟩
  · next h =>
    have hcol : frame.registers.columns[reg]? = some c := by
      simpa only [Frame.register?, role?_of_isWritable hw h] using hc
    exact ⟨.set hcol halike, rfl, .refl _, fun _ => rfl⟩

theorem register?_set_self (hw : frame.isWritable reg = true) :
    (frame.set reg new).register? reg = some new := by
  unfold Frame.set
  split
  · next h =>
    subst h
    rfl
  · next h =>
    have hlt : reg < frame.registers.columns.size := by
      unfold isWritable at hw
      rw [Bool.and_eq_true, decide_eq_true_eq] at hw
      exact hw.2
    have hrole := role?_of_isWritable hw h
    simp [Frame.register?, RegisterFile.set, hrole, hlt]

theorem register?_set_ne {r : Nat} (h : r ≠ reg) :
    (frame.set reg new).register? r = frame.register? r := by
  unfold Frame.set
  split
  · next hreg =>
    subst hreg
    unfold Frame.register?
    cases hrole : frame.registers.layout.role? r with
    | none => rfl
    | some role =>
      cases role with
      | output => exact absurd (RegisterLayout.role?_eq_output_iff.1 hrole) h
      | _ => rfl
  · have hcol : (frame.registers.columns.setIfInBounds reg new)[r]?
        = frame.registers.columns[r]? := by
      rw [Array.getElem?_setIfInBounds, if_neg (Ne.symm h)]
    simp only [Frame.register?, RegisterFile.set, hcol]

end Set

/-! ## Lanes of a frame -/

/-- One lane of every register. -/
def lanes (frame : Frame) (k : Nat) : Lanes := fun reg =>
  (frame.register? reg).map fun c => c.lane k

theorem lanes_set {frame : Frame} {reg : Nat} {new : Column} (hw : frame.isWritable reg = true)
    (k : Nat) : (frame.set reg new).lanes k = (frame.lanes k).set reg (new.lane k) := by
  funext r
  by_cases h : r = reg
  · subst h
    rw [Lanes.set_self, lanes, register?_set_self hw]
    rfl
  · rw [Lanes.set_ne _ _ h, lanes, register?_set_ne h]
    rfl

/-- The registers of an instruction have a number of lanes. -/
def Wide (n : Nat) (frame : Frame) (inst : Instruction) : Prop :=
  ∀ reg ∈ inst.dest :: inst.sources, ∃ c, frame.register? reg.toNat = some c ∧ n ≤ c.size

theorem Wide.after {n : Nat} {written : List Nat} {old new : Frame} {inst : Instruction}
    (h : old.Wide n inst) (hafter : old.After written new) : new.Wide n inst := by
  intro reg hreg
  obtain ⟨c, hc, hn⟩ := h reg hreg
  obtain ⟨c', hc', halike⟩ := hafter.register? hc
  exact ⟨c', hc', by rwa [halike.size]⟩

end Frame

/-! ## One instruction -/

theorem Values.isSome_ofColumns?_cons (t : ElementType) (ts : List ElementType) (c : Column)
    (cs : List Column) : (ofColumns? (t :: ts) (c :: cs)).isSome
      = (c.elementType.accepts t && (ofColumns? ts cs).isSome) := by
  rw [← Column.isSome_values?]
  cases hc : c.values? t <;> cases hcs : ofColumns? ts cs <;> simp [ofColumns?, hc, hcs]

theorem Values.isSome_ofColumns? {ts : List ElementType} {cs : List Column}
    (h : List.Forall₂ (fun c t => c.elementType.accepts t = true) cs ts) :
    (ofColumns? ts cs).isSome := by
  induction h with
  | nil => rfl
  | cons hc _ ih => rw [isSome_ofColumns?_cons, hc, ih, Bool.and_self]

/-- Columns that reach a lane have values there. -/
theorem Values.exists_ofColumns?_apply {ts : List ElementType} {cs : List Column}
    {lanes : Nat → Option (Values ts)} (h : ofColumns? ts cs = some lanes) {i : Nat}
    (hi : ∀ c ∈ cs, i < c.size) : ∃ values, lanes i = some values := by
  rw [ofColumns?_apply h]
  induction ts generalizing cs with
  | nil =>
    cases cs with
    | nil => exact ⟨.nil, rfl⟩
    | cons => cases h
  | cons t ts ih =>
    cases cs with
    | nil => cases h
    | cons c cs =>
      simp only [ofColumns?, Option.bind_eq_bind, Option.bind_eq_some_iff] at h
      obtain ⟨first, hfirst, rest, hrest, -⟩ := h
      have hc : c.elementType.accepts t = true := by
        rw [← Column.isSome_values?, hfirst]
        rfl
      obtain ⟨value, hvalue⟩ := Option.isSome_iff_exists.1
        (Lane.isSome_read? (Column.isSome_lane (hi c (by simp))) hc)
      obtain ⟨values, hvalues⟩ := ih hrest fun c hc => hi c (by simp [hc])
      exact ⟨.cons value values, by simp [ofLanes?, hvalue, hvalues]⟩

/-- A rule applies to columns of its types. -/
theorem Rule.isSome_onColumns? {rule : Rule} (mode : Accumulation) (n : Nat)
    {sources : List Column} {target : Column}
    (hsources : List.Forall₂ (fun c t => c.elementType.accepts t = true) sources rule.arguments)
    (htarget : target.elementType.accepts rule.result = true) :
    (rule.onColumns? mode n sources target).isSome := by
  cases rule with
  | map arguments result f =>
    have hsources : List.Forall₂ (fun c t => c.elementType.accepts t = true) sources arguments :=
      hsources
    obtain ⟨lanes, hlanes⟩ := Option.isSome_iff_exists.1 (Values.isSome_ofColumns? hsources)
    simp only [onColumns?, hlanes, Option.bind_eq_bind, Option.bind_some]
    rw [Column.isSome_revise?]
    exact htarget
  | fold t combine =>
    obtain ⟨source, rest, hsource, hrest, rfl⟩ := List.forall₂_cons_right_iff.1 hsources
    obtain rfl := List.forall₂_nil_right_iff.1 hrest
    obtain ⟨lanes, hlanes⟩ :=
      Option.isSome_iff_exists.1 ((Column.isSome_values? source t).trans hsource)
    simp only [onColumns?, hlanes, Option.bind_eq_bind, Option.bind_some]
    cases mode <;>
    · rw [Column.isSome_revise?]
      exact htarget

namespace Frame

variable {sig : Signature} {layout : RegisterLayout} {frame frame' : Frame} {mode : Accumulation}
  {n : Nat} {inst : Instruction}

theorem execute?_of_not_isWritable (hnoop : inst.operation ≠ .noop)
    (hw : frame.isWritable inst.dest.toNat = false) : frame.execute? mode n inst = none := by
  have hguard : (guard (frame.isWritable inst.dest.toNat) : Option Unit) = none :=
    if_neg fun h => Bool.false_ne_true (hw.symm.trans h)
  rw [execute?, if_neg hnoop]
  exact congrArg (Option.bind · _) hguard

theorem execute?_of_isWritable (hnoop : inst.operation ≠ .noop)
    (hw : frame.isWritable inst.dest.toNat = true) :
    frame.execute? mode n inst = do
      let sources ← inst.sources.mapM fun reg => frame.register? reg.toNat
      let rule ← inst.rule?
      let target ← frame.register? inst.dest.toNat
      let target ← rule.onColumns? mode n sources target
      return frame.set inst.dest.toNat target := by
  have hguard : (guard (frame.isWritable inst.dest.toNat) : Option Unit) = some () := if_pos hw
  rw [execute?, if_neg hnoop]
  exact congrArg (Option.bind · _) hguard

/-- The parts of a successful execution. -/
theorem execute?_eq_some_iff (hnoop : inst.operation ≠ .noop) :
    frame.execute? mode n inst = some frame' ↔
      frame.isWritable inst.dest.toNat = true ∧
        ∃ sources rule target new,
          inst.sources.mapM (fun reg => frame.register? reg.toNat) = some sources ∧
          inst.rule? = some rule ∧ frame.register? inst.dest.toNat = some target ∧
          rule.onColumns? mode n sources target = some new ∧
          frame' = frame.set inst.dest.toNat new := by
  cases hw : frame.isWritable inst.dest.toNat with
  | false =>
    rw [execute?_of_not_isWritable hnoop hw]
    simp only [reduceCtorEq, Bool.false_eq_true, false_and]
  | true =>
    rw [execute?_of_isWritable hnoop hw]
    constructor
    · intro h
      obtain ⟨sources, hsources, h⟩ := Option.bind_eq_some_iff.1 h
      obtain ⟨rule, hrule, h⟩ := Option.bind_eq_some_iff.1 h
      obtain ⟨target, htarget, h⟩ := Option.bind_eq_some_iff.1 h
      obtain ⟨new, hnew, h⟩ := Option.bind_eq_some_iff.1 h
      cases h
      exact ⟨rfl, sources, rule, target, new, hsources, hrule, htarget, hnew, rfl⟩
    · rintro ⟨-, sources, rule, target, new, hsources, hrule, htarget, hnew, rfl⟩
      exact Option.bind_eq_some_iff.2 ⟨sources, hsources, Option.bind_eq_some_iff.2
        ⟨rule, hrule, Option.bind_eq_some_iff.2 ⟨target, htarget,
          Option.bind_eq_some_iff.2 ⟨new, hnew, rfl⟩⟩⟩⟩

theorem execute?_eq_some (h : frame.execute? mode n inst = some frame')
    (hrule : inst.rule?.isSome) :
    frame.isWritable inst.dest.toNat = true ∧
      ∃ sources rule target new,
        inst.sources.mapM (fun reg => frame.register? reg.toNat) = some sources ∧
        inst.rule? = some rule ∧ frame.register? inst.dest.toNat = some target ∧
        rule.onColumns? mode n sources target = some new ∧
        frame' = frame.set inst.dest.toNat new := by
  refine (execute?_eq_some_iff fun hnoop => ?_).1 h
  rw [Instruction.rule?, hnoop] at hrule
  cases hrule

theorem layout_execute? (h : frame.execute? mode n inst = some frame') :
    frame'.registers.layout = frame.registers.layout := by
  by_cases hnoop : inst.operation = .noop
  · rw [execute?, if_pos hnoop] at h
    cases h
    rfl
  · obtain ⟨-, _, _, _, _, -, -, -, -, rfl⟩ := (execute?_eq_some_iff hnoop).1 h
    unfold Frame.set
    split <;> rfl

/-- Registers that can be counted are never too many to count. -/
theorem miscounts_eq_false (h : frame.registers.layout.count?.isSome) (inst : Instruction) :
    frame.miscounts inst = false := by
  rw [miscounts, Option.isNone_eq_false_iff.2 h, Bool.false_and]

/-- What an instruction asks for is told by the layout and by which registers exist. -/
theorem miscounts_congr {a b : Frame} (hlayout : b.registers.layout = a.registers.layout)
    (hsize : b.registers.size = a.registers.size)
    (hregs : ∀ reg, (b.register? reg).isSome = (a.register? reg).isSome) (inst : Instruction) :
    b.miscounts inst = a.miscounts inst := by
  have hlooks : ∀ sources, b.looksBehind 0 sources = a.looksBehind 0 sources := by
    intro sources
    induction sources with
    | nil => rfl
    | cons reg rest ih => simp only [looksBehind, hlayout, hregs, ih]
  simp only [miscounts, asksCount, hlayout, hsize, hlooks]

/-- An instruction that validation accepted can be executed. -/
theorem isSome_execute? (hf : frame.Typed sig layout) (hi : inst.WellTyped sig layout)
    (mode : Accumulation) (n : Nat) : (frame.execute? mode n inst).isSome := by
  obtain ⟨rule, hrule⟩ := Option.isSome_iff_exists.1 hi.rule
  obtain ⟨harguments, hresult, -⟩ := Operation.rule?_shape hrule
  have hnoop : inst.operation ≠ .noop := by
    intro hnoop
    rw [hnoop] at hresult
    cases hresult
  obtain ⟨found, hfound, haccepts⟩ := hi.dest _ hresult
  obtain ⟨target, htarget, htype⟩ := hf.column _ _ hfound
  have hw : frame.isWritable inst.dest.toNat = true := by
    have hlt := (List.getElem?_eq_some_iff.1 hfound).1
    rw [isWritable, hf.layout, hi.writable, hf.size]
    simpa using hlt
  have hcolumns : ∃ sources,
      inst.sources.mapM (fun reg => frame.register? reg.toNat) = some sources ∧
      List.Forall₂ (fun c t => c.elementType.accepts t = true) sources rule.arguments := by
    have hsources := hi.sources
    rw [← harguments] at hsources
    generalize inst.sources = regs at hsources
    generalize rule.arguments = ts at hsources
    induction hsources with
    | nil => exact ⟨[], rfl, .nil⟩
    | cons hreg _ ih =>
      obtain ⟨found, hfound, haccepts⟩ := hreg
      obtain ⟨c, hc, htype⟩ := hf.column _ _ hfound
      obtain ⟨sources, hsources, htypes⟩ := ih
      exact ⟨c :: sources, by simp [List.mapM_cons, hc, hsources],
        .cons (ElementType.accepts_trans htype haccepts) htypes⟩
  obtain ⟨sources, hsources, htypes⟩ := hcolumns
  obtain ⟨new, hnew⟩ := Option.isSome_iff_exists.1 (Rule.isSome_onColumns? mode n
    htypes (ElementType.accepts_trans htype haccepts))
  exact Option.isSome_iff_exists.2 ⟨_, (execute?_eq_some_iff hnoop).2
    ⟨hw, sources, rule, target, new, hsources, hrule, htarget, hnew, rfl⟩⟩

theorem After.execute (h : frame.execute? mode n inst = some frame') (hrule : inst.rule?.isSome) :
    frame.After [inst.dest.toNat] frame' := by
  obtain ⟨hw, sources, rule, target, new, -, -, htarget, hnew, rfl⟩ := execute?_eq_some h hrule
  exact .set hw htarget ⟨Rule.storage_of_onColumns? hnew, Rule.size_of_onColumns? hnew⟩

/-- Reading the sources of one lane. -/
theorem sources?_lanes {sources : List Column}
    (h : inst.sources.mapM (fun reg => frame.register? reg.toNat) = some sources) (k : Nat) :
    (frame.lanes k).sources? inst = some (sources.map fun c => c.lane k) := by
  unfold Lanes.sources? lanes
  rw [mapM_eq_some_iff] at h ⊢
  rw [List.forall₂_map_right_iff]
  exact h.imp fun _ _ hc => by simp [hc]

/-- An instruction that maps lanes does in each lane what the machine of one lane
does. -/
theorem execute?_lanes (hwide : frame.Wide n inst) (h : frame.execute? mode n inst = some frame')
    (hrule : inst.rule?.isSome) (hmap : inst.operation.isReduction = false) {k : Nat} (hk : k < n) :
    (frame.lanes k).execute? inst = some (frame'.lanes k) := by
  obtain ⟨hw, sources, rule, target, new, hsources, hr, htarget, hnew, rfl⟩ :=
    execute?_eq_some h hrule
  rw [lanes_set hw]
  cases rule with
  | fold t combine =>
    have hfold : true = inst.operation.isReduction := (Operation.rule?_shape hr).2.2
    rw [hmap] at hfold
    cases hfold
  | map arguments result f =>
    simp only [Rule.onColumns?, Option.bind_eq_bind, Option.bind_eq_some_iff] at hnew
    obtain ⟨values, hvalues, hrevise⟩ := hnew
    obtain ⟨target', htarget', hsize⟩ := hwide _ (.head _)
    obtain rfl : target = target' := Option.some.inj (htarget.symm.trans htarget')
    obtain ⟨old, -, hwrite⟩ := Column.lane_of_revise? hrevise hk (Nat.lt_of_lt_of_le hk hsize)
    have hreach : ∀ c ∈ sources, k < c.size := by
      intro c hc
      obtain ⟨reg, hmem, hreg⟩ := exists_of_mem_of_forall₂ (mapM_eq_some_iff.1 hsources) hc
      obtain ⟨c', hc', hn⟩ := hwide reg (.tail _ hmem)
      obtain rfl : c = c' := Option.some.inj (hreg.symm.trans hc')
      exact Nat.lt_of_lt_of_le hk hn
    obtain ⟨value, hvalue⟩ := Values.exists_ofColumns?_apply hvalues hreach
    rw [hvalue] at hwrite
    rw [Values.ofColumns?_apply hvalues] at hvalue
    have hlane : frame.lanes k inst.dest.toNat = some (target.lane k) := by
      simp [lanes, htarget]
    have hwrite' : (target.lane k).write? result (f value) = some (new.lane k) := hwrite
    simp [Lanes.execute?, sources?_lanes hsources, hr, hvalue, hlane, hwrite']

/-- The parts of a fold into the output. -/
theorem execute?_fold (h : frame.execute? mode n inst = some frame') {t : ElementType}
    {combine : t.Value → t.Value → t.Value} (hr : inst.rule? = some (.fold t combine))
    (hdest : inst.dest = 0) :
    ∃ reg source values, inst.sources = [reg] ∧ frame.register? reg.toNat = some source ∧
      source.values? t = some values ∧
      (Rule.fold t combine).onColumns? mode n [source] frame.output = some frame'.output := by
  obtain ⟨hw, sources, rule, target, new, hsources, hr', htarget, hnew, rfl⟩ :=
    execute?_eq_some h (by simp [hr])
  obtain rfl : Rule.fold t combine = rule := Option.some.inj (hr.symm.trans hr')
  rw [hdest] at htarget ⊢
  cases htarget
  cases sources with
  | nil => cases hnew
  | cons source rest =>
    cases rest with
    | cons _ _ => cases hnew
    | nil =>
      obtain ⟨reg, regs, hreg, hregs, hsrc⟩ :=
        List.forall₂_cons_right_iff.1 (mapM_eq_some_iff.1 hsources)
      obtain rfl := List.forall₂_nil_right_iff.1 hregs
      obtain ⟨values, hvalues, -⟩ := Option.bind_eq_some_iff.1 hnew
      exact ⟨reg, source, values, hsrc, hreg, hvalues, hnew⟩

/-- A fold of every lane of its source into the first element of the output. -/
theorem execute?_single (h : frame.execute? .single n inst = some frame') {t : ElementType}
    {combine : t.Value → t.Value → t.Value} (hr : inst.rule? = some (.fold t combine))
    (hdest : inst.dest = 0) (hn : 0 < n) (hsize : 0 < frame.output.size) :
    ∃ reg source old, inst.sources = [reg] ∧ frame.register? reg.toNat = some source ∧
      (frame.output.lane 0).read? t = some old ∧
      (frame.output.lane 0).write? t (Rule.foldLanes combine old
        (fun k => (source.lane k).read? t) (min n source.size)) = some (frame'.output.lane 0) := by
  obtain ⟨reg, source, values, hsrc, hreg, hvalues, hnew⟩ := execute?_fold h hr hdest
  have hread : values = fun k => (source.lane k).read? t :=
    funext fun k => Column.values?_apply hvalues k
  simp only [Rule.onColumns?, hvalues, Option.bind_eq_bind, Option.bind_some] at hnew
  obtain ⟨old, hold, hwrite⟩ := Column.lane_of_revise? hnew hn hsize
  rw [if_pos rfl, hread] at hwrite
  exact ⟨reg, source, old, hsrc, hreg, hold, hwrite⟩

/-- A fold of each lane of its source into its own element of the output. -/
theorem execute?_lanewise (h : frame.execute? .lanewise n inst = some frame') {t : ElementType}
    {combine : t.Value → t.Value → t.Value} (hr : inst.rule? = some (.fold t combine))
    (hdest : inst.dest = 0) :
    ∃ reg source, inst.sources = [reg] ∧ frame.register? reg.toNat = some source ∧
      ∀ k value, k < n → k < frame.output.size → (source.lane k).read? t = some value →
        ∃ old, (frame.output.lane k).read? t = some old ∧
          (frame.output.lane k).write? t (combine old value) = some (frame'.output.lane k) := by
  obtain ⟨reg, source, values, hsrc, hreg, hvalues, hnew⟩ := execute?_fold h hr hdest
  refine ⟨reg, source, hsrc, hreg, fun k value hk hsize hvalue => ?_⟩
  simp only [Rule.onColumns?, hvalues, Option.bind_eq_bind, Option.bind_some] at hnew
  obtain ⟨old, hold, hwrite⟩ := Column.lane_of_revise? hnew hk hsize
  rw [Column.values?_apply hvalues, hvalue] at hwrite
  exact ⟨old, hold, hwrite⟩

end Frame

/-! ## Programs -/

namespace Frame

/-- Instructions in order. -/
def runAll? (frame : Frame) (mode : Accumulation) (n : Nat) (insts : List Instruction) :
    Option Frame :=
  insts.foldlM (fun frame inst => frame.execute? mode n inst) frame

variable {sig : Signature} {layout : RegisterLayout} {frame frame' : Frame} {mode : Accumulation}
  {n : Nat} {insts : List Instruction}

theorem runAll?_cons {inst : Instruction} : frame.runAll? mode n (inst :: insts) =
    (frame.execute? mode n inst).bind fun next => next.runAll? mode n insts := rfl

theorem runAll?_append {rest : List Instruction} : frame.runAll? mode n (insts ++ rest) =
    (frame.runAll? mode n insts).bind fun next => next.runAll? mode n rest := by
  simp [runAll?, List.foldlM_append]

theorem After.runAll (h : frame.runAll? mode n insts = some frame')
    (hrule : ∀ inst ∈ insts, inst.rule?.isSome) : frame.After (destinations insts) frame' := by
  induction insts generalizing frame with
  | nil =>
    cases h
    exact .refl _ _
  | cons inst insts ih =>
    rw [runAll?_cons] at h
    obtain ⟨next, hnext, hrest⟩ := Option.bind_eq_some_iff.1 h
    have hfirst := After.execute hnext (hrule inst (.head _))
    refine (hfirst.mono ?_).trans ((ih hrest fun i hi => hrule i (.tail _ hi)).mono ?_)
    · simp [destinations]
    · exact List.subset_cons_self _ _

theorem isSome_runAll? (mode : Accumulation) (n : Nat) (hf : frame.Typed sig layout)
    (hi : ∀ inst ∈ insts, inst.WellTyped sig layout) : (frame.runAll? mode n insts).isSome := by
  induction insts generalizing frame with
  | nil => rfl
  | cons inst insts ih =>
    have hinst := hi inst (.head _)
    obtain ⟨next, hnext⟩ := Option.isSome_iff_exists.1 (isSome_execute? hf hinst mode n)
    rw [runAll?_cons, hnext]
    exact ih (hf.after (.execute hnext hinst.rule)) fun i hi' => hi i (.tail _ hi')

/-- Instructions that map lanes do in each lane what the machine of one lane
does. -/
theorem runAll?_lanes (h : frame.runAll? mode n insts = some frame')
    (hwide : ∀ inst ∈ insts, frame.Wide n inst) (hrule : ∀ inst ∈ insts, inst.rule?.isSome)
    (hmap : ∀ inst ∈ insts, inst.operation.isReduction = false) {k : Nat} (hk : k < n) :
    (frame.lanes k).run? insts = some (frame'.lanes k) := by
  induction insts generalizing frame with
  | nil =>
    cases h
    rfl
  | cons inst insts ih =>
    rw [runAll?_cons] at h
    obtain ⟨next, hnext, hrest⟩ := Option.bind_eq_some_iff.1 h
    have hfirst := execute?_lanes (hwide inst (.head _)) hnext (hrule inst (.head _))
      (hmap inst (.head _)) hk
    have hafter := After.execute hnext (hrule inst (.head _))
    rw [Lanes.run?_cons, hfirst, Option.bind_some]
    exact ih hrest (fun i hi => (hwide i (.tail _ hi)).after hafter)
      (fun i hi => hrule i (.tail _ hi)) fun i hi => hmap i (.tail _ hi)

end Frame

namespace Prepared

variable {p : Prepared} {mode? : Option Accumulation} {n : Nat} {insts : List Instruction}
  {frame frame' : Frame}

/-- A step goes well if it is an instruction that may stand there and can be executed, and
the registers can be counted where someone asks for their number. -/
theorem step_eq_ok_iff {isLast : Bool} {step : Step} :
    p.step mode? n isLast frame step = .ok frame' ↔
      ∃ inst, step = .execute inst ∧
        (p.boundsCheck = true → p.layout.count?.isSome ∧ p.inBounds inst = true) ∧
        (inst.operation.isReduction = true → isLast = true ∧ mode?.isSome) ∧
        frame.miscounts inst = false ∧
        frame.execute? (mode?.getD .lanewise) n inst = some frame' := by
  cases step with
  | invalid pc | truncated pc => simp [Prepared.step]
  | execute inst =>
    have hplaced : (inst.operation.isReduction && !(isLast && mode?.isSome)) = false ↔
        (inst.operation.isReduction = true → isLast = true ∧ mode?.isSome) := by
      cases inst.operation.isReduction <;> simp
    have hchecked : (p.boundsCheck && p.layout.count?.isNone) = false ∧
        (p.boundsCheck && !p.inBounds inst) = false ↔
        (p.boundsCheck = true → p.layout.count?.isSome ∧ p.inBounds inst = true) := by
      cases p.boundsCheck <;> simp
    simp only [Step.execute.injEq, exists_eq_left', ← hchecked, ← hplaced, Prepared.step]
    cases p.boundsCheck && p.layout.count?.isNone with
    | true => simp
    | false =>
      cases p.boundsCheck && !p.inBounds inst with
      | true => simp
      | false =>
        cases inst.operation.isReduction && !(isLast && mode?.isSome) with
        | true => simp
        | false =>
          cases frame.miscounts inst with
          | true => simp
          | false => cases frame.execute? (mode?.getD .lanewise) n inst <;> simp

/-- A run of instructions that can all be executed. A reduction is the last one
and there is a mode for it. -/
theorem runSteps_eq_ok (h : frame.runAll? (mode?.getD .lanewise) n insts = some frame')
    (hcount : p.layout.count?.isSome) (hlayout : frame.registers.layout = p.layout)
    (hbounds : ∀ inst ∈ insts, p.inBounds inst = true)
    (hreduction : ∀ before inst after, insts = before ++ inst :: after →
      inst.operation.isReduction = true → after = [] ∧ mode?.isSome) :
    p.runSteps mode? n (insts.map .execute) frame = (.ok (), frame') := by
  induction insts generalizing frame with
  | nil =>
    cases h
    rfl
  | cons inst insts ih =>
    rw [Frame.runAll?_cons] at h
    obtain ⟨next, hnext, hrest⟩ := Option.bind_eq_some_iff.1 h
    have hstep : p.step mode? n (insts.map Step.execute).isEmpty frame (.execute inst)
        = .ok next := by
      refine step_eq_ok_iff.2 ⟨inst, rfl, fun _ => ⟨hcount, hbounds inst (.head _)⟩, fun hred => ?_,
        Frame.miscounts_eq_false (hlayout ▸ hcount) inst, hnext⟩
      obtain ⟨rfl, hmode⟩ := hreduction [] inst insts rfl hred
      exact ⟨rfl, hmode⟩
    rw [List.map_cons, runSteps, hstep]
    exact ih hrest ((Frame.layout_execute? hnext).trans hlayout)
      (fun i hi => hbounds i (.tail _ hi))
      fun before i after heq => hreduction (inst :: before) i after (by rw [heq]; rfl)

/-- A run leaves the roles of the registers as they are, however it ends. -/
theorem layout_runSteps (p : Prepared) (mode? : Option Accumulation) (n : Nat)
    (steps : List Step) (frame : Frame) :
    (p.runSteps mode? n steps frame).2.registers.layout = frame.registers.layout := by
  induction steps generalizing frame with
  | nil => rfl
  | cons step rest ih =>
    rw [runSteps]
    split
    · next hstep =>
      obtain ⟨_, -, -, -, -, hexecute⟩ := step_eq_ok_iff.1 hstep
      exact (ih _).trans (Frame.layout_execute? hexecute)
    · rfl

theorem layout_run (p : Prepared) (mode? : Option Accumulation) (n : Nat) (frame : Frame) :
    (p.run mode? n frame).2.registers.layout = frame.registers.layout :=
  p.layout_runSteps mode? n p.steps frame

/-- Where the registers can be counted no step breaks off. -/
theorem not_isCrash_of_step {isLast : Bool} {step : Step} {e : EvalError}
    (hcount : p.layout.count?.isSome) (hlayout : frame.registers.layout = p.layout)
    (h : p.step mode? n isLast frame step = .error e) : ¬ e.IsCrash := by
  cases step with
  | invalid pc | truncated pc =>
    cases h
    exact id
  | execute inst =>
    have hcounted : p.layout.count?.isNone = false := Option.isNone_eq_false_iff.2 hcount
    have hmiscounts := Frame.miscounts_eq_false (hlayout ▸ hcount) inst
    simp only [Prepared.step, hcounted, hmiscounts, Bool.and_false, Bool.false_eq_true,
      if_false] at h
    repeat' split at h
    all_goals cases h
    all_goals exact id

theorem not_isCrash_of_runSteps {steps : List Step} {e : EvalError} {final : Frame}
    (hcount : p.layout.count?.isSome) (hlayout : frame.registers.layout = p.layout)
    (h : p.runSteps mode? n steps frame = (.error e, final)) : ¬ e.IsCrash := by
  induction steps generalizing frame with
  | nil => cases h
  | cons step rest ih =>
    rw [runSteps] at h
    split at h
    · next next hstep =>
      obtain ⟨_, -, -, -, -, hexecute⟩ := step_eq_ok_iff.1 hstep
      exact ih ((Frame.layout_execute? hexecute).trans hlayout) h
    · next hstep =>
      cases h
      exact not_isCrash_of_step hcount hlayout hstep

end Prepared

/-! ## Valid kernels -/

/-- Reductions take one slot, with a register to fold and an axis. -/
theorem Operation.of_isReduction {op : Operation} (h : op.isReduction = true) :
    op.isDoubleWidth = false ∧ op ≠ .noop ∧ op.hasIndex = true ∧ op.arguments.length = 1 := by
  cases op <;> first | exact ⟨rfl, by simp, rfl, rfl⟩ | cases h

namespace Kernel.Valid

variable {k : Kernel} (hk : k.Valid)

include hk

/-- A reduction stands in the last slot, where the program looks for its opcode and
its axis. -/
theorem reduction?_eq {inst : Instruction} (hmem : inst ∈ k.instructions)
    (hred : inst.operation.isReduction = true) :
    k.program.reduction? = some inst.opcode ∧ ∃ byte, inst.immediate? = some byte ∧
      k.program.reductionAxis? = some (.ofByte byte) := by
  have hpc := hk.last inst hmem hred
  obtain ⟨hsingle, hnoop, hindex, hcount⟩ := Operation.of_isReduction hred
  obtain ⟨hfinal, haxis⟩ := finalOpcode?_of_last hmem hpc hsingle
  have hfinal : k.program.finalOpcode? = some inst.opcode := hfinal
  have himmediate : inst.immediate? = inst.operands.toList[2]? := by
    rw [Instruction.immediate?_eq hnoop hindex, hcount]
  have haxis : k.program.code.getLast? = inst.immediate? := haxis.trans himmediate.symm
  obtain ⟨byte, hbyte⟩ : ∃ byte, inst.immediate? = some byte := by
    rw [himmediate, List.getElem?_eq_getElem (by simp)]
    exact ⟨_, rfl⟩
  have hred : inst.opcode.operation.isReduction = true := hred
  have hreduction : k.program.reduction? = some inst.opcode := by
    simp only [Program.reduction?, hfinal, Option.filter_some, hred, if_true]
  refine ⟨hreduction, byte, hbyte, ?_⟩
  simp only [Program.reductionAxis?, Program.isReduction, hreduction, haxis, hbyte,
    Option.isSome_some, if_true, Option.map_some]

/-- A reduction is the last instruction, and the program knows of it. -/
theorem reduction_last {before after : List Instruction} {inst : Instruction}
    (h : k.instructions = before ++ inst :: after) (hred : inst.operation.isReduction = true) :
    after = [] ∧ k.program.isReduction = true := by
  have hmem : inst ∈ k.instructions := by simp [h]
  refine ⟨eq_nil_of_last_slot h (hk.last inst hmem hred), ?_⟩
  rw [Program.isReduction, (hk.reduction?_eq hmem hred).1]
  rfl

/-- Programs that are no reductions have none. -/
theorem isReduction_eq_false (h : k.program.isReduction = false) {inst : Instruction}
    (hmem : inst ∈ k.instructions) : inst.operation.isReduction = false := by
  obtain ⟨before, after, heq⟩ := List.append_of_mem hmem
  refine Bool.eq_false_iff.2 fun hred => ?_
  have := (hk.reduction_last heq hred).2
  rw [h] at this
  cases this

/-- A register that an instruction names is one that the kernel declares. -/
theorem exists_declared {inst : Instruction} (hmem : inst ∈ k.instructions) {reg : UInt8}
    (hreg : reg ∈ inst.dest :: inst.sources) : ∃ t, k.fullSignature[reg.toNat]? = some t := by
  have hi := hk.wellTyped inst hmem
  rcases List.mem_cons.1 hreg with rfl | hsource
  · obtain ⟨rule, hrule⟩ := Option.isSome_iff_exists.1 hi.rule
    obtain ⟨found, hfound, -⟩ := hi.dest _ (Operation.rule?_shape hrule).2.1
    exact ⟨found, hfound⟩
  · obtain ⟨_, -, found, hfound, -⟩ := exists_of_mem_of_forall₂ hi.sources.flip hsource
    exact ⟨found, hfound⟩

theorem inBounds {p : Prepared} (hp : p.layout = k.layout) {inst : Instruction}
    (hmem : inst ∈ k.instructions) : p.inBounds inst = true := by
  refine List.all_eq_true.2 fun reg hreg => decide_eq_true ?_
  obtain ⟨t, ht⟩ := hk.exists_declared hmem hreg
  rw [hp, hk.layout]
  exact (List.getElem?_eq_some_iff.1 ht).1

section Laid

variable {widths : List Nat} {blockSize : Nat} {first regs : RegisterFile} {written : List Nat}
  {inputs : List Column} {output : Column} (hfirst : first.Initial k widths blockSize)
  (hregs : first.After written regs)
include hfirst hregs

/-- Inputs and an output of the types that the kernel declares make a frame of its
types. -/
theorem typed (hinputs : List.Forall₂ (fun c t => c.elementType.accepts t = true) inputs
      k.inputSignature)
    (houtput : ∀ t, k.fullSignature[0]? = some t → output.elementType.accepts t = true) :
    (⟨regs, inputs, output⟩ : Frame).Typed k.fullSignature k.layout := by
  have hlayout : regs.layout = k.layout := hregs.layout.trans hfirst.layout
  refine ⟨hlayout, hregs.size.trans hfirst.size, ?_⟩
  intro reg t ht
  obtain ⟨role, hrole⟩ := hk.exists_role ht
  obtain ⟨col, hcol, hinitial⟩ := hfirst.column reg t ht
  obtain ⟨col', hcol', halike⟩ := hregs.column reg col hcol
  simp only [Frame.register?, hlayout, hrole]
  cases role with
  | output =>
    obtain rfl := RegisterLayout.role?_eq_output_iff.1 hrole
    exact ⟨output, rfl, houtput t ht⟩
  | input =>
    obtain ⟨hi, rfl⟩ := List.getElem?_eq_some_iff.1 (hk.input_of_role hrole ht)
    have hin : reg - 1 < inputs.length := by rw [hinputs.length_eq]; exact hi
    exact ⟨inputs[reg - 1], List.getElem?_eq_getElem hin,
      (List.forall₂_iff_get.1 hinputs).2 (reg - 1) hin hi⟩
  | constant =>
    obtain ⟨c, -, htype, -⟩ := hinitial.constant hrole
    refine ⟨col', hcol', ?_⟩
    rw [halike.accepts, htype]
    exact t.accepts_refl
  | temporary =>
    refine ⟨col', hcol', ?_⟩
    rw [halike.accepts, hinitial.temporary hrole, Column.elementType]
    simp only [Column.storage_fresh, ElementType.elementType_storage]
    exact t.accepts_refl

/-- The registers of an instruction have the lanes of the block. -/
theorem wide {n : Nat} (hn : n ≤ blockSize) (hcount : inputs.length = k.inputSignature.length)
    (hinputs : ∀ c ∈ inputs, n ≤ c.size) {inst : Instruction} (hinst : inst ∈ k.instructions)
    (houtput : 0 ∈ inst.dest :: inst.sources → n ≤ output.size) :
    (⟨regs, inputs, output⟩ : Frame).Wide n inst := by
  intro reg hreg
  have hlayout : regs.layout = k.layout := hregs.layout.trans hfirst.layout
  obtain ⟨t, ht⟩ := hk.exists_declared hinst hreg
  have hlt : reg.toNat < k.layout.size := by
    rw [hk.layout]
    exact (List.getElem?_eq_some_iff.1 ht).1
  obtain ⟨role, hrole⟩ := Option.isSome_iff_exists.1 (RegisterLayout.isSome_role? hlt)
  obtain ⟨col, hcol, hinitial⟩ := hfirst.column _ t ht
  obtain ⟨col', hcol', halike⟩ := hregs.column _ col hcol
  simp only [Frame.register?, hlayout, hrole]
  cases role with
  | output =>
    have hzero : reg = 0 := UInt8.toNat_inj.1 (RegisterLayout.role?_eq_output_iff.1 hrole)
    exact ⟨output, rfl, houtput (hzero ▸ hreg)⟩
  | input =>
    obtain ⟨hpos, hle⟩ := RegisterLayout.role?_eq_input_iff.1 hrole
    have hi : reg.toNat - 1 < inputs.length := by
      change reg.toNat ≤ k.inputSignature.length at hle
      omega
    exact ⟨inputs[reg.toNat - 1], List.getElem?_eq_getElem hi, hinputs _ (List.getElem_mem hi)⟩
  | constant =>
    obtain ⟨_, -, -, hsize, -⟩ := hinitial.constant hrole
    exact ⟨col', hcol', by rw [halike.size, hsize]; exact hn⟩
  | temporary =>
    refine ⟨col', hcol', ?_⟩
    rw [halike.size, hinitial.temporary hrole, Column.size_fresh]
    exact hn

end Laid

/-- The program of a valid kernel runs over every frame of its types. A program
that ends with a reduction needs a mode. -/
theorem run_eq_ok {p : Prepared} (hsteps : p.steps = predecode k.program.code)
    (hlayout : p.layout = k.layout) {mode? : Option Accumulation}
    (hmode : k.program.isReduction = true → mode?.isSome) {frame : Frame}
    (hf : frame.Typed k.fullSignature k.layout) (n : Nat) :
    ∃ frame', p.run mode? n frame = (.ok (), frame') ∧
      frame.runAll? (mode?.getD .lanewise) n k.instructions = some frame' ∧
      frame.After (destinations k.instructions) frame' := by
  obtain ⟨frame', hrun⟩ := Option.isSome_iff_exists.1
    (Frame.isSome_runAll? (mode?.getD .lanewise) n hf hk.wellTyped)
  refine ⟨frame', ?_, hrun, .runAll hrun fun inst hi => (hk.wellTyped inst hi).rule⟩
  rw [Prepared.run, hsteps, hk.steps]
  refine Prepared.runSteps_eq_ok hrun (by rw [hlayout, hk.count?]; rfl)
    (hf.layout.trans hlayout.symm) (fun inst => hk.inBounds hlayout) ?_
  intro before inst after heq hred
  obtain ⟨hafter, hprogram⟩ := hk.reduction_last heq hred
  exact ⟨hafter, hmode hprogram⟩

end Kernel.Valid

end Lanewise
