import Lanewise.Proofs.BlockRun

/-!
# Frames that agree

Two runs of a block may find different things in registers that an earlier block
used. A program that asks only for elements both frames have, or for what it
wrote itself, goes the same way in both: where one run goes well the other does,
and both leave the same elements in every register they wrote
(`Prepared.run_agree`). Registers that cannot be written to, or that no
instruction writes to, stay as they are (`Prepared.run_keeps`).
-/

namespace Lanewise

/-! ## Columns -/

namespace Column

/-- Columns of one kind that have the same elements at known positions. -/
structure Agree (known : Nat → Prop) (c d : Column) : Prop where
  alike : c.Alike d
  lane : ∀ i, known i → c.lane i = d.lane i

variable {known more : Nat → Prop} {c d e : Column}

theorem Agree.refl (known : Nat → Prop) (c : Column) : c.Agree known c :=
  ⟨.refl c, fun _ _ => rfl⟩

theorem Agree.symm (h : c.Agree known d) : d.Agree known c :=
  ⟨⟨h.alike.storage.symm, h.alike.size.symm⟩, fun i hi => (h.lane i hi).symm⟩

theorem Agree.trans (hcd : c.Agree known d) (hde : d.Agree known e) : c.Agree known e :=
  ⟨hcd.alike.trans hde.alike, fun i hi => (hcd.lane i hi).trans (hde.lane i hi)⟩

theorem Agree.mono (h : c.Agree more d) (hsub : ∀ i, known i → more i) : c.Agree known d :=
  ⟨h.alike, fun i hi => h.lane i (hsub i hi)⟩

/-- Columns that agree on all their elements are equal. -/
theorem Agree.eq (h : c.Agree known d) (hall : ∀ i < c.size, known i) : c = d :=
  ext_lane h.alike.storage.symm h.alike.size.symm fun i hi => h.lane i (hall i hi)

end Column

/-- A revision whose values do not depend on the old ones makes elements known. -/
theorem Column.Agree.revise? {known : Nat → Prop} {c c' d : Column} (h : c.Agree known d) {n : Nat}
    {t : ElementType} {f g : Nat → t.Value → t.Value}
    (hvalue : ∀ i < n, i < c.size → ∀ old old', f i old = g i old')
    (hc : c.revise? n t f = some c') :
    ∃ d', d.revise? n t g = some d' ∧ c'.Agree (fun i => known i ∨ i < n) d' := by
  have haccepts : (d.revise? n t g).isSome := by
    rw [Column.isSome_revise?, h.alike.accepts, ← c.isSome_revise? n t f, hc]
    rfl
  obtain ⟨d', hd⟩ := Option.isSome_iff_exists.1 haccepts
  have hstorage : d'.storage = c'.storage := by
    rw [storage_of_revise? hd, storage_of_revise? hc, h.alike.storage]
  have hsize : d'.size = c'.size := by
    rw [size_of_revise? hd, size_of_revise? hc, h.alike.size]
  refine ⟨d', hd, ⟨hstorage, hsize⟩, fun i hi => ?_⟩
  by_cases hin : i < c.size
  · by_cases hn : i < n
    -- a revised element: the new value is written to lanes of one storage
    · obtain ⟨old, -, hwrite⟩ := lane_of_revise? hc hn hin
      obtain ⟨old', -, hwrite'⟩ := lane_of_revise? hd hn (by rwa [h.alike.size])
      have hsame : (c.lane i).storage = (d.lane i).storage := h.alike.storage.symm
      rw [hvalue i hn hin old old', Lane.write?_congr hsame, hwrite'] at hwrite
      exact (Option.some.inj hwrite).symm
    · rw [lane_of_revise?_of_le hc (by omega), lane_of_revise?_of_le hd (by omega)]
      exact h.lane i (hi.resolve_right hn)
  · rw [lane_of_size_le (by rw [size_of_revise? hc]; omega),
      lane_of_size_le (by rw [hsize, size_of_revise? hc]; omega), hstorage]

/-! ## Rules -/

/-- Whether columns can be read depends on their types only. -/
theorem Values.isSome_ofColumns?_alike {cs ds : List Column} (h : List.Forall₂ Column.Alike cs ds)
    (ts : List ElementType) : (ofColumns? ts ds).isSome = (ofColumns? ts cs).isSome := by
  induction h generalizing ts with
  | nil => rfl
  | cons hcd _ ih =>
    cases ts with
    | nil => rfl
    | cons t ts => rw [isSome_ofColumns?_cons, isSome_ofColumns?_cons, hcd.accepts, ih]

/-- A rule that maps lanes gives the same for sources that agree, whatever the
target held. -/
theorem Rule.onColumns?_agree {rule : Rule} (hfold : rule.isFold = false) {mode : Accumulation}
    {n : Nat} {known : Nat → Prop} {sources sources' : List Column} {target target' new : Column}
    (hsources : List.Forall₂ (Column.Agree (· < n)) sources sources')
    (hwide : ∀ c ∈ sources, n ≤ c.size) (htarget : target.Agree known target')
    (h : rule.onColumns? mode n sources target = some new) :
    ∃ new', rule.onColumns? mode n sources' target' = some new' ∧
      new.Agree (fun i => known i ∨ i < n) new' := by
  cases rule with
  | fold t combine => cases hfold
  | map arguments result f =>
    simp only [onColumns?, Option.bind_eq_bind, Option.bind_eq_some_iff] at h
    obtain ⟨lanes, hlanes, hrevise⟩ := h
    obtain ⟨lanes', hlanes'⟩ : ∃ lanes', Values.ofColumns? arguments sources' = some lanes' := by
      rw [← Option.isSome_iff_exists,
        Values.isSome_ofColumns?_alike (hsources.imp fun _ _ hcd => hcd.alike), hlanes]
      rfl
    have hread : ∀ i < n, lanes' i = lanes i := by
      intro i hi
      rw [Values.ofColumns?_apply hlanes, Values.ofColumns?_apply hlanes']
      have hlane : sources.map (fun c => c.lane i) = sources'.map fun c => c.lane i := by
        rw [← List.forall₂_eq_eq_eq, List.forall₂_map_left_iff, List.forall₂_map_right_iff]
        exact hsources.imp fun _ _ hcd => hcd.lane i hi
      rw [hlane]
    obtain ⟨new', hnew', hagree⟩ := htarget.revise?
      (g := fun i old => ((lanes' i).map f).getD old) (fun i hi _ old old' => by
        obtain ⟨values, hvalues⟩ := Values.exists_ofColumns?_apply hlanes
          fun c hc => Nat.lt_of_lt_of_le hi (hwide c hc)
        rw [hread i hi, hvalues]
        rfl) hrevise
    refine ⟨new', ?_, hagree⟩
    simp only [onColumns?, hlanes', Option.bind_eq_bind, Option.bind_some]
    exact hnew'

/-! ## Registers and frames -/

/-- Register files with the same known elements, by register and lane. -/
structure RegisterFile.Agree (known : Nat → Nat → Prop) (a b : RegisterFile) : Prop where
  layout : b.layout = a.layout
  size : b.size = a.size
  column : ∀ (reg : Nat) (c : Column), a.columns[reg]? = some c →
    ∃ d, b.columns[reg]? = some d ∧ c.Agree (known reg) d

namespace RegisterFile

variable {known more : Nat → Nat → Prop} {a b c : RegisterFile}

theorem Agree.refl (known : Nat → Nat → Prop) (regs : RegisterFile) : regs.Agree known regs :=
  ⟨rfl, rfl, fun _ c hc => ⟨c, hc, .refl _ c⟩⟩

theorem Agree.symm (h : a.Agree known b) : b.Agree known a := by
  refine ⟨h.layout.symm, h.size.symm, fun reg d hd => ?_⟩
  have hlt : reg < a.columns.size := by
    have hlt := (Array.getElem?_eq_some_iff.1 hd).1
    have hsize : b.columns.size = a.columns.size := h.size
    omega
  obtain ⟨d', hd', hagree⟩ := h.column reg _ (Array.getElem?_eq_getElem hlt)
  obtain rfl : d = d' := Option.some.inj (hd.symm.trans hd')
  exact ⟨_, Array.getElem?_eq_getElem hlt, hagree.symm⟩

theorem Agree.trans (hab : a.Agree known b) (hbc : b.Agree known c) : a.Agree known c := by
  refine ⟨hbc.layout.trans hab.layout, hbc.size.trans hab.size, fun reg col hcol => ?_⟩
  obtain ⟨col', hcol', hagree⟩ := hab.column reg col hcol
  obtain ⟨col'', hcol'', hagree'⟩ := hbc.column reg col' hcol'
  exact ⟨col'', hcol'', hagree.trans hagree'⟩

theorem Agree.mono (h : a.Agree more b) (hsub : ∀ reg i, known reg i → more reg i) :
    a.Agree known b := by
  refine ⟨h.layout, h.size, fun reg c hc => ?_⟩
  obtain ⟨d, hd, hagree⟩ := h.column reg c hc
  exact ⟨d, hd, hagree.mono (hsub reg)⟩

/-- Registers that were written to are known where the new columns are. -/
theorem Agree.set (h : a.Agree known b) {reg : Nat} {col col' : Column}
    (hcol : col.Agree (more reg) col') (hother : ∀ r i, r ≠ reg → more r i → known r i) :
    (a.set reg col).Agree more (b.set reg col') := by
  refine ⟨h.layout, by rw [size_set, size_set, h.size], fun r c hc => ?_⟩
  have hsize : b.columns.size = a.columns.size := h.size
  simp only [RegisterFile.set, Array.getElem?_setIfInBounds] at hc ⊢
  by_cases hr : reg = r
  · subst hr
    rw [if_pos rfl] at hc ⊢
    by_cases hlt : reg < a.columns.size
    · rw [if_pos hlt] at hc
      rw [if_pos (by omega)]
      cases hc
      exact ⟨col', rfl, hcol⟩
    · rw [if_neg hlt] at hc
      cases hc
  · rw [if_neg hr] at hc ⊢
    obtain ⟨d, hd, hagree⟩ := h.column r c hc
    exact ⟨d, hd, hagree.mono fun i hi => hother r i (Ne.symm hr) hi⟩

/-- Registers that were not written to agree. -/
theorem After.agree {written : List Nat} (h : a.After written b) :
    a.Agree (fun reg _ => reg ∉ written) b := by
  refine ⟨h.layout, h.size, fun reg c hc => ?_⟩
  obtain ⟨d, hd, halike⟩ := h.column reg c hc
  refine ⟨d, hd, halike, fun i hi => ?_⟩
  have hsame := h.unwritten reg hi
  rw [hc, hd] at hsame
  rw [Option.some.inj hsame]

/-- Constants and temporaries have at least `n` lanes. -/
def Broad (n : Nat) (regs : RegisterFile) : Prop :=
  ∀ (reg : Nat) (c : Column), regs.columns[reg]? = some c →
    regs.layout.role? reg = some .constant ∨ regs.layout.role? reg = some .temporary → n ≤ c.size

theorem Broad.agree {n : Nat} (h : a.Broad n) (hab : a.Agree known b) : b.Broad n := by
  intro reg d hd hrole
  obtain ⟨c, hc, hagree⟩ := hab.symm.column reg d hd
  rw [← hagree.alike.size]
  exact h reg c hc (hab.layout ▸ hrole)

/-- Registers are laid out for full blocks. -/
theorem Initial.broad {k : Kernel} {widths : List Nat} {blockSize : Nat} {regs : RegisterFile}
    (h : regs.Initial k widths blockSize) : regs.Broad blockSize := by
  intro reg c hc hrole
  rw [h.layout] at hrole
  have hlt : reg < k.fullSignature.length := by
    rw [← h.size]
    exact (Array.getElem?_eq_some_iff.1 hc).1
  obtain ⟨col, hcol, hinitial⟩ := h.column reg _ (List.getElem?_eq_getElem hlt)
  obtain rfl : c = col := Option.some.inj (hc.symm.trans hcol)
  rcases hrole with hrole | hrole
  · obtain ⟨_, -, -, hsize, -⟩ := hinitial.constant hrole
    exact Nat.le_of_eq hsize.symm
  · rw [hinitial.temporary hrole]
    exact Nat.le_of_eq (Column.size_replicate _ _ _).symm

end RegisterFile

namespace Frame

/-- Frames with the same inputs and the same known elements. The output stands
for register 0, whose place in the register file is not used. -/
structure Agree (known : Nat → Nat → Prop) (a b : Frame) : Prop where
  registers : a.registers.Agree (fun reg i => reg ≠ 0 ∧ known reg i) b.registers
  inputs : b.inputs = a.inputs
  output : a.output.Agree (known 0) b.output

/-- Every register there is has at least `n` lanes. -/
def Broad (n : Nat) (frame : Frame) : Prop :=
  ∀ reg c, frame.register? reg = some c → n ≤ c.size

variable {known more : Nat → Nat → Prop} {a a' b : Frame} {n : Nat}

theorem Agree.refl (known : Nat → Nat → Prop) (frame : Frame) : frame.Agree known frame :=
  ⟨.refl _ _, rfl, .refl _ _⟩

theorem Agree.trans {c : Frame} (hab : a.Agree known b) (hbc : b.Agree known c) :
    a.Agree known c :=
  ⟨hab.registers.trans hbc.registers, hbc.inputs.trans hab.inputs, hab.output.trans hbc.output⟩

theorem Agree.mono (h : a.Agree more b) (hsub : ∀ reg i, known reg i → more reg i) :
    a.Agree known b :=
  ⟨h.registers.mono fun reg i hi => ⟨hi.1, hsub reg i hi.2⟩, h.inputs, h.output.mono (hsub 0)⟩

theorem Agree.register? (h : a.Agree known b) {reg : Nat} {c : Column}
    (hc : a.register? reg = some c) : ∃ d, b.register? reg = some d ∧ c.Agree (known reg) d := by
  by_cases hzero : reg = 0
  · subst hzero
    cases hc
    exact ⟨b.output, rfl, h.output⟩
  have hcolumn : ∀ {c : Column}, a.registers.columns[reg]? = some c →
      ∃ d, b.registers.columns[reg]? = some d ∧ c.Agree (known reg) d := by
    intro c hc
    obtain ⟨d, hd, hagree⟩ := h.registers.column reg c hc
    exact ⟨d, hd, hagree.mono fun i hi => ⟨hzero, hi⟩⟩
  unfold Frame.register? at hc ⊢
  rw [h.registers.layout]
  split at hc
  · cases hc
  · next hrole => exact absurd (RegisterLayout.role?_eq_output_iff.1 hrole) hzero
  · exact ⟨c, by rw [h.inputs]; exact hc, .refl _ c⟩
  · exact hcolumn hc
  · exact hcolumn hc

theorem Agree.symm (h : a.Agree known b) : b.Agree known a :=
  ⟨h.registers.symm, h.inputs.symm, h.output.symm⟩

/-- Frames that agree have the same registers, so they ask the same questions. -/
theorem Agree.miscounts (h : a.Agree known b) (inst : Instruction) :
    b.miscounts inst = a.miscounts inst := by
  refine miscounts_congr h.registers.layout h.registers.size (fun reg => ?_) inst
  rw [Bool.eq_iff_iff, Option.isSome_iff_exists, Option.isSome_iff_exists]
  constructor
  · rintro ⟨d, hd⟩
    obtain ⟨c, hc, -⟩ := h.symm.register? hd
    exact ⟨c, hc⟩
  · rintro ⟨c, hc⟩
    obtain ⟨d, hd, -⟩ := h.register? hc
    exact ⟨d, hd⟩

theorem Agree.isWritable (h : a.Agree known b) (reg : Nat) :
    b.isWritable reg = a.isWritable reg := by
  rw [Frame.isWritable, Frame.isWritable, h.registers.layout, h.registers.size]

theorem Agree.set (h : a.Agree known b) {reg : Nat} {c d : Column}
    (hcd : c.Agree (more reg) d) (hother : ∀ r i, r ≠ reg → more r i → known r i) :
    (a.set reg c).Agree more (b.set reg d) := by
  unfold Frame.set
  split
  · next hzero =>
    subst hzero
    exact ⟨h.registers.mono fun r i hi => ⟨hi.1, hother r i hi.1 hi.2⟩, h.inputs, hcd⟩
  · next hreg =>
    refine ⟨h.registers.set (hcd.mono fun i hi => hi.2) fun r i hr hi => ⟨hi.1, hother r i hr hi.2⟩,
      h.inputs, h.output.mono fun i hi => hother 0 i (Ne.symm hreg) hi⟩

/-- A frame over wide registers, inputs and output. -/
theorem broad_mk {regs : RegisterFile} {inputs : List Column} {output : Column}
    (hregs : regs.Broad n) (hinputs : ∀ c ∈ inputs, n ≤ c.size) (houtput : n ≤ output.size) :
    Broad n ⟨regs, inputs, output⟩ := by
  intro reg c hc
  simp only [Frame.register?] at hc
  split at hc
  · cases hc
  · cases hc
    exact houtput
  · exact hinputs c (List.mem_of_getElem? hc)
  · next hrole => exact hregs reg c hc (.inl hrole)
  · next hrole => exact hregs reg c hc (.inr hrole)

theorem Broad.set (h : a.Broad n) {reg : Nat} {c : Column} (hw : a.isWritable reg = true)
    (hc : n ≤ c.size) : (a.set reg c).Broad n := by
  intro r col hcol
  by_cases hr : r = reg
  · subst hr
    rw [register?_set_self hw] at hcol
    cases hcol
    exact hc
  · rw [register?_set_ne hr] at hcol
    exact h r col hcol

/-! ## Instructions -/

/-- An instruction that maps lanes of known registers makes its destination
known. -/
theorem Agree.execute {mode : Accumulation} {inst : Instruction} (h : a.Agree known b)
    (hbroad : a.Broad n) (hnoop : inst.operation ≠ .noop)
    (hmap : inst.operation.isReduction = false)
    (hknown : ∀ reg ∈ inst.sources, ∀ i < n, known reg.toNat i)
    (hrun : a.execute? mode n inst = some a') :
    a'.Broad n ∧ ∃ b', b.execute? mode n inst = some b' ∧
      a'.Agree (fun reg i => known reg i ∨ (reg = inst.dest.toNat ∧ i < n)) b' := by
  obtain ⟨hw, sources, rule, target, new, hsources, hrule, htarget, hnew, rfl⟩ :=
    (execute?_eq_some_iff hnoop).1 hrun
  have hfold : rule.isFold = false := (Operation.rule?_shape hrule).2.2.trans hmap
  have hwide : ∀ c ∈ sources, n ≤ c.size := by
    intro c hc
    obtain ⟨reg, -, hreg⟩ := exists_of_mem_of_forall₂ (mapM_eq_some_iff.1 hsources) hc
    exact hbroad _ _ hreg
  -- the other frame has sources that agree with these
  obtain ⟨sources', hsources', hagree⟩ : ∃ sources',
      inst.sources.mapM (fun reg => b.register? reg.toNat) = some sources' ∧
        List.Forall₂ (Column.Agree (· < n)) sources sources' := by
    have hread := mapM_eq_some_iff.1 hsources
    clear hsources hwide hnew
    generalize inst.sources = regs at hread hknown
    induction hread with
    | nil => exact ⟨[], rfl, .nil⟩
    | cons hreg _ ih =>
      obtain ⟨d, hd, hcd⟩ := h.register? hreg
      obtain ⟨rest, hrest, hagree⟩ := ih fun reg hreg => hknown reg (.tail _ hreg)
      exact ⟨d :: rest, by simp [List.mapM_cons, hd, hrest],
        .cons (hcd.mono fun i hi => hknown _ (.head _) i hi) hagree⟩
  obtain ⟨target', htarget', htargets⟩ := h.register? htarget
  obtain ⟨new', hnew', hnews⟩ := Rule.onColumns?_agree hfold hagree hwide htargets hnew
  refine ⟨hbroad.set hw ?_, _, (execute?_eq_some_iff hnoop).2 ⟨(h.isWritable _).trans hw, sources',
    rule, target', new', hsources', hrule, htarget', hnew', rfl⟩, h.set ?_ ?_⟩
  · rw [Rule.size_of_onColumns? hnew]
    exact hbroad _ _ htarget
  · exact hnews.mono fun i hi => hi.imp_right And.right
  · exact fun r i hr hi => hi.resolve_right fun heq => hr heq.1

/-- An instruction leaves all registers alone but its destination. -/
theorem agree_execute {mode : Accumulation} {inst : Instruction} (hnoop : inst.operation ≠ .noop)
    (hrun : a.execute? mode n inst = some a') :
    a.Agree (fun reg _ => reg ≠ inst.dest.toNat ∨ a.registers.layout.isWritable reg = false)
      a' := by
  obtain ⟨hw, sources, rule, target, new, -, -, htarget, hnew, rfl⟩ :=
    (execute?_eq_some_iff hnoop).1 hrun
  have hwritable : a.registers.layout.isWritable inst.dest.toNat = true := by
    unfold isWritable at hw
    rw [Bool.and_eq_true] at hw
    exact hw.1
  have hafter := After.set hw htarget
    ⟨Rule.storage_of_onColumns? hnew, Rule.size_of_onColumns? hnew⟩
  refine ⟨⟨hafter.registers.layout, hafter.registers.size, fun reg c hc => ?_⟩, hafter.inputs,
    hafter.output, fun i hi => ?_⟩
  · obtain ⟨d, hd, halike⟩ := hafter.registers.column reg c hc
    refine ⟨d, hd, halike, fun i hi => ?_⟩
    by_cases hreg : reg = inst.dest.toNat
    · rcases hi.2 with hne | hno
      · exact absurd hreg hne
      · rw [hreg, hwritable] at hno
        cases hno
    · have hsame := hafter.registers.unwritten reg (by simpa using hreg)
      rw [hc, hd] at hsame
      rw [Option.some.inj hsame]
  · rcases hi with hne | hno
    · rw [hafter.unwritten (by simpa using hne)]
    · cases hno

end Frame

/-! ## Programs -/

namespace Prepared

variable {p : Prepared} {k : Kernel} {known : Nat → Nat → Prop} {a a' b : Frame} {n : Nat}

/-- A step that goes well where nothing accumulates is an instruction that maps
lanes. Whether it goes well depends on the frame by its registers and its execution
alone. -/
theorem of_step_eq_ok {isLast : Bool} {step : Step} (h : p.step none n isLast a step = .ok a') :
    ∃ inst, step = .execute inst ∧ inst.operation.isReduction = false ∧
      a.execute? .lanewise n inst = some a' ∧
      ∀ b b', b.miscounts inst = a.miscounts inst → b.execute? .lanewise n inst = some b' →
        p.step none n isLast b step = .ok b' := by
  obtain ⟨inst, rfl, hbounds, hplaced, hcounts, hexecute⟩ := step_eq_ok_iff.1 h
  refine ⟨inst, rfl, Bool.eq_false_iff.2 fun hred => ?_, hexecute, fun b b' hsame hb => ?_⟩
  · cases (hplaced hred).2
  · exact step_eq_ok_iff.2 ⟨inst, rfl, hbounds, hplaced, hsame.trans hcounts, hb⟩

/-- Faults end a run, so one that goes well gets to none. -/
theorem runSteps_faults {faults : List Step}
    (hfaults : ∀ step ∈ faults, ∀ inst, step ≠ .execute inst)
    (h : p.runSteps none n faults a = (.ok (), a')) : faults = [] ∧ a' = a := by
  cases faults with
  | nil => exact ⟨rfl, (Prod.mk.inj h).2.symm⟩
  | cons step rest =>
    rw [runSteps] at h
    cases hstep : p.step none n rest.isEmpty a step with
    | error e =>
      rw [hstep] at h
      cases h
    | ok next =>
      obtain ⟨inst, heq, -⟩ := of_step_eq_ok hstep
      exact absurd heq (hfaults step (.head _) inst)

/-- A run that goes well goes through its first step. -/
theorem runSteps_cons {step : Step} {rest : List Step}
    (h : p.runSteps none n (step :: rest) a = (.ok (), a')) :
    ∃ next, p.step none n rest.isEmpty a step = .ok next ∧
      p.runSteps none n rest next = (.ok (), a') := by
  rw [runSteps] at h
  cases hstep : p.step none n rest.isEmpty a step with
  | error e =>
    rw [hstep] at h
    cases h
  | ok next =>
    rw [hstep] at h
    exact ⟨next, rfl, h⟩

/-- Runs over frames that agree on what the instructions read. What they write
becomes known. -/
theorem runSteps_agree {insts : List Instruction} {faults : List Step}
    (hfaults : ∀ step ∈ faults, ∀ inst, step ≠ .execute inst)
    (hnoop : ∀ inst ∈ insts, inst.operation ≠ .noop)
    (hready : ∀ before inst after, insts = before ++ inst :: after → ∀ reg ∈ inst.sources,
      reg.toNat ∈ destinations before ∨ ∀ i < n, known reg.toNat i)
    (h : a.Agree known b) (hbroad : a.Broad n)
    (hrun : p.runSteps none n (insts.map .execute ++ faults) a = (.ok (), a')) :
    ∃ b', p.runSteps none n (insts.map .execute ++ faults) b = (.ok (), b') ∧
      a'.Agree (fun reg i => known reg i ∨ (reg ∈ destinations insts ∧ i < n)) b' := by
  -- what the first instruction wrote is known to the rest, so `known` grows on the way
  induction insts generalizing a b known with
  | nil =>
    obtain ⟨rfl, rfl⟩ := runSteps_faults hfaults hrun
    exact ⟨b, rfl, h.mono fun reg i hi => hi.resolve_right (by simp [destinations])⟩
  | cons inst insts ih =>
    rw [List.map_cons, List.cons_append] at hrun ⊢
    obtain ⟨next, hstep, hrest⟩ := runSteps_cons hrun
    obtain ⟨_, heq, hmap, hexecute, htransfer⟩ := of_step_eq_ok hstep
    cases heq
    have hsources : ∀ reg ∈ inst.sources, ∀ i < n, known reg.toNat i := fun reg hreg =>
      (hready [] inst insts rfl reg hreg).resolve_left (by simp [destinations])
    obtain ⟨hbroad', next', hexecute', hagree⟩ :=
      h.execute hbroad (hnoop inst (.head _)) hmap hsources hexecute
    obtain ⟨b', hrest', hagree'⟩ := ih (fun i hi => hnoop i (.tail _ hi))
      (fun before i after heq reg hreg => by
        rcases hready (inst :: before) i after (by rw [heq]; rfl) reg hreg with hmem | hknown
        · rcases List.mem_cons.1 hmem with hdest | hmem
          · exact .inr fun j hj => .inr ⟨hdest, hj⟩
          · exact .inl hmem
        · exact .inr fun j hj => .inl (hknown j hj))
      hagree hbroad' hrest
    refine ⟨b', ?_, hagree'.mono fun reg i hi => ?_⟩
    · rw [runSteps, htransfer b next' (h.miscounts inst) hexecute']
      exact hrest'
    · rcases hi with hknown | ⟨hmem, hlt⟩
      · exact .inl (.inl hknown)
      · rcases List.mem_cons.1 hmem with hdest | hmem
        · exact .inl (.inr ⟨hdest, hlt⟩)
        · exact .inr ⟨hmem, hlt⟩

/-- Runs of a program over frames that agree on what it reads go the same way. -/
theorem run_agree (hsteps : p.steps = predecode k.program.code)
    (hready : ∀ before inst after, k.instructions = before ++ inst :: after →
      ∀ reg ∈ inst.sources, reg.toNat ∈ destinations before ∨ ∀ i < n, known reg.toNat i)
    (h : a.Agree known b) (hbroad : a.Broad n) (hrun : p.run none n a = (.ok (), a')) :
    ∃ b', p.run none n b = (.ok (), b') ∧
      a'.Agree (fun reg i => known reg i ∨ (reg ∈ destinations k.instructions ∧ i < n)) b' := by
  obtain ⟨faults, heq, -, hfaults⟩ := exists_predecode_eq k.program.code
  rw [Prepared.run, hsteps, heq] at hrun ⊢
  exact runSteps_agree hfaults (fun inst => operation_ne_noop_of_mem) hready h hbroad hrun

/-- What a program leaves alone: registers that cannot be written to or that no
instruction writes to. -/
theorem run_keeps (hsteps : p.steps = predecode k.program.code)
    (hrun : p.run none n a = (.ok (), a')) :
    a.Agree (fun reg _ => reg ∉ destinations k.instructions ∨
      a.registers.layout.isWritable reg = false) a' := by
  obtain ⟨faults, heq, -, hfaults⟩ := exists_predecode_eq k.program.code
  rw [Prepared.run, hsteps, heq] at hrun
  have hnoop : ∀ inst ∈ k.instructions, inst.operation ≠ .noop := fun inst =>
    operation_ne_noop_of_mem
  change p.runSteps none n (k.instructions.map .execute ++ faults) a = _ at hrun
  generalize k.instructions = insts at hrun hnoop ⊢
  induction insts generalizing a with
  | nil =>
    obtain ⟨-, rfl⟩ := runSteps_faults hfaults hrun
    exact .refl _ _
  | cons inst insts ih =>
    obtain ⟨next, hstep, hrest⟩ := runSteps_cons hrun
    obtain ⟨_, heq, -, hexecute, -⟩ := of_step_eq_ok hstep
    cases heq
    have hfirst := Frame.agree_execute (hnoop inst (.head _)) hexecute
    have hrest := ih hrest fun i hi => hnoop i (.tail _ hi)
    -- instructions leave the layout alone, so both mean the same registers
    rw [hfirst.registers.layout] at hrest
    refine (hfirst.mono fun reg i hi => ?_).trans (hrest.mono fun reg i hi => ?_)
    · exact hi.imp_left fun hnot heq => hnot (heq ▸ .head _)
    · exact hi.imp_left fun hnot hmem => hnot (.tail _ hmem)

end Prepared

/-! ## Blocks -/

namespace Evaluation

variable {ev₁ ev₂ : Evaluation} {k : Kernel} {output : Strided} {inputs : List Strided}
  {shape : Shape} {block : Block}

/-- Views that show the same elements are the same columns. -/
theorem Views.eq {sink₁ sink₂ : Sink} {views₁ views₂ : List Column}
    (h₁ : ev₁.Views inputs shape block sink₁ views₁)
    (h₂ : ev₂.Views inputs shape block sink₂ views₂)
    (hsame : List.Forall₂ (fun x y : Strided × Source =>
      x.2.storage sink₁.data.storage = y.2.storage sink₂.data.storage ∧ ∀ j < block.len,
        x.2.lane sink₁ x.1 shape (block.start + j) = y.2.lane sink₂ y.1 shape (block.start + j))
      (inputs.zip ev₁.sources) (inputs.zip ev₂.sources)) : views₁ = views₂ := by
  unfold Views at h₁ h₂
  generalize inputs.zip ev₁.sources = xs at h₁ hsame
  generalize inputs.zip ev₂.sources = ys at h₂ hsame
  induction hsame generalizing views₁ views₂ with
  | nil =>
    obtain rfl := List.forall₂_nil_left_iff.1 h₁
    obtain rfl := List.forall₂_nil_left_iff.1 h₂
    rfl
  | cons hxy _ ih =>
    obtain ⟨c, cs, ⟨hstorage₁, hsize₁, hlane₁⟩, hrest₁, rfl⟩ := List.forall₂_cons_left_iff.1 h₁
    obtain ⟨d, ds, ⟨hstorage₂, hsize₂, hlane₂⟩, hrest₂, rfl⟩ := List.forall₂_cons_left_iff.1 h₂
    have hcd : c = d := by
      refine Column.ext_lane ?_ (hsize₁.trans hsize₂.symm) fun j hj => ?_
      · rw [hstorage₁, hstorage₂, hxy.1]
      · rw [hsize₁] at hj
        rw [hlane₁ j hj, hlane₂ j hj, hxy.2 j hj]
    rw [hcd, ih hrest₁ hrest₂]

/-- The column that a block of a program without reductions works on. -/
theorem BlockRun.size_work {ev : Evaluation} {views : List Column} {work : Column} {final : Frame}
    {t t' : Traversal} (h : ev.BlockRun output inputs shape block views work final t t')
    (hmode : ev.mode? = none) : work.size = block.len := by
  rw [h.size, blockTargets, if_neg (by simp [hmode]), length_targets]

/-- Two runs of a block on the same views, over registers that agree wherever
they are asked for something they did not write. They leave the same registers,
as far as these agreed, and the same output. -/
theorem BlockRun.agree {views : List Column} {work₁ work₂ : Column} {final₁ final₂ : Frame}
    {t₁ t₁' t₂ t₂' : Traversal} (known : Nat → Prop)
    (h₁ : ev₁.BlockRun output inputs shape block views work₁ final₁ t₁ t₁')
    (h₂ : ev₂.BlockRun output inputs shape block views work₂ final₂ t₂ t₂')
    (hmode₁ : ev₁.mode? = none) (hmode₂ : ev₂.mode? = none)
    (hprepared : ev₂.prepared = ev₁.prepared)
    (hsteps : ev₁.prepared.steps = predecode k.program.code)
    (hready : ∀ before inst after, k.instructions = before ++ inst :: after →
      ∀ reg ∈ inst.sources, reg.toNat ∈ destinations before ∨ known reg.toNat)
    (hzero : 0 ∈ destinations k.instructions ∨ known 0)
    (hregs : t₁.workspace.registers.Agree (fun reg _ => reg ≠ 0 ∧ known reg)
      t₂.workspace.registers)
    (hstorage : t₁.sink.data.storage = t₂.sink.data.storage)
    (hwork : known 0 → ∀ j < block.len, work₁.lane j = work₂.lane j)
    (hbroad : t₁.workspace.registers.Broad block.len) :
    t₁'.workspace.registers.Agree (fun reg _ => reg ≠ 0 ∧ known reg) t₂'.workspace.registers ∧
      final₁.output = final₂.output := by
  have hsize₁ := h₁.size_work hmode₁
  have hsize₂ := h₂.size_work hmode₂
  -- the columns agree on a block only; behind it they need not, so register 0 is cut off there
  have hstart : Frame.Agree (fun reg i => known reg ∧ (reg = 0 → i < block.len))
      ⟨t₁.workspace.registers, views, work₁⟩ ⟨t₂.workspace.registers, views, work₂⟩ := by
    refine ⟨hregs.mono fun reg i hi => ⟨hi.1, hi.2.1⟩, rfl,
      ⟨?_, hsize₂.trans hsize₁.symm⟩, fun i hi => hwork hi.1 i (hi.2 rfl)⟩
    rw [h₁.storage, h₂.storage, hstorage]
  have hrun₁ := h₁.run
  have hrun₂ := h₂.run
  rw [hmode₁] at hrun₁
  rw [hmode₂, hprepared] at hrun₂
  obtain ⟨final, hrun, hagree⟩ := Prepared.run_agree hsteps
    (fun before inst after heq reg hreg =>
      (hready before inst after heq reg hreg).imp_right fun h i hi => ⟨h, fun _ => hi⟩)
    hstart (Frame.broad_mk hbroad h₁.viewed.le_size (Nat.le_of_eq hsize₁.symm)) hrun₁
  obtain rfl : final₂ = final := (Prod.mk.inj (hrun₂.symm.trans hrun)).2
  have houtput : final₁.output.size = work₁.size :=
    (Prepared.run_keeps hsteps hrun₁).output.alike.size
  refine ⟨?_, hagree.output.eq fun i hi => ?_⟩
  · rw [h₁.registers, h₂.registers]
    exact hagree.registers.mono fun reg i hi => ⟨hi.1, .inl ⟨hi.2, fun h => absurd h hi.1⟩⟩
  · have hi : i < block.len := by omega
    exact hzero.symm.imp (fun h => ⟨h, fun _ => hi⟩) fun h => ⟨h, hi⟩

end Evaluation

end Lanewise
