import Lanewise.Proofs.Registers

/-!
# Programs that write before they read

A valid program runs on the machine of one lane when no instruction reads a
register that holds nothing (`exists_run?`). For a program that reads the output
and temporaries only after it wrote them, that is so whatever they held before.
-/

namespace Lanewise

/-- Registers that instructions write to. -/
def destinations (insts : List Instruction) : List Nat :=
  insts.map fun inst => inst.dest.toNat

/-- What holds of every source in its place in a program can be checked index by
index. -/
theorem forall_sources_iff {insts : List Instruction} {P : List Instruction → UInt8 → Prop}
    [∀ before reg, Decidable (P before reg)] :
    (∀ i (h : i < insts.length), (insts[i].sources.all fun reg => P (insts.take i) reg) = true) ↔
      ∀ before inst after, insts = before ++ inst :: after → ∀ reg ∈ inst.sources,
        P before reg := by
  simp only [List.all_eq_true, decide_eq_true_eq]
  exact (forall_append_cons_iff (P := fun before inst => ∀ reg ∈ inst.sources, P before reg)).symm

namespace Kernel

/-- The output and the temporaries are read only after an earlier instruction
wrote them. -/
def WritesBeforeReads (k : Kernel) : Prop :=
  ∀ before inst after, k.instructions = before ++ inst :: after → ∀ reg ∈ inst.sources,
    k.layout.isWritable reg.toNat = true → reg.toNat ∈ destinations before

instance (k : Kernel) : Decidable k.WritesBeforeReads :=
  decidable_of_iff _ (forall_sources_iff (P := fun before reg =>
    k.layout.isWritable reg.toNat = true → reg.toNat ∈ destinations before))

end Kernel

namespace Lanes

/-- A register that holds an element, if it exists. -/
def Holds (lanes : Lanes) (reg : Nat) : Prop :=
  ∀ l, lanes reg = some l → l.cell?.isSome

/-- The registers have the types that a signature declares, up to the width of
integers. -/
def Typed (lanes : Lanes) (sig : Signature) : Prop :=
  ∀ reg t, sig[reg]? = some t → ∃ l, lanes reg = some l ∧ l.storage.elementType.accepts t = true

variable {lanes lanes' : Lanes} {sig : Signature} {layout : RegisterLayout} {inst : Instruction}

/-- A write leaves the types alone, and an element in its register. -/
theorem Typed.execute (h : lanes.Typed sig) (hrun : lanes.execute? inst = some lanes') :
    lanes'.Typed sig ∧ lanes'.Holds inst.dest.toNat ∧
      ∀ reg, lanes.Holds reg → lanes'.Holds reg := by
  obtain ⟨_, _, _, _, _, target, written, -, -, -, htarget, hwritten, rfl⟩ := execute?_eq_some hrun
  obtain ⟨hstorage, hcell⟩ := Lane.of_write? hwritten
  have hdest : (lanes.set inst.dest.toNat written).Holds inst.dest.toNat := by
    intro l hl
    rw [set_self] at hl
    cases hl
    exact hcell
  refine ⟨fun reg t ht => ?_, hdest, fun reg hreg => ?_⟩
  · obtain ⟨l, hl, haccepts⟩ := h reg t ht
    by_cases hr : reg = inst.dest.toNat
    · subst hr
      obtain rfl : l = target := Option.some.inj (hl.symm.trans htarget)
      exact ⟨written, set_self _ _ _, by rwa [hstorage]⟩
    · exact ⟨l, by rwa [set_ne _ _ hr], haccepts⟩
  · by_cases hr : reg = inst.dest.toNat
    · rwa [hr]
    · intro l hl
      rw [set_ne _ _ hr] at hl
      exact hreg l hl

/-- Registers of fitting types that hold elements have values. -/
theorem Typed.exists_ofLanes? (h : lanes.Typed sig) {regs : List UInt8} {ts : List ElementType}
    (htypes : List.Forall₂
      (fun reg t => ∃ found, sig[reg.toNat]? = some found ∧ found.accepts t = true) regs ts)
    (hregs : ∀ reg ∈ regs, lanes.Holds reg.toNat) :
    ∃ ls values, regs.mapM (fun reg => lanes reg.toNat) = some ls ∧
      Values.ofLanes? ts ls = some values := by
  induction htypes with
  | nil => exact ⟨[], .nil, rfl, rfl⟩
  | cons hreg _ ih =>
    obtain ⟨found, hfound, haccepts⟩ := hreg
    obtain ⟨l, hl, htype⟩ := h _ _ hfound
    obtain ⟨ls, values, hls, hvalues⟩ := ih fun reg hmem => hregs reg (.tail _ hmem)
    obtain ⟨value, hvalue⟩ := Option.isSome_iff_exists.1
      (Lane.isSome_read? (hregs _ (.head _) l hl) (ElementType.accepts_trans htype haccepts))
    exact ⟨l :: ls, .cons value values, by simp [List.mapM_cons, hl, hls],
      by simp [Values.ofLanes?, hvalue, hvalues]⟩

/-- An instruction whose sources hold elements can be executed. -/
theorem isSome_execute? (h : lanes.Typed sig) (hi : inst.WellTyped sig layout)
    (hmap : inst.operation.isReduction = false)
    (hsources : ∀ reg ∈ inst.sources, lanes.Holds reg.toNat) : (lanes.execute? inst).isSome := by
  obtain ⟨rule, hrule⟩ := Option.isSome_iff_exists.1 hi.rule
  obtain ⟨harguments, hresult, hfold⟩ := Operation.rule?_shape hrule
  cases rule with
  | fold t combine =>
    have : true = inst.operation.isReduction := hfold
    rw [hmap] at this
    cases this
  | map arguments result f =>
    have htypes := hi.sources
    rw [show inst.operation.arguments = arguments from harguments.symm] at htypes
    obtain ⟨ls, values, hls, hvalues⟩ := h.exists_ofLanes? htypes hsources
    have hls : lanes.sources? inst = some ls := hls
    obtain ⟨found, hfound, haccepts⟩ := hi.dest result hresult
    obtain ⟨target, htarget, htype⟩ := h _ _ hfound
    obtain ⟨written, hwritten⟩ := Option.isSome_iff_exists.1
      (Lane.isSome_write? (l := target) (f values) (ElementType.accepts_trans htype haccepts))
    simp [execute?, hls, hrule, hvalues, htarget, hwritten]

/-- A program runs when each instruction reads registers that held something at
the start or were written since. -/
theorem exists_run? {insts : List Instruction} (h : lanes.Typed sig)
    (hi : ∀ inst ∈ insts, inst.WellTyped sig layout)
    (hmap : ∀ inst ∈ insts, inst.operation.isReduction = false)
    (hready : ∀ before inst after, insts = before ++ inst :: after → ∀ reg ∈ inst.sources,
      reg.toNat ∈ destinations before ∨ lanes.Holds reg.toNat) :
    ∃ lanes', lanes.run? insts = some lanes' ∧ lanes'.Typed sig ∧
      ∀ reg, reg ∈ destinations insts ∨ lanes.Holds reg → lanes'.Holds reg := by
  induction insts generalizing lanes with
  | nil => exact ⟨lanes, rfl, h, by simp [destinations]⟩
  | cons inst insts ih =>
    have hsources : ∀ reg ∈ inst.sources, lanes.Holds reg.toNat := fun reg hreg =>
      (hready [] inst insts rfl reg hreg).resolve_left (by simp [destinations])
    obtain ⟨next, hnext⟩ := Option.isSome_iff_exists.1
      (isSome_execute? h (hi inst (.head _)) (hmap inst (.head _)) hsources)
    obtain ⟨htyped, hdest, hkeep⟩ := h.execute hnext
    obtain ⟨lanes', hrun, htyped', hholds⟩ := ih htyped (fun i hmem => hi i (.tail _ hmem))
      (fun i hmem => hmap i (.tail _ hmem)) fun before i after heq reg hreg => by
        rcases hready (inst :: before) i after (by rw [heq]; rfl) reg hreg with hwritten | hheld
        · rcases List.mem_cons.1 hwritten with heq | hwritten
          · exact .inr (heq ▸ hdest)
          · exact .inl hwritten
        · exact .inr (hkeep _ hheld)
    refine ⟨lanes', by rw [run?_cons, hnext]; exact hrun, htyped', fun reg hreg => hholds reg ?_⟩
    rcases hreg with hwritten | hheld
    · rcases List.mem_cons.1 hwritten with rfl | hwritten
      · exact .inr hdest
      · exact .inl hwritten
    · exact .inr (hkeep _ hheld)

end Lanes

/-! ## The machine of a kernel -/

/-- A constant fills the register declared for it. -/
theorem Constant.exists_lane? {c : Constant} {t : ElementType} (width : Nat)
    (h : c.elementType.accepts t = true) :
    ∃ l, c.lane? t width = some l ∧ l.storage.elementType = t ∧ l.cell?.isSome := by
  obtain ⟨value, hvalue⟩ := Option.isSome_iff_exists.1 ((c.isSome_value? t).trans h)
  obtain ⟨l, hl⟩ := Option.isSome_iff_exists.1
    (Lane.isSome_write? (l := .unset (t.storage (max width c.stringWidth))) value (by
      rw [Lane.unset, ElementType.elementType_storage]
      exact t.accepts_refl))
  obtain ⟨hstorage, hcell⟩ := Lane.of_write? hl
  refine ⟨l, by simp [Constant.lane?, hvalue, hl], ?_, hcell⟩
  rw [hstorage, Lane.unset, ElementType.elementType_storage]

namespace Kernel

variable {k : Kernel} {widths : List Nat} {inputs : List Lane} {output : Lane}
  {temporary : Nat → Storage → Lane}

theorem lanesFrom_zero : k.lanesFrom widths inputs output temporary 0 = some output := by
  simp only [lanesFrom, RegisterLayout.role?_zero]

/-- The registers before the first instruction have the types of the kernel when
inputs and output do. -/
theorem typed_lanesFrom (hk : k.Valid)
    (hinputs : List.Forall₂ (fun l t => l.storage.elementType.accepts t = true) inputs
      k.inputSignature)
    (houtput : ∀ t, k.fullSignature[0]? = some t → output.storage.elementType.accepts t = true)
    (htemporary : ∀ reg s, (temporary reg s).storage = s) :
    (k.lanesFrom widths inputs output temporary).Typed k.fullSignature := by
  intro reg t ht
  obtain ⟨role, hrole⟩ := hk.exists_role ht
  simp only [lanesFrom, hrole, ht]
  cases role with
  | output =>
    obtain rfl := RegisterLayout.role?_eq_output_iff.1 hrole
    exact ⟨output, rfl, houtput t ht⟩
  | input =>
    obtain ⟨hi, rfl⟩ := List.getElem?_eq_some_iff.1 (hk.input_of_role hrole ht)
    have hlen := hinputs.length_eq
    exact ⟨inputs[reg - 1], List.getElem?_eq_getElem (by omega),
      (List.forall₂_iff_get.1 hinputs).2 (reg - 1) (by omega) hi⟩
  | constant =>
    obtain ⟨c, hc, haccepts⟩ := hk.constant_of_role hrole ht
    obtain ⟨l, hl, htype, -⟩ := Constant.exists_lane? (widths.getD reg 0) haccepts
    refine ⟨l, by simp only [hc, Option.bind_some, hl], ?_⟩
    rw [htype]
    exact t.accepts_refl
  | temporary =>
    refine ⟨_, rfl, ?_⟩
    rw [htemporary, ElementType.elementType_storage]
    exact t.accepts_refl

/-- Inputs and constants hold elements. -/
theorem holds_lanesFrom (hinputs : ∀ l ∈ inputs, l.cell?.isSome) {reg : Nat}
    (hreg : k.layout.isWritable reg = false) :
    (k.lanesFrom widths inputs output temporary).Holds reg := by
  intro l hl
  unfold lanesFrom at hl
  unfold RegisterLayout.isWritable at hreg
  cases hrole : k.layout.role? reg with
  | none => simp [hrole] at hl
  | some role =>
    rw [hrole] at hl hreg
    cases role with
    | output => cases hreg
    | temporary => cases hreg
    | input => exact hinputs l (List.mem_of_getElem? hl)
    | constant =>
      cases ht : k.fullSignature[reg]? with
      | none => simp [ht] at hl
      | some t =>
        simp only [ht] at hl
        obtain ⟨c, -, hc⟩ := Option.bind_eq_some_iff.1 hl
        obtain ⟨value, -, hwrite⟩ := Option.bind_eq_some_iff.1 hc
        exact (Lane.of_write? hwrite).2

/-- Part of a program runs on the machine of one lane when it reads the output
and temporaries only where they hold something. -/
theorem exists_run_lanesFrom (hk : k.Valid) {insts : List Instruction}
    (hinsts : ∀ inst ∈ insts, inst ∈ k.instructions)
    (hmap : ∀ inst ∈ insts, inst.operation.isReduction = false)
    (htypes : List.Forall₂ (fun l t => l.storage.elementType.accepts t = true) inputs
      k.inputSignature)
    (hinputs : ∀ l ∈ inputs, l.cell?.isSome)
    (houtput : ∀ t, k.fullSignature[0]? = some t → output.storage.elementType.accepts t = true)
    (htemporary : ∀ reg s, (temporary reg s).storage = s)
    (hready : ∀ before inst after, insts = before ++ inst :: after → ∀ reg ∈ inst.sources,
      k.layout.isWritable reg.toNat = true → reg.toNat ∈ destinations before ∨
        (k.lanesFrom widths inputs output temporary).Holds reg.toNat) :
    ∃ lanes', (k.lanesFrom widths inputs output temporary).run? insts = some lanes' ∧
      lanes'.Typed k.fullSignature ∧ ∀ reg, reg ∈ destinations insts ∨
        (k.lanesFrom widths inputs output temporary).Holds reg → lanes'.Holds reg := by
  refine Lanes.exists_run? (typed_lanesFrom hk htypes houtput htemporary)
    (fun inst hi => hk.wellTyped inst (hinsts inst hi)) hmap ?_
  intro before inst after heq reg hreg
  cases hw : k.layout.isWritable reg.toNat with
  | true => exact hready before inst after heq reg hreg hw
  | false => exact .inr (holds_lanesFrom hinputs hw)

end Kernel

end Lanewise
