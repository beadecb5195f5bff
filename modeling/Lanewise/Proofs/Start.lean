import Lanewise.Proofs.Traversal

/-!
# Where a block starts

Each lane of the frame of a block holds at least what the machine of one lane
starts with (`Serves.below`): constants and inputs are there, and what stands in
the other registers the machine does not ask for. So a lane that the machine gets
through ends as in the machine (`Serves.run_lanes`).
-/

namespace Lanewise

/-- What temporaries may be taken to hold at the start of any block: nothing, or
the zero they were laid out with where no instruction writes to them. -/
def Kernel.KeepsTemporaries (k : Kernel) (temporary : Nat → Storage → Lane) : Prop :=
  ∀ reg s, temporary reg s = .unset s ∨
    (reg ∉ destinations k.instructions ∧ temporary reg s = .fresh s)

/-- Instructions write to the output and to temporaries only. -/
theorem Kernel.Valid.isWritable_of_mem {k : Kernel} (hk : k.Valid) {reg : Nat}
    (h : reg ∈ destinations k.instructions) : k.layout.isWritable reg = true := by
  obtain ⟨inst, hinst, rfl⟩ := List.mem_map.1 h
  exact (hk.wellTyped inst hinst).writable

namespace Evaluation

variable {ev : Evaluation} {k : Kernel} {first : Workspace} {regs : RegisterFile} {out : Storage}
  {views : List Column} {work : Column}

/-- A constant is in every lane of its register, whatever ran before. -/
theorem Serves.lane_constant (hs : ev.Serves k first out)
    (hregs : first.registers.After (destinations k.instructions) regs) {reg : Nat} {t : ElementType}
    (hrole : k.layout.role? reg = some .constant) (ht : k.fullSignature[reg]? = some t) {j : Nat}
    (hj : j < ev.prepared.blockSize) :
    ∃ c col, k.constants[reg - k.layout.firstConstant]? = some c ∧
      regs.columns[reg]? = some col ∧
      c.lane? t (ev.prepared.stringWidths.getD reg 0) = some (col.lane j) := by
  obtain ⟨col, hcol, hinitial⟩ := hs.registers.column reg t ht
  obtain ⟨c, hc, -, -, hlane⟩ := hinitial.constant hrole
  have hunwritten : reg ∉ destinations k.instructions := by
    intro hmem
    have := hs.valid.isWritable_of_mem hmem
    simp [RegisterLayout.isWritable, hrole, RegisterRole.isWritable] at this
  exact ⟨c, col, hc, (hregs.unwritten reg hunwritten).trans hcol, hlane j hj⟩

/-- A temporary holds at least what it may be taken to hold. -/
theorem Serves.temporary_below (hs : ev.Serves k first out)
    (hregs : first.registers.After (destinations k.instructions) regs)
    {temporary : Nat → Storage → Lane} (htemporary : k.KeepsTemporaries temporary) {reg : Nat}
    {t : ElementType}
    (hrole : k.layout.role? reg = some .temporary) (ht : k.fullSignature[reg]? = some t) {j : Nat}
    (hj : j < ev.prepared.blockSize) :
    ∃ col, regs.columns[reg]? = some col ∧
      (temporary reg (t.storage (ev.prepared.stringWidths.getD reg 0))).Below (col.lane j) := by
  obtain ⟨col, hcol, hinitial⟩ := hs.registers.column reg t ht
  obtain rfl := hinitial.temporary hrole
  rcases htemporary reg (t.storage (ev.prepared.stringWidths.getD reg 0)) with
    hunset | ⟨hunwritten, hfresh⟩
  · obtain ⟨col, hcol, halike⟩ := hregs.column reg _ hcol
    exact ⟨col, hcol, hunset ▸ .unset halike.storage⟩
  · refine ⟨_, (hregs.unwritten reg hunwritten).trans hcol, ?_⟩
    rw [hfresh, Column.lane_fresh hj]
    exact .refl _

/-- The machine of one lane starts below every lane of a frame. -/
theorem Serves.below (hs : ev.Serves k first out)
    (hregs : first.registers.After (destinations k.instructions) regs) {lanes : List Lane}
    {output : Lane} {temporary : Nat → Storage → Lane}
    (htemporary : k.KeepsTemporaries temporary) {j : Nat} (hj : j < ev.prepared.blockSize)
    (hviews : ∀ (i : Nat) (l : Lane), lanes[i]? = some l →
      ∃ c : Column, views[i]? = some c ∧ c.lane j = l)
    (houtput : output.Below (work.lane j)) :
    (k.lanesFrom ev.prepared.stringWidths lanes output temporary).Below
      (Frame.lanes ⟨regs, views, work⟩ j) := by
  intro reg l hl
  have hlayout : regs.layout = k.layout := hregs.layout.trans hs.registers.layout
  unfold Kernel.lanesFrom at hl
  cases hrole : k.layout.role? reg with
  | none => simp [hrole] at hl
  | some role =>
    simp only [Frame.lanes, Frame.register?, hlayout, hrole]
    rw [hrole] at hl
    cases role with
    | output =>
      cases hl
      exact ⟨work.lane j, rfl, houtput⟩
    | input =>
      have hl : lanes[reg - 1]? = some l := hl
      obtain ⟨c, hc, hlane⟩ := hviews _ _ hl
      exact ⟨c.lane j, by simp only [hc, Option.map_some], hlane ▸ .refl _⟩
    | constant =>
      cases ht : k.fullSignature[reg]? with
      | none => simp [ht] at hl
      | some t =>
        obtain ⟨c, col, hc, hcol, hlane⟩ := hs.lane_constant hregs hrole ht hj
        simp only [ht, hc, Option.bind_some, hlane] at hl
        cases hl
        exact ⟨col.lane j, by simp only [hcol, Option.map_some], .refl _⟩
    | temporary =>
      cases ht : k.fullSignature[reg]? with
      | none => simp [ht] at hl
      | some t =>
        obtain ⟨col, hcol, hbelow⟩ := hs.temporary_below hregs htemporary hrole ht hj
        simp only [ht, Option.some.injEq] at hl
        exact ⟨col.lane j, by simp only [hcol, Option.map_some], hl ▸ hbelow⟩

/-- A part of the program that the machine gets through does the same in a lane
of a block. -/
theorem Serves.run_lanes (hs : ev.Serves k first out)
    (hregs : first.registers.After (destinations k.instructions) regs) {n : Nat}
    (hn : n ≤ ev.prepared.blockSize) (hcount : views.length = k.inputSignature.length)
    (hviewSizes : ∀ c ∈ views, n ≤ c.size) {lanes : List Lane} {output : Lane}
    {temporary : Nat → Storage → Lane} (htemporary : k.KeepsTemporaries temporary) {j : Nat}
    (hj : j < n) (hviews : ∀ (i : Nat) (l : Lane), lanes[i]? = some l →
      ∃ c : Column, views[i]? = some c ∧ c.lane j = l)
    (houtput : output.Below (work.lane j)) {mode : Accumulation} {insts : List Instruction}
    (hinsts : ∀ inst ∈ insts, inst ∈ k.instructions)
    (hmap : ∀ inst ∈ insts, inst.operation.isReduction = false)
    (hwork : ∀ inst ∈ insts, 0 ∈ inst.dest :: inst.sources → n ≤ work.size) {final : Frame}
    (hrun : (⟨regs, views, work⟩ : Frame).runAll? mode n insts = some final) {done : Lanes}
    (hdone : (k.lanesFrom ev.prepared.stringWidths lanes output temporary).run? insts
      = some done) : done.Below (final.lanes j) := by
  have hbelow := hs.below hregs htemporary (by omega) hviews houtput
  obtain ⟨last, hlast, hfinal⟩ := hbelow.run hdone
  have hlanes := Frame.runAll?_lanes hrun
    (fun inst hi =>
      hs.valid.wide hs.registers hregs hn hcount hviewSizes (hinsts inst hi) (hwork inst hi))
    (fun inst hi => (hs.valid.wellTyped inst (hinsts inst hi)).rule) hmap hj
  rw [hlanes] at hlast
  cases hlast
  exact hfinal

end Evaluation

end Lanewise
