import Lanewise.Proofs.Agreement
import Lanewise.Proofs.Checks
import Lanewise.Proofs.Pointwise
import Lanewise.Proofs.Pool

/-!
# Blocks on their own

A program that writes before it reads does with a block what it does when that
block comes first (`Evaluation.Splits.runBlock_alone`), whatever blocks ran before
and whatever part of the output there is around it. So a walk does what its blocks
do on their own: it leaves in each element what the block of the element leaves
there, or fails because one of its blocks fails
(`Evaluation.Splits.runBlocks_walked`).
The kernel need not be valid: blocks may fail for all reasons there are.
-/

namespace Lanewise

open Shape (size)

/-! ## Buffers that earlier blocks used -/

/-- Registers that programs leave alone: no instruction writes to them, or they
cannot be written to. -/
def Kernel.LeavesAlone (k : Kernel) (reg : Nat) : Prop :=
  reg ∉ destinations k.instructions ∨ k.layout.isWritable reg = false

/-- Buffers as blocks of a program leave them, given those before the first one. -/
structure Workspace.LeftBy (k : Kernel) (first w : Workspace) : Prop where
  registers : first.registers.Agree (fun reg _ => reg ≠ 0 ∧ k.LeavesAlone reg) w.registers
  staging : List.Forall₂ Column.Alike first.staging w.staging
  scratch : first.scratch.Alike w.scratch
  kept : k.LeavesAlone 0 → w.scratch = first.scratch

theorem Workspace.LeftBy.refl (k : Kernel) (w : Workspace) : w.LeftBy k w :=
  ⟨.refl _ _, List.forall₂_same.2 fun c _ => .refl c, .refl _, fun _ => rfl⟩

/-- Registers that blocks may rely on. -/
theorem Workspace.LeftBy.agree {k : Kernel} {first a b : Workspace} (ha : first.LeftBy k a)
    (hb : first.LeftBy k b) :
    a.registers.Agree (fun reg _ => reg ≠ 0 ∧ k.LeavesAlone reg) b.registers :=
  ha.registers.symm.trans hb.registers

/-- One more thread gets such buffers. -/
theorem Workspace.LeftBy.fork [Allocator] {k : Kernel} {p : Prepared} {storages : List Storage}
    {out : Storage} {first w w' : Workspace} (hfirst : first.Initial k p storages out)
    (h : first.LeftBy k w) (hfork : w.fork = .ok w') : first.LeftBy k w' := by
  obtain ⟨hregisters, hstaging, hscratch⟩ := Workspace.of_fork hfork
  have hfresh : w'.scratch = first.scratch := by
    rw [hscratch, h.scratch.storage, h.scratch.size, hfirst.scratch, Column.size_fresh,
      Column.storage_fresh]
  refine ⟨hregisters ▸ h.registers, ?_, hfresh ▸ .refl _, fun _ => hfresh⟩
  exact forall₂_trans (fun hab hbc => hab.trans hbc) h.staging hstaging

/-! ## Evaluations that can be split -/

/-- The block that a walk in whole blocks has at a position. -/
def Iteration.blockAt (it : Iteration) (p : Nat) : Block :=
  ⟨p, min it.blockSize (it.size - p)⟩

/-- The block is a block of at most the size of all, within the iteration. -/
theorem Iteration.blockAt_spec {it : Iteration} {p : Nat} (hp : p < it.size) :
    0 < (it.blockAt p).len ∧ (it.blockAt p).len ≤ it.blockSize ∧
      p + (it.blockAt p).len ≤ it.size := by
  have := it.blockSize_pos
  simp only [blockAt]
  omega

/-- Blocks are cut short at the end of the iteration only, so a walk over whole
blocks has the same ones. -/
theorem Iteration.blockAt_of_aligned {it : Iteration} {p stop : Nat} (haligned : it.blockSize ∣ p)
    (hp : p < stop) (hstop : stop ≤ it.size) (hend : stop = it.size ∨ it.blockSize ∣ stop) :
    ⟨p, min it.blockSize (stop - p)⟩ = it.blockAt p ∧ p + (it.blockAt p).len ≤ stop ∧
      (p + (it.blockAt p).len < stop → it.blockSize ∣ p + (it.blockAt p).len) := by
  have hlen : min it.blockSize (stop - p) = (it.blockAt p).len := by
    rcases hend with rfl | hwhole
    · rfl
    · have := Nat.le_of_dvd (by omega) (Nat.dvd_sub hwhole haligned)
      simp only [blockAt]
      omega
  refine ⟨by rw [hlen]; rfl, by omega, fun hlt => ?_⟩
  have hfull : (it.blockAt p).len = it.blockSize := by omega
  rw [hfull]
  exact Nat.dvd_add haligned (Nat.dvd_refl _)

namespace Evaluation

instance (source : Source) : Decidable (source = .output) :=
  match source with
  | .array _ => .isFalse nofun
  | .output => .isTrue rfl

section InOrder

variable [Allocator]

/-- A program that writes before it reads, over all positions of an iteration in
which position `p` has element `p` of the output, also where it reads the output.
Buffers were laid out for the program. -/
structure InOrder (ev : Evaluation) (k : Kernel) (w : Workspace) (out : Column) (it : Iteration)
    (output : Strided) (inputs : List Strided) : Prop where
  mode : ev.mode? = none
  prepared : ∃ boundsCheck widths, ev.prepared = k.prepare it.blockSize boundsCheck widths
  ready : k.WritesBeforeReads
  buffers : Workspace.ofKernel k ev.prepared (ev.sources.map (Source.storage out.storage))
    out.storage = .ok w
  operands : it.operands = output :: inputs
  paired : inputs.length = ev.sources.length
  outputStrides : output.strides.length = it.shape.length
  inputStrides : ∀ op ∈ inputs, op.strides.length = it.shape.length
  range : it.position = 0 ∧ it.stop = it.size
  contiguous : ∀ p < it.size, output.offset it.shape p = p
  sources : ∀ x ∈ inputs.zip ev.sources, x.2 = .output → ∀ p < it.size, x.1.offset it.shape p = p

/-- The output has as many elements as there are positions, and no array ends
within a block that reads it in place. -/
structure Splits (ev : Evaluation) (k : Kernel) (w : Workspace) (out : Column) (it : Iteration)
    (output : Strided) (inputs : List Strided) : Prop
    extends ev.InOrder k w out it output inputs where
  count : out.size = it.size
  arrays : ∀ x ∈ inputs.zip ev.sources, ∀ p < it.size, it.blockSize ∣ p →
    x.2.covers x.1 it.shape (it.blockAt p) = true

end InOrder

/-- What the output holds after a block that comes first. -/
def alone? (ev : Evaluation) (w : Workspace) (out : Column) (it : Iteration) (p : Nat) :
    Option Column :=
  match ev.runBlock (it.blockAt p) ⟨w, ⟨out, 0⟩, it⟩ with
  | .ok _ t => some t.sink.data
  | .error _ _ => none

/-- What the block of a position leaves there, when it comes first. -/
def Leaves (ev : Evaluation) (w : Workspace) (out : Column) (it : Iteration) (p : Nat) (l : Lane) :
    Prop :=
  ∃ data, ev.alone? w out it (p / it.blockSize * it.blockSize) = some data ∧ l = data.lane p

/-- A block may come now: buffers are as blocks leave them, and its elements are
there, as they were. -/
structure Meets (k : Kernel) (w : Workspace) (out : Column) (it : Iteration) (block : Block)
    (t : Traversal) : Prop where
  workspace : w.LeftBy k t.workspace
  storage : t.sink.data.storage = out.storage
  operands : t.iteration.operands = it.operands
  shape : t.iteration.shape = it.shape
  base_le : t.sink.base ≤ block.start
  le_size : block.start + block.len ≤ t.sink.base + t.sink.data.size
  lane : ∀ p, block.start ≤ p → p < block.start + block.len →
    t.sink.data.lane (p - t.sink.base) = out.lane p

/-- A walk over the positions from `start` up to `stop` that has come to a position:
the elements before it are as their blocks leave them, the others as they were. -/
structure Walked (ev : Evaluation) (k : Kernel) (w : Workspace) (out : Column) (it : Iteration)
    (start stop position : Nat) (t : Traversal) : Prop where
  workspace : w.LeftBy k t.workspace
  storage : t.sink.data.storage = out.storage
  size : t.sink.data.size = stop - start
  base : t.sink.base = start
  done : ∀ p, start ≤ p → p < position → ev.Leaves w out it p (t.sink.data.lane (p - start))
  todo : ∀ p, position ≤ p → p < stop → t.sink.data.lane (p - start) = out.lane p

/-- A block of an operand that has element `p` at position `p` ends with the positions. -/
theorem row_stop {it : Iteration} {op : Strided} (hlen : op.strides.length = it.shape.length)
    (hoffset : ∀ q < it.size, op.offset it.shape q = q) {p start : Nat} (hp : p < it.size)
    (h : op.access? it.shape (it.blockAt p) = some (.even start 1)) :
    start + (it.blockAt p).len < UInt64.size := by
  obtain ⟨hpos, -, hstop⟩ := Iteration.blockAt_spec hp
  have hfirst := Strided.offset_of_access?_one h hlen hpos
  rw [Nat.add_zero, Nat.add_zero] at hfirst
  obtain rfl : p = start := (hoffset p hp).symm.trans hfirst
  exact Shape.lt_uint64_iff.2 (Nat.le_trans hstop it.size_le)

namespace Splits

variable [Allocator] {ev : Evaluation} {k : Kernel} {w : Workspace} {out : Column} {it : Iteration}
  {output : Strided} {inputs : List Strided}

theorem steps (h : ev.Splits k w out it output inputs) :
    ev.prepared.steps = predecode k.program.code := by
  obtain ⟨_, _, hprepared⟩ := h.prepared
  rw [hprepared]
  rfl

theorem blockSize (h : ev.Splits k w out it output inputs) :
    ev.prepared.blockSize = it.blockSize := by
  obtain ⟨_, _, hprepared⟩ := h.prepared
  rw [hprepared]
  rfl

theorem initial (h : ev.Splits k w out it output inputs) :
    w.Initial k ev.prepared (ev.sources.map (Source.storage out.storage)) out.storage :=
  Workspace.initial_of_ofKernel h.buffers

section Block

variable {p : Nat} {t t' t₁ t₁' t₂ t₂' : Traversal} {views views₁ views₂ : List Column}
  {work work₁ work₂ : Column} {final final₁ final₂ : Frame}
  (h : ev.Splits k w out it output inputs)

include h

theorem notSingle : ev.mode? ≠ some .single := by
  rw [h.mode]
  exact nofun

/-- Inputs can be collected, a block at a time. -/
theorem collectsIn (hw : w.LeftBy k t.workspace) (hstorage : t.sink.data.storage = out.storage)
    {n : Nat} (hn : n ≤ it.blockSize) :
    ev.CollectsIn t.sink.data.storage n t.workspace.staging := by
  refine CollectsIn.alike ?_ hw.staging
  rw [CollectsIn, h.initial.staging, List.map_map, List.forall₂_map_right_iff, List.forall₂_same,
    hstorage]
  refine fun source _ => ⟨rfl, ?_⟩
  rw [Function.comp_apply, Column.size_fresh, h.blockSize]
  exact hn

/-- The scratch column has room for any block. -/
theorem scratch_spec (hw : w.LeftBy k t.workspace) :
    t.workspace.scratch.storage = out.storage ∧ t.workspace.scratch.size = it.blockSize := by
  rw [hw.scratch.storage, hw.scratch.size, h.initial.scratch, Column.size_fresh, h.blockSize]
  exact ⟨rfl, rfl⟩

/-- Whatever an instruction reads was written by an earlier one, or is not the
output and left alone. -/
theorem ready_or {before after : List Instruction} {inst : Instruction}
    (heq : k.instructions = before ++ inst :: after) {reg : UInt8} (hreg : reg ∈ inst.sources) :
    reg.toNat ∈ destinations before ∨ (reg.toNat ≠ 0 ∧ k.LeavesAlone reg.toNat) := by
  cases hw : k.layout.isWritable reg.toNat with
  | true => exact .inl (h.ready before inst after heq reg hreg hw)
  | false =>
    refine .inr ⟨fun hzero => ?_, .inr hw⟩
    rw [hzero, RegisterLayout.isWritable, RegisterLayout.role?_eq_output_iff.2 rfl] at hw
    cases hw

/-- Buffers after a block. -/
theorem leftBy (hw : w.LeftBy k t.workspace)
    (hrun : ev.BlockRun output inputs it.shape (it.blockAt p) views work final t t') :
    w.LeftBy k t'.workspace := by
  have hprogram := hrun.run
  rw [h.mode] at hprogram
  have hkeeps := Prepared.run_keeps h.steps hprogram
  have hlayout : t.workspace.registers.layout = k.layout :=
    hw.registers.layout.trans h.initial.registers.layout
  simp only [hlayout] at hkeeps
  refine ⟨?_, hrun.staging ▸ hw.staging, hw.scratch.trans hrun.scratch, fun hzero => ?_⟩
  · rw [hrun.registers]
    exact hw.registers.trans hkeeps.registers
  -- a block that leaves its output alone stores the scratch column as it found it
  · rw [hrun.kept h.mode (hkeeps.output.symm.eq fun _ _ => hzero), hw.kept hzero]

variable (hp : p < it.size)

include hp

/-- A block can come first. -/
theorem meets_first :
    Meets k w out it (it.blockAt p) ⟨w, ⟨out, 0⟩, it⟩ := by
  refine ⟨.refl k w, rfl, rfl, rfl, Nat.zero_le _, ?_, fun _ _ _ => rfl⟩
  rw [h.count, Nat.zero_add]
  exact (Iteration.blockAt_spec hp).2.2

theorem broad (hw : w.LeftBy k t.workspace) :
    t.workspace.registers.Broad (it.blockAt p).len := by
  intro reg c hc hrole
  have hle := h.initial.registers.broad.agree hw.registers reg c hc hrole
  rw [h.blockSize] at hle
  exact Nat.le_trans (Iteration.blockAt_spec hp).2.1 hle

/-- All views of a block show the same. -/
theorem views_eq (hm₁ : Meets k w out it (it.blockAt p) t₁)
    (hm₂ : Meets k w out it (it.blockAt p) t₂)
    (hviews₁ : ev.Views inputs it.shape (it.blockAt p) t₁.sink views₁)
    (hviews₂ : ev.Views inputs it.shape (it.blockAt p) t₂.sink views₂) : views₁ = views₂ := by
  refine hviews₁.eq hviews₂ ?_
  rw [List.forall₂_same]
  rintro ⟨op, source⟩ hx
  cases source with
  | array data => exact ⟨rfl, fun _ _ => rfl⟩
  | output =>
    refine ⟨hm₁.storage.trans hm₂.storage.symm, fun j hj => ?_⟩
    have hstop := (Iteration.blockAt_spec hp).2.2
    have hoffset : op.offset it.shape ((it.blockAt p).start + j) = (it.blockAt p).start + j :=
      h.sources _ hx rfl _ (Nat.lt_of_lt_of_le (Nat.add_lt_add_left hj p) hstop)
    simp only [Source.lane, hoffset]
    rw [hm₁.lane _ (Nat.le_add_right _ _) (Nat.add_lt_add_left hj _),
      hm₂.lane _ (Nat.le_add_right _ _) (Nat.add_lt_add_left hj _)]

/-- The inputs of a block that goes well somewhere can be read anywhere. -/
theorem readable (haligned : it.blockSize ∣ p) (hm₁ : Meets k w out it (it.blockAt p) t₁)
    {staged : List Staged} (hstaged : ev.stageAll t₁ (it.blockAt p) = .ok staged)
    (hm : Meets k w out it (it.blockAt p) t) {x : Strided × Source}
    (hx : x ∈ inputs.zip ev.sources) :
    x.1.strides.length = it.shape.length ∧ x.1.Counts it.shape (it.blockAt p) ∧
      ∀ j < (it.blockAt p).len,
        x.2.Reaches t.sink.base t.sink.data.size x.1 it.shape ((it.blockAt p).start + j) := by
  obtain ⟨-, hfull, hstop⟩ := Iteration.blockAt_spec hp
  have hstrides := h.inputStrides x.1 (List.of_mem_zip hx).1
  obtain ⟨i, hi⟩ := List.mem_iff_getElem?.1 hx
  obtain ⟨hop, hsource⟩ := List.getElem?_zip_eq_some.1 hi
  have hinput := (h.collectsIn hm₁.workspace hm₁.storage hfull).input
    (hm₁.operands.trans h.operands) hop hsource
  obtain ⟨s, hs⟩ := exists_stage hstaged hsource
  have hshape := hm₁.shape
  refine ⟨hstrides, ?_, fun j hj => ?_⟩
  · rw [← hshape]
    refine Source.counts_of_stage hinput.operand hs fun hout start hrow => ?_
    rw [hshape] at hrow
    exact row_stop hstrides (h.sources x hx hout) hp hrow
  obtain ⟨op, source⟩ := x
  cases source with
  | array data =>
    have hreaches := Source.reaches_of_stage hinput (hshape ▸ Nat.ne_of_gt (Nat.zero_lt_of_lt hp))
      (hshape ▸ hstrides) (hshape ▸ h.arrays _ hx p hp haligned) hs j hj
    rwa [hshape] at hreaches
  | output =>
    have hoffset : op.offset it.shape ((it.blockAt p).start + j) = (it.blockAt p).start + j :=
      h.sources _ hx rfl _ (Nat.lt_of_lt_of_le (Nat.add_lt_add_left hj p) hstop)
    have hbase := hm.base_le
    have hsize := hm.le_size
    simp only [Source.Reaches, hoffset]
    omega

/-- Each element of a block has its place in the sink. -/
theorem lands (hm : Meets k w out it (it.blockAt p) t) :
    ev.Lands output it.shape p (p + (it.blockAt p).len) t.sink.base t.sink.data.size := by
  have hoffset : ∀ q, q < p + (it.blockAt p).len → output.offset it.shape q = q := fun q hq =>
    h.contiguous q (Nat.lt_of_lt_of_le hq (Iteration.blockAt_spec hp).2.2)
  have hbase : t.sink.base ≤ p := hm.base_le
  have hsize : p + (it.blockAt p).len ≤ t.sink.base + t.sink.data.size := hm.le_size
  refine ⟨fun hsingle => absurd hsingle h.notSingle, fun _ q hq hlt => ?_⟩
  rw [hoffset q hlt]
  refine ⟨by omega, by omega, fun r hr hlt' heq => ?_⟩
  rwa [hoffset r hlt'] at heq

/-- The column that a block works on has as many elements as the block. -/
theorem workColumn_alike (hm : Meets k w out it (it.blockAt p) t)
    (hcounts : output.Counts it.shape (it.blockAt p)) {placement : Placement}
    (hplace : ev.place t.sink output it.shape (it.blockAt p) = .ok placement) :
    (workColumn t (it.blockAt p).len placement).storage = out.storage ∧
      (workColumn t (it.blockAt p).len placement).size = (it.blockAt p).len := by
  obtain ⟨hlen, hfull, -⟩ := Iteration.blockAt_spec hp
  have hpos : size it.shape ≠ 0 := Nat.ne_of_gt (Nat.zero_lt_of_lt hp)
  have hlands := h.lands hp hm
  have hbase : ∀ j < (it.blockAt p).len,
      t.sink.base ≤ output.offset it.shape ((it.blockAt p).start + j) := fun j hj =>
    (hlands.moving h.notSingle _ (Nat.le_add_right _ _) (Nat.add_lt_add_left hj _)).1
  rcases place_moving h.notSingle hpos h.outputStrides hlen hcounts hbase with
    ⟨-, first, hdirect, -, htargets⟩ | ⟨-, hscratch⟩
  · rw [hdirect] at hplace
    cases hplace
    -- the last element of the slice is one of the sink, so nothing is cut off
    have hin := (hlands.targets h.notSingle (Nat.le_refl _) (Nat.le_refl _)).1
      (first + ((it.blockAt p).len - 1)) (by
        rw [htargets, List.mem_range'_1]
        omega)
    refine ⟨(Column.storage_slice _ _ _).trans hm.storage, ?_⟩
    rw [workColumn, Column.size_slice (by omega), Nat.add_sub_cancel_left]
  · rw [hscratch] at hplace
    cases hplace
    obtain ⟨hstorage, hroom⟩ := h.scratch_spec hm.workspace
    exact ⟨hstorage, Column.size_head (hroom ▸ hfull)⟩

/-- A block that goes well somewhere has an output that can be counted on. -/
theorem outputCounts {sink : Sink} {placement : Placement}
    (hplace : ev.place sink output it.shape (it.blockAt p) = .ok placement) :
    output.Counts it.shape (it.blockAt p) :=
  counts_of_place h.mode hplace fun _ hrow => row_stop h.outputStrides h.contiguous hp hrow

/-- A program that runs on a block somewhere runs on it anywhere. -/
theorem exists_final (haligned : it.blockSize ∣ p) (hm₁ : Meets k w out it (it.blockAt p) t₁)
    (hrun : ev.runBlock (it.blockAt p) t₁ = .ok () t₁') (hm : Meets k w out it (it.blockAt p) t)
    (hviews : ev.Views inputs it.shape (it.blockAt p) t.sink views)
    (hstorage : work.storage = out.storage) (hsize : work.size = (it.blockAt p).len) :
    ∃ final, ev.prepared.run ev.mode? (it.blockAt p).len ⟨t.workspace.registers, views, work⟩
      = (.ok (), final) ∧ work.Alike final.output := by
  have hpos : size it.shape ≠ 0 := Nat.ne_of_gt (Nat.zero_lt_of_lt hp)
  obtain ⟨staged, views₁, placement, final₁, hstaged, hmap, hplace, hrun₁⟩ :=
    of_runBlock_eq_ok h.mode (hm₁.operands.trans h.operands) hrun
  rw [hm₁.shape] at hplace
  obtain ⟨hstorage₁, hsize₁⟩ := h.workColumn_alike hp hm₁ (h.outputCounts hp hplace) hplace
  obtain ⟨hlen, hfull, -⟩ := Iteration.blockAt_spec hp
  obtain ⟨_, _, hstaged', hmap', hviews₁⟩ := exists_views (hm₁.operands.trans h.operands) h.paired
    (h.collectsIn hm₁.workspace hm₁.storage hfull) (hm₁.shape ▸ hpos) hlen
    fun x hx => hm₁.shape ▸ h.readable hp haligned hm₁ hstaged hm₁ hx
  obtain rfl := Except.ok.inj (hstaged'.symm.trans hstaged)
  obtain rfl := Except.ok.inj (hmap'.symm.trans hmap)
  rw [hm₁.shape] at hviews₁
  obtain rfl := h.views_eq hp hm hm₁ hviews hviews₁
  -- the program cannot tell what it works on, so the output need not agree
  have hagree : Frame.Agree (fun reg _ => reg ≠ 0 ∧ k.LeavesAlone reg)
      ⟨t₁.workspace.registers, views, workColumn t₁ (it.blockAt p).len placement⟩
      ⟨t.workspace.registers, views, work⟩ :=
    ⟨(hm₁.workspace.agree hm.workspace).mono fun _ _ hreg => hreg.2, rfl,
      ⟨hstorage.trans hstorage₁.symm, hsize.trans hsize₁.symm⟩, fun _ hzero => absurd rfl hzero.1⟩
  rw [h.mode] at hrun₁ ⊢
  obtain ⟨final, hfinal, -⟩ := Prepared.run_agree h.steps
    (fun before inst after heq reg hreg => (h.ready_or heq hreg).imp_right fun hknown _ _ => hknown)
    hagree (Frame.broad_mk (h.broad hp hm₁.workspace) hviews₁.le_size (Nat.le_of_eq hsize₁.symm))
    hrun₁
  exact ⟨final, hfinal, (Prepared.run_keeps h.steps hfinal).output.alike⟩

/-- A block that goes well somewhere goes well anywhere. -/
theorem exists_blockRun (haligned : it.blockSize ∣ p) (hm₁ : Meets k w out it (it.blockAt p) t₁)
    (hrun : ev.runBlock (it.blockAt p) t₁ = .ok () t₁')
    (hm : Meets k w out it (it.blockAt p) t) :
    ∃ t' views work final, ev.runBlock (it.blockAt p) t = .ok () t' ∧
      ev.BlockRun output inputs it.shape (it.blockAt p) views work final t t' := by
  obtain ⟨hlen, hfull, -⟩ := Iteration.blockAt_spec hp
  obtain ⟨staged, _, placement, _, hstaged, -, hplace, -⟩ :=
    of_runBlock_eq_ok h.mode (hm₁.operands.trans h.operands) hrun
  rw [hm₁.shape] at hplace
  obtain ⟨hscratch, hroom⟩ := h.scratch_spec hm.workspace
  refine runBlock_eq_ok (hm.operands.trans h.operands) hm.shape
    (Nat.ne_of_gt (Nat.zero_lt_of_lt hp)) hlen h.outputStrides (h.outputCounts hp hplace) h.paired
    (h.collectsIn hm.workspace hm.storage hfull)
    (fun x hx => h.readable hp haligned hm₁ hstaged hm hx) (h.lands hp hm) (Nat.le_refl _)
    (Nat.le_refl _) (hscratch.trans hm.storage.symm) (hroom ▸ hfull) ?_
  intro views work hviews hstorage hsize
  rw [blockTargets, if_neg h.notSingle, length_targets] at hsize
  exact h.exists_final hp haligned hm₁ hrun hm hviews (hstorage.trans hm.storage) hsize

/-- The elements that a block writes to. -/
theorem targets_eq (base : Nat) :
    (ev.blockTargets base output it.shape (it.blockAt p)).length = (it.blockAt p).len ∧
      ∀ j (hj : j < (ev.blockTargets base output it.shape (it.blockAt p)).length),
        (ev.blockTargets base output it.shape (it.blockAt p))[j] = p + j - base :=
  mem_blockTargets ev base h.notSingle (fun q _ hq => h.contiguous q hq) (Nat.zero_le _)
    (Iteration.blockAt_spec hp).2.2

/-- What a block starts to work on, where the program leaves the output alone. -/
theorem work_lane (hm : Meets k w out it (it.blockAt p) t)
    (hrun : ev.BlockRun output inputs it.shape (it.blockAt p) views work final t t')
    (hzero : k.LeavesAlone 0) {j : Nat} (hj : j < (it.blockAt p).len) :
    (ev.InPlace output it.shape (it.blockAt p) ∧ work.lane j = out.lane (p + j)) ∨
      (¬ ev.InPlace output it.shape (it.blockAt p) ∧ work.lane j = w.scratch.lane j) := by
  obtain ⟨hlen, htargets⟩ := h.targets_eq hp t.sink.base
  rcases hrun.started with ⟨hdirect, hlanes⟩ | ⟨-, hscratch, hlanes⟩
  · refine .inl ⟨hdirect h.mode, ?_⟩
    rw [hlanes j (by omega), htargets j (by omega)]
    exact hm.lane _ (Nat.le_add_right _ _) (Nat.add_lt_add_left hj _)
  · refine .inr ⟨hscratch, ?_⟩
    rw [hlanes j hj, hm.workspace.kept hzero]

/-- What a block puts in place. -/
theorem sink_lane (hrun : ev.BlockRun output inputs it.shape (it.blockAt p) views work final t t')
    {j : Nat} (hj : j < (it.blockAt p).len) :
    t'.sink.data.lane (p + j - t.sink.base) = final.output.lane j := by
  obtain ⟨hlen, htargets⟩ := h.targets_eq hp t.sink.base
  rw [← htargets j (by omega)]
  exact hrun.sink.at_position j (by omega)

/-- A block leaves the same elements wherever it goes well. -/
theorem output_eq (hm₁ : Meets k w out it (it.blockAt p) t₁)
    (hm₂ : Meets k w out it (it.blockAt p) t₂)
    (hrun₁ : ev.BlockRun output inputs it.shape (it.blockAt p) views₁ work₁ final₁ t₁ t₁')
    (hrun₂ : ev.BlockRun output inputs it.shape (it.blockAt p) views₂ work₂ final₂ t₂ t₂') :
    final₁.output = final₂.output := by
  obtain rfl := h.views_eq hp hm₁ hm₂ hrun₁.viewed hrun₂.viewed
  -- both work in place or both on the scratch column, which nothing has changed
  have hwork : k.LeavesAlone 0 → ∀ j < (it.blockAt p).len, work₁.lane j = work₂.lane j := by
    intro hzero j hj
    rcases h.work_lane hp hm₁ hrun₁ hzero hj with ⟨hplace, hlane⟩ | ⟨hplace, hlane⟩
    · rcases h.work_lane hp hm₂ hrun₂ hzero hj with ⟨-, hlane'⟩ | ⟨hplace', -⟩
      · rw [hlane, hlane']
      · exact absurd hplace hplace'
    · rcases h.work_lane hp hm₂ hrun₂ hzero hj with ⟨hplace', -⟩ | ⟨-, hlane'⟩
      · exact absurd hplace' hplace
      · rw [hlane, hlane']
  have hzero : 0 ∈ destinations k.instructions ∨ k.LeavesAlone 0 := (em _).imp_right .inl
  exact (hrun₁.agree k.LeavesAlone hrun₂ h.mode h.mode rfl h.steps
    (fun before inst after heq reg hreg => (h.ready_or heq hreg).imp_right And.right) hzero
    (hm₁.workspace.agree hm₂.workspace) (hm₁.storage.trans hm₂.storage.symm) hwork
    (h.broad hp hm₁.workspace)).2

/-- **Blocks do not depend on each other.** A block does what it does when it
comes first, and leaves all else alone. -/
theorem runBlock_alone (haligned : it.blockSize ∣ p) (hm : Meets k w out it (it.blockAt p) t) :
    (∃ data t', ev.alone? w out it p = some data ∧ ev.runBlock (it.blockAt p) t = .ok () t' ∧
      t'.iteration = t.iteration ∧ w.LeftBy k t'.workspace ∧ t'.sink.base = t.sink.base ∧
      t.sink.data.Alike t'.sink.data ∧
      (∀ j < (it.blockAt p).len, t'.sink.data.lane (p + j - t.sink.base) = data.lane (p + j)) ∧
      ∀ q, t.sink.base ≤ q → (q < p ∨ p + (it.blockAt p).len ≤ q) →
        t'.sink.data.lane (q - t.sink.base) = t.sink.data.lane (q - t.sink.base)) ∨
    (ev.alone? w out it p = none ∧ ∃ e t', ev.runBlock (it.blockAt p) t = .error e t') := by
  have hfirst := h.meets_first hp
  -- going well carries over from here to the first place and back, so failing does too
  cases hrun : ev.runBlock (it.blockAt p) t with
  | error e t' =>
    refine .inr ⟨?_, e, t', rfl⟩
    unfold alone?
    cases halone : ev.runBlock (it.blockAt p) ⟨w, ⟨out, 0⟩, it⟩ with
    | error e t' => rfl
    | ok _ t₁ =>
      obtain ⟨_, _, _, _, hok, -⟩ := h.exists_blockRun hp haligned hfirst halone hm
      rw [hrun] at hok
      cases hok
  | ok _ t' =>
    obtain ⟨t₁, _, _, final₁, halone, hblock₁⟩ := h.exists_blockRun hp haligned hm hrun hfirst
    obtain ⟨t', _, _, final, hok, hblock⟩ := h.exists_blockRun hp haligned hm hrun hm
    cases hrun.symm.trans hok
    have hsame := h.output_eq hp hm hfirst hblock hblock₁
    refine .inl ⟨t₁.sink.data, t', by simp only [alone?, halone], rfl, hblock.iteration,
      h.leftBy hm.workspace hblock, hblock.base, hblock.sink.alike, fun j hj => ?_,
      fun q hq hother => ?_⟩
    · rw [h.sink_lane hp hblock hj, hsame]
      exact (h.sink_lane hp hblock₁ hj).symm
    · refine hblock.sink.elsewhere _ ?_
      exact notMem_blockTargets ev h.notSingle (fun r _ hr => h.contiguous r hr)
        hm.base_le (Iteration.blockAt_spec hp).2.2 (Nat.le_refl _) hq hother

end Block

/-! ## Walks -/

section Walk

variable {start stop p : Nat} {t : Traversal}

/-- A block moves a walk on, or ends it. -/
theorem runBlock_walked (h : ev.Splits k w out it output inputs) (haligned : it.blockSize ∣ p)
    (hlow : start ≤ p) (hp : p < it.size) (hstop : p + (it.blockAt p).len ≤ stop)
    (hoperands : t.iteration.operands = it.operands) (hshape : t.iteration.shape = it.shape)
    (ht : ev.Walked k w out it start stop p t) :
    (∃ t', ev.runBlock (it.blockAt p) t = .ok () t' ∧
      ev.Walked k w out it start stop (p + (it.blockAt p).len) t') ∨
    (ev.alone? w out it p = none ∧ ∃ e t', ev.runBlock (it.blockAt p) t = .error e t') := by
  obtain ⟨-, hfull, -⟩ := Iteration.blockAt_spec hp
  have hbase := ht.base
  have hmeets : Meets k w out it (it.blockAt p) t := by
    refine ⟨ht.workspace, ht.storage, hoperands, hshape, ?_, ?_, fun q hq hlt => ?_⟩
    · rw [hbase]
      exact hlow
    · rw [hbase, ht.size]
      change p + _ ≤ _
      omega
    · rw [hbase]
      exact ht.todo q hq (Nat.lt_of_lt_of_le hlt hstop)
  rcases h.runBlock_alone hp haligned hmeets with
    ⟨data, t', halone, hrun, -, hw, hbase', halike, hinside, houtside⟩ | hfails
  · rw [hbase] at hinside houtside
    refine .inl ⟨t', hrun, hw, halike.storage.trans ht.storage, halike.size.trans ht.size,
      hbase'.trans hbase, fun q hq hlt => ?_, fun q hq hlt => ?_⟩
    · by_cases hbefore : q < p
      -- the block leaves the elements before it alone
      · rw [houtside q hq (.inl hbefore)]
        exact ht.done q hq hbefore
      · obtain ⟨j, rfl⟩ := Nat.exists_eq_add_of_le (Nat.le_of_not_lt hbefore)
        have hj : j < (it.blockAt p).len := by omega
        obtain ⟨m, rfl⟩ := haligned
        -- the element belongs to this block and no earlier one
        have hblock : (it.blockSize * m + j) / it.blockSize = m :=
          ((Nat.div_mod_unique it.blockSize_pos).2 ⟨Nat.add_comm _ _, by omega⟩).1
        refine ⟨data, ?_, hinside j hj⟩
        rw [hblock, Nat.mul_comm]
        exact halone
    · rw [houtside q (by omega) (.inr hq)]
      exact ht.todo q (by omega) hlt
  · exact .inr hfails

/-- **A walk does what its blocks do on their own.** It goes well and leaves what
they leave, or it fails and one of them fails on its own. -/
theorem runBlocks_walked (h : ev.Splits k w out it output inputs) (hstop : stop ≤ it.size)
    (hend : stop = it.size ∨ it.blockSize ∣ stop) (rest : Iteration)
    (hoperands : rest.operands = it.operands) (hshape : rest.shape = it.shape)
    (hsize : rest.blockSize = it.blockSize) (hrest : rest.stop = stop)
    (hlow : start ≤ rest.position) (hhigh : rest.position ≤ stop)
    (haligned : rest.position < stop → it.blockSize ∣ rest.position) {t : Traversal}
    (ht : ev.Walked k w out it start stop rest.position t) :
    (∃ t', ev.runBlocks rest t = .ok () t' ∧ ev.Walked k w out it start stop stop t') ∨
    ((∃ e t', ev.runBlocks rest t = .error e t') ∧
      ∃ p, start ≤ p ∧ p < stop ∧ it.blockSize ∣ p ∧ ev.alone? w out it p = none) := by
  by_cases hmore : rest.position < rest.stop
  · have hp : rest.position < stop := by omega
    have hdvd := haligned hp
    obtain ⟨hblock, hlen, hnextAligned⟩ := Iteration.blockAt_of_aligned hdvd hp hstop hend
    let next : Iteration :=
      { rest with position := rest.position + (it.blockAt rest.position).len }
    have hnext : rest.next? = some (it.blockAt rest.position, next) := by
      simp only [next, ← hblock, ← hsize, ← hrest]
      exact if_pos hmore
    have hdecrease : next.remaining < rest.remaining := Iteration.remaining_lt_of_next? hnext
    have ht₁ : ev.Walked k w out it start stop rest.position { t with iteration := next } :=
      ⟨ht.workspace, ht.storage, ht.size, ht.base, ht.done, ht.todo⟩
    rw [runBlocks_next hnext]
    rcases h.runBlock_walked hdvd hlow (Nat.lt_of_lt_of_le hp hstop) hlen hoperands hshape ht₁ with
      ⟨t₂, hrun, ht₂⟩ | ⟨hfails, e, t₂, hrun⟩
    · rcases h.runBlocks_walked hstop hend next hoperands hshape hsize hrest
          (Nat.le_trans hlow (Nat.le_add_right _ _)) hlen hnextAligned ht₂ with
        ⟨t', hdone, ht'⟩ | ⟨⟨e, t', herror⟩, hfails⟩
      · exact .inl ⟨t', TraversalM.bind_eq_ok _ hrun hdone, ht'⟩
      · exact .inr ⟨⟨e, t', (TraversalM.bind_apply hrun _).trans herror⟩, hfails⟩
    · refine .inr ⟨⟨e, t₂, ?_⟩, rest.position, hlow, hp, hdvd, hfails⟩
      simp only [bind, EStateM.bind, hrun]
  · have hdone : rest.next? = none := if_neg hmore
    have hposition : rest.position = stop := by omega
    rw [runBlocks_done hdone]
    exact .inl ⟨t, rfl, hposition ▸ ht⟩
termination_by rest.remaining

end Walk

end Splits

end Evaluation

end Lanewise
