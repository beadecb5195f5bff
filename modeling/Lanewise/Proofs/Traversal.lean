import Lanewise.Proofs.BlockRun

/-!
# Walks that go well

A walk over the blocks of an iteration meets no failure when the evaluation
serves a valid kernel (`Serves`) and its operands stay within their arrays
(`Walk`). What the blocks do to buffers and output is told by an invariant that
each block moves on (`runPlain_eq_ok`, `runFrom_eq_ok`).
-/

namespace Lanewise

open Shape (size)

/-- A walk is at its end, or goes on with a block of what it has left. -/
theorem Iteration.next?_cases (it : Iteration) :
    (it.next? = none ∧ it.stop ≤ it.position) ∨ ∃ block : Block,
      it.next? = some (block, { it with position := block.start + block.len }) ∧
      block.start = it.position ∧ 0 < block.len ∧ block.len ≤ it.blockSize ∧
      block.start + block.len ≤ it.stop := by
  by_cases hmore : it.position < it.stop
  · have hpos := it.blockSize_pos
    refine .inr ⟨⟨it.position, min it.blockSize (it.stop - it.position)⟩, if_pos hmore, rfl, ?_⟩
    simp only
    omega
  · exact .inl ⟨if_neg hmore, Nat.le_of_not_lt hmore⟩

/-- Buffers as every block of an evaluation finds them. Registers that no
instruction writes to are those of the start. -/
structure Workspace.Usable (w : Workspace) (k : Kernel) (blockSize : Nat) (first : Workspace)
    (out : Storage) : Prop where
  registers : first.registers.After (destinations k.instructions) w.registers
  staging : List.Forall₂ Column.Alike first.staging w.staging
  scratch : w.scratch.storage = out
  scratchSize : blockSize ≤ w.scratch.size

/-- Columns like those that inputs can be collected in. -/
theorem Evaluation.CollectsIn.alike {ev : Evaluation} {out : Storage} {n : Nat}
    {first staging : List Column} (h : ev.CollectsIn out n first)
    (halike : List.Forall₂ Column.Alike first staging) : ev.CollectsIn out n staging :=
  forall₂_trans (fun hc halike => ⟨halike.storage.trans hc.1, halike.size ▸ hc.2⟩) h halike

/-- Buffers and output as every block finds them. -/
structure Traversal.OnCourse (k : Kernel) (blockSize : Nat) (first : Workspace) (out : Storage)
    (base len : Nat) (w : Workspace) (sink : Sink) : Prop
    extends w.Usable k blockSize first out where
  storage : sink.data.storage = out
  size : sink.data.size = len
  base : sink.base = base

namespace Evaluation

/-- An evaluation that runs a valid kernel on operands of its types, with
buffers laid out for it. -/
structure Serves (ev : Evaluation) (k : Kernel) (first : Workspace) (out : Storage) : Prop where
  valid : k.Valid
  steps : ev.prepared.steps = predecode k.program.code
  layout : ev.prepared.layout = k.layout
  mode : k.program.isReduction = true → ev.mode?.isSome
  sources : List.Forall₂ (fun source t => (source.storage out).elementType.accepts t = true)
    ev.sources k.inputSignature
  output : ∀ t, k.fullSignature[0]? = some t → out.elementType.accepts t = true
  registers : first.registers.Initial k ev.prepared.stringWidths ev.prepared.blockSize
  staging : ev.CollectsIn out ev.prepared.blockSize first.staging

/-- Operands of a walk over the positions from `start` up to `stop` that stay
within their arrays. The part of the output that may be written has the elements
from `base` on, `len` of them. -/
structure Walk (ev : Evaluation) (shape : Shape) (output : Strided) (inputs : List Strided)
    (start stop base len : Nat) : Prop where
  stop_le : stop ≤ size shape
  outputStrides : output.strides.length = shape.length
  inputStrides : ∀ op ∈ inputs, op.strides.length = shape.length
  inputCount : inputs.length = ev.sources.length
  reaches : ∀ x ∈ inputs.zip ev.sources, ∀ p, start ≤ p → p < stop →
    x.2.Reaches base len x.1 shape p
  lands : ev.Lands output shape start stop base len
  counts : ∀ op ∈ output :: inputs, ∀ block : Block, 0 < block.len → start ≤ block.start →
    block.start + block.len ≤ stop → op.Counts shape block

variable {ev : Evaluation} {k : Kernel} {first : Workspace} {out : Storage} {shape : Shape}
  {output : Strided} {inputs : List Strided} {start stop base len : Nat}

/-! ## One block -/

theorem Serves.length_views (hs : ev.Serves k first out) {block : Block} {sink : Sink}
    (hcount : inputs.length = ev.sources.length) {views : List Column}
    (hviews : ev.Views inputs shape block sink views) :
    views.length = k.inputSignature.length := by
  rw [← hviews.length_eq, List.length_zip, hcount, Nat.min_self, hs.sources.length_eq]

/-- The frame of a block has the types that the kernel declares. -/
theorem Serves.typed (hs : ev.Serves k first out) {regs' : RegisterFile} {written : List Nat}
    (hregs : first.registers.After written regs') {block : Block} {sink : Sink}
    (hsink : sink.data.storage = out)
    (hcount : inputs.length = ev.sources.length) {views : List Column} {work : Column}
    (hviews : ev.Views inputs shape block sink views) (hwork : work.storage = out) :
    (⟨regs', views, work⟩ : Frame).Typed k.fullSignature k.layout := by
  have hviewCount := hs.length_views hcount hviews
  have hsources := hs.sources.length_eq
  refine hs.valid.typed hs.registers hregs ?_ fun t ht => ?_
  · refine List.forall₂_iff_get.2 ⟨hviewCount, fun i hi hi' => ?_⟩
    have hview := (List.forall₂_iff_get.1 hviews).2 i (by rw [List.length_zip]; omega) hi
    have htype := (List.forall₂_iff_get.1 hs.sources).2 i (by omega) hi'
    simp only [List.get_eq_getElem, List.getElem_zip] at hview htype ⊢
    rw [Column.elementType, hview.1, hsink]
    exact htype
  · rw [Column.elementType, hwork]
    exact hs.output t ht

/-- What ran in a block, and that the next one finds everything in place. -/
theorem BlockRun.onCourse (hs : ev.Serves k first out) {block : Block} {views : List Column}
    {work : Column} {final : Frame} {t t' : Traversal} (hcount : inputs.length = ev.sources.length)
    (hrun : ev.BlockRun output inputs shape block views work final t t')
    (ht : Traversal.OnCourse k ev.prepared.blockSize first out base len t.workspace t.sink) :
    (⟨t.workspace.registers, views, work⟩ : Frame).runAll? (ev.mode?.getD .lanewise) block.len
        k.instructions = some final ∧
      Traversal.OnCourse k ev.prepared.blockSize first out base len t'.workspace t'.sink := by
  have htyped := hs.typed ht.registers ht.storage hcount hrun.viewed
    (hrun.storage.trans ht.storage)
  obtain ⟨final', hfinal, hall, hafter⟩ :=
    hs.valid.run_eq_ok hs.steps hs.layout hs.mode htyped block.len
  obtain rfl : final = final' := (Prod.mk.inj (hrun.run.symm.trans hfinal)).2
  refine ⟨hall, ⟨⟨?_, ?_, hrun.scratch.storage.trans ht.scratch, ?_⟩,
    hrun.sink.storage.trans ht.storage, hrun.sink.size.trans ht.size, hrun.base.trans ht.base⟩⟩
  · rw [hrun.registers]
    exact ht.registers.trans hafter.registers
  · rw [hrun.staging]
    exact ht.staging
  · rw [hrun.scratch.size]
    exact ht.scratchSize

/-- Every block of a walk goes well. -/
theorem exists_blockRun (hs : ev.Serves k first out)
    (hw : ev.Walk shape output inputs start stop base len) {block : Block}
    (hblock : 0 < block.len) (hstart : start ≤ block.start) (hstop : block.start + block.len ≤ stop)
    (hfull : block.len ≤ ev.prepared.blockSize) {t : Traversal}
    (hoperands : t.iteration.operands = output :: inputs) (hshape : t.iteration.shape = shape)
    (ht : Traversal.OnCourse k ev.prepared.blockSize first out base len t.workspace t.sink) :
    ∃ t' views work final, ev.runBlock block t = .ok () t' ∧
      ev.BlockRun output inputs shape block views work final t t' := by
  have hpos : size shape ≠ 0 := by
    have := hw.stop_le
    omega
  have hcounts := fun op hop => hw.counts op hop block hblock hstart hstop
  refine runBlock_eq_ok hoperands hshape hpos hblock hw.outputStrides (hcounts output (.head _))
    hw.inputCount ?_ ?_ (by rw [ht.base, ht.size]; exact hw.lands) hstart hstop
    (ht.scratch.trans ht.storage.symm) (Nat.le_trans hfull ht.scratchSize) ?_
  · rw [ht.storage]
    exact (hs.staging.alike ht.staging).imp fun _ _ h => ⟨h.1, Nat.le_trans hfull h.2⟩
  · intro x hx
    have hop := (List.of_mem_zip hx).1
    refine ⟨hw.inputStrides x.1 hop, hcounts x.1 (.tail _ hop), fun j hj => ?_⟩
    rw [ht.base, ht.size]
    exact hw.reaches x hx _ (by omega) (by omega)
  · intro views work hviews hwork _
    obtain ⟨final, hfinal, -, hafter⟩ := hs.valid.run_eq_ok hs.steps hs.layout hs.mode
      (hs.typed ht.registers ht.storage hw.inputCount hviews (hwork.trans ht.storage)) block.len
    exact ⟨final, hfinal, hafter.output⟩

/-! ## All blocks -/

theorem runBlocks_done {it : Iteration} (h : it.next? = none) : ev.runBlocks it = pure () := by
  unfold runBlocks
  split
  · rfl
  · simp_all

/-- A walk runs its next block, and goes on behind it. -/
theorem runBlocks_next {it rest : Iteration} {block : Block} (h : it.next? = some (block, rest))
    (t : Traversal) : ev.runBlocks it t
      = (ev.runBlock block >>= fun _ => ev.runBlocks rest) { t with iteration := rest } := by
  have heq : ev.runBlocks it = (do
      modify fun t => { t with iteration := rest }
      ev.runBlock block
      ev.runBlocks rest) := by
    rw [runBlocks]
    split
    · simp_all
    · simp_all
  rw [heq]
  rfl

theorem runPlain_apply (ev : Evaluation) (t : Traversal) :
    ev.runPlain t = ev.runBlocks t.iteration t := rfl

/-- What a block of a walk does to an invariant of buffers and output. -/
def Advances (ev : Evaluation) (k : Kernel) (first : Workspace) (out : Storage) (shape : Shape)
    (output : Strided) (inputs : List Strided) (start stop base len : Nat)
    (Inv : Nat → Workspace → Column → Prop) : Prop :=
  ∀ (block : Block) (views : List Column) (work : Column) (final : Frame) (t t' : Traversal),
    0 < block.len → start ≤ block.start → block.start + block.len ≤ stop →
    block.len ≤ ev.prepared.blockSize →
    Traversal.OnCourse k ev.prepared.blockSize first out base len t.workspace t.sink →
    ev.BlockRun output inputs shape block views work final t t' →
    (⟨t.workspace.registers, views, work⟩ : Frame).runAll? (ev.mode?.getD .lanewise) block.len
      k.instructions = some final →
    Inv block.start t.workspace t.sink.data →
    Inv (block.start + block.len) t'.workspace t'.sink.data

/-- The blocks that a walk has left. -/
theorem runBlocks_eq_ok (hs : ev.Serves k first out)
    (hw : ev.Walk shape output inputs start stop base len)
    {Inv : Nat → Workspace → Column → Prop}
    (hstep : ev.Advances k first out shape output inputs start stop base len Inv)
    (it : Iteration) (hshape : it.shape = shape) (hoperands : it.operands = output :: inputs)
    (hsize : it.blockSize ≤ ev.prepared.blockSize) (hstop : it.stop = stop)
    (hlow : start ≤ it.position) (hhigh : it.position ≤ stop) {t : Traversal}
    (ht : Traversal.OnCourse k ev.prepared.blockSize first out base len t.workspace t.sink)
    (hit : ∃ position, t.iteration = { it with position })
    (hinv : Inv it.position t.workspace t.sink.data) :
    ∃ t', ev.runBlocks it t = .ok () t' ∧
      Traversal.OnCourse k ev.prepared.blockSize first out base len t'.workspace t'.sink ∧
      (∃ position, t'.iteration = { it with position }) ∧ Inv stop t'.workspace t'.sink.data := by
  rcases it.next?_cases with ⟨hnext, hdone⟩ | ⟨block, hnext, hstart, hblock, hlen, hend⟩
  · have heq : it.position = stop := by omega
    refine ⟨t, ?_, ht, hit, by rwa [← heq]⟩
    rw [runBlocks_done hnext]
    rfl
  · let rest : Iteration := { it with position := block.start + block.len }
    let t₀ : Traversal := { t with iteration := rest }
    have hdecrease : rest.remaining < it.remaining := Iteration.remaining_lt_of_next? hnext
    have hfull : block.len ≤ ev.prepared.blockSize := Nat.le_trans hlen hsize
    rw [hstop] at hend
    rw [← hstart] at hlow hinv
    obtain ⟨t₁, views, work, final, hrun, hblockRun⟩ := exists_blockRun hs hw (t := t₀) hblock hlow
      hend hfull hoperands hshape ht
    obtain ⟨hall, ht₁⟩ := hblockRun.onCourse hs hw.inputCount ht
    have hinv₁ := hstep block views work final t₀ t₁ hblock hlow hend hfull ht hblockRun hall hinv
    obtain ⟨t', hrest, ht', hit', hinv'⟩ := runBlocks_eq_ok hs hw hstep rest hshape hoperands
      hsize hstop (Nat.le_trans hlow (Nat.le_add_right _ _)) hend ht₁
      ⟨block.start + block.len, hblockRun.iteration⟩ hinv₁
    refine ⟨t', ?_, ht', hit', hinv'⟩
    rw [runBlocks_next hnext]
    exact TraversalM.bind_eq_ok _ hrun hrest
termination_by it.remaining

/-- A whole walk. -/
theorem runPlain_eq_ok (hs : ev.Serves k first out)
    (hw : ev.Walk shape output inputs start stop base len)
    {Inv : Nat → Workspace → Column → Prop}
    (hstep : ev.Advances k first out shape output inputs start stop base len Inv)
    {t : Traversal} (hshape : t.iteration.shape = shape)
    (hoperands : t.iteration.operands = output :: inputs)
    (hsize : t.iteration.blockSize ≤ ev.prepared.blockSize) (hstop : t.iteration.stop = stop)
    (hposition : t.iteration.position = start) (hle : start ≤ stop)
    (ht : Traversal.OnCourse k ev.prepared.blockSize first out base len t.workspace t.sink)
    (hinv : Inv start t.workspace t.sink.data) :
    ∃ t', ev.runPlain t = .ok () t' ∧
      Traversal.OnCourse k ev.prepared.blockSize first out base len t'.workspace t'.sink ∧
      (∃ position, t'.iteration = { t.iteration with position }) ∧
      Inv stop t'.workspace t'.sink.data := by
  obtain ⟨t', hrun, hrest⟩ := runBlocks_eq_ok hs hw hstep t.iteration hshape hoperands hsize
    hstop (by omega) (by omega) ht ⟨_, rfl⟩ (by rwa [hposition])
  exact ⟨t', (runPlain_apply ev t).trans hrun, hrest⟩

/-! ## Walks from given bases -/

/-- Operands with given bases and strides. -/
def operandsAt (bases : List Nat) (strides : List (List Nat)) : List Strided :=
  bases.zipWith Strided.mk strides

end Evaluation

/-- A walk over a whole shape, wherever it has come to and whatever the bases of
its operands are. -/
structure Iteration.Covers (it : Iteration) (shape : Shape) (strides : List (List Nat))
    (blockSize : Nat) : Prop where
  shape_eq : it.shape = shape
  strides_eq : it.operands.map Strided.strides = strides
  blockSize_le : it.blockSize ≤ blockSize
  start_eq : it.start = 0
  stop_eq : it.stop = Shape.size shape

/-- The walk over a shape that strides were accepted for. -/
theorem Iteration.of_ofStrides {shape : Shape} {strides : List (List Nat)} {blockSize : Nat}
    {it : Iteration} (h : ofStrides shape strides blockSize = .ok it) :
    ∃ (hpos : 0 < blockSize) (hfits : Shape.size shape ≤ Shape.maxSize),
      it = ⟨shape, strides.map (⟨0, ·⟩), blockSize, hpos, hfits, 0, Shape.size shape, 0⟩ ∧
      ∀ s ∈ strides, s.length = shape.length := by
  unfold ofStrides at h
  split at h
  case isFalse => cases h
  next hpos =>
  split at h
  · cases h
  next size hsize =>
  obtain ⟨_, hlengths, heq⟩ := bind_eq_ok_iff.1 h
  obtain ⟨rfl, hfits⟩ := Shape.of_checkedSize hsize
  cases heq
  refine ⟨hpos, hfits, rfl, ?_⟩
  clear h hsize
  induction strides with
  | nil => simp
  | cons s strides ih =>
    rw [List.forIn_cons] at hlengths
    by_cases hlen : s.length ≠ shape.length
    · rw [if_pos hlen] at hlengths
      cases hlengths
    · rw [if_neg hlen] at hlengths
      rw [List.forall_mem_cons]
      exact ⟨Decidable.not_not.1 hlen, ih hlengths⟩

theorem Iteration.Covers.setBases {it : Iteration} {shape : Shape} {strides : List (List Nat)}
    {blockSize : Nat} {bases : List Nat} (h : it.Covers shape strides blockSize)
    (hlen : bases.length = strides.length) :
    ∃ it', it.setBases bases = .ok it' ∧ it'.Covers shape strides blockSize ∧
      it'.operands = Evaluation.operandsAt bases strides ∧ it'.position = 0 := by
  have hcount : bases.length = it.operands.length := by
    rw [hlen, ← h.strides_eq, List.length_map]
  have hoperands : it.operands.zipWith (fun op base => { op with base }) bases
      = Evaluation.operandsAt bases strides := by
    rw [Evaluation.operandsAt, ← h.strides_eq, List.zipWith_map_right]
    exact List.zipWith_comm
  refine ⟨_, if_pos hcount, ⟨h.shape_eq, ?_, h.blockSize_le, h.start_eq, h.stop_eq⟩, hoperands,
    h.start_eq⟩
  rw [hoperands, Evaluation.operandsAt, List.map_zipWith]
  apply List.ext_getElem
  · simp [hlen]
  · intro i hi hi'
    simp

namespace Evaluation

variable {ev : Evaluation} {k : Kernel} {first : Workspace} {out : Storage} {shape : Shape}
  {output : Strided} {inputs : List Strided} {start stop base len : Nat}

/-- A whole walk with its operands moved to given bases. -/
theorem runFrom_eq_ok (hs : ev.Serves k first out) {strides : List (List Nat)} {bases : List Nat}
    (hlen : bases.length = strides.length) (hoperands : operandsAt bases strides = output :: inputs)
    (hw : ev.Walk shape output inputs 0 (size shape) base len)
    {Inv : Nat → Workspace → Column → Prop}
    (hstep : ev.Advances k first out shape output inputs 0 (size shape) base len Inv)
    {t : Traversal} (hit : t.iteration.Covers shape strides ev.prepared.blockSize)
    (ht : Traversal.OnCourse k ev.prepared.blockSize first out base len t.workspace t.sink)
    (hinv : Inv 0 t.workspace t.sink.data) :
    ∃ t', ev.runFrom bases t = .ok () t' ∧
      Traversal.OnCourse k ev.prepared.blockSize first out base len t'.workspace t'.sink ∧
      t'.iteration.Covers shape strides ev.prepared.blockSize ∧
      Inv (size shape) t'.workspace t'.sink.data := by
  obtain ⟨it, hset, hcovers, hops, hposition⟩ := hit.setBases hlen
  obtain ⟨t', hrun, ht', ⟨position, hit'⟩, hinv'⟩ := runPlain_eq_ok hs hw hstep
    (t := { t with iteration := it }) hcovers.shape_eq (hops.trans hoperands)
    hcovers.blockSize_le hcovers.stop_eq hposition (Nat.zero_le _) ht hinv
  refine ⟨t', ?_, ht', ?_, hinv'⟩
  · unfold runFrom
    refine TraversalM.bind_eq_ok t rfl ?_
    refine TraversalM.bind_eq_ok _ (TraversalM.liftExcept_eq_ok hset t) ?_
    exact TraversalM.bind_eq_ok { t with iteration := it } rfl hrun
  · rw [hit']
    exact ⟨hcovers.shape_eq, hcovers.strides_eq, hcovers.blockSize_le, hcovers.start_eq,
      hcovers.stop_eq⟩

/-- A loop whose body moves an invariant on. -/
theorem forEach_eq_ok {body : Nat → TraversalM Unit} {Inv : Nat → Traversal → Prop} {count : Nat}
    {first : Nat} (hbody : ∀ i t, first ≤ i → i < first + count → Inv i t →
      ∃ t', body i t = .ok () t' ∧ Inv (i + 1) t')
    {t : Traversal} (hinv : Inv first t) :
    ∃ t', forEach body first count t = .ok () t' ∧ Inv (first + count) t' := by
  induction count generalizing first t with
  | zero => exact ⟨t, rfl, hinv⟩
  | succ count ih =>
    obtain ⟨t₁, hrun, hinv₁⟩ := hbody first t (Nat.le_refl _) (by omega) hinv
    obtain ⟨t', hrest, hinv'⟩ := ih (fun i t hlow hhigh => hbody i t (by omega) (by omega)) hinv₁
    refine ⟨t', TraversalM.bind_eq_ok _ hrun hrest, ?_⟩
    rwa [Nat.add_assoc, Nat.add_comm 1] at hinv'

end Evaluation

end Lanewise
