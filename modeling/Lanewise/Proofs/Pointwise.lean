import Lanewise.Proofs.Start

/-!
# Walks of programs without reductions

A walk that gives every position its own element of the output leaves there what
the machine of one lane computes for the position (`Evaluation.Computes`). Inputs
that are the output still show what it held before the walk, since each position
is read before it is written (`Progress`).
-/

namespace Lanewise

open Shape (size)

namespace Evaluation

/-- The elements of the inputs for a position. -/
def inputLanes (ev : Evaluation) (inputs : List Strided) (shape : Shape) (sink : Sink) (p : Nat) :
    List Lane :=
  (inputs.zip ev.sources).map fun x => x.2.lane sink x.1 shape p

/-- The views of a block show the elements of the inputs. -/
theorem Views.exists_lane {ev : Evaluation} {inputs : List Strided} {shape : Shape} {block : Block}
    {sink : Sink} {views : List Column} (h : ev.Views inputs shape block sink views) {j : Nat}
    (hj : j < block.len) (i : Nat) (l : Lane)
    (hl : (ev.inputLanes inputs shape sink (block.start + j))[i]? = some l) :
    ∃ c : Column, views[i]? = some c ∧ c.lane j = l := by
  obtain ⟨x, hx, rfl⟩ := Option.map_eq_some_iff.1 (List.getElem?_map ▸ hl)
  obtain ⟨hi, rfl⟩ := List.getElem?_eq_some_iff.1 hx
  have hcount := h.length_eq
  have hview := (List.forall₂_iff_get.1 h).2 i hi (by omega)
  exact ⟨views[i], List.getElem?_eq_getElem (by omega), hview.2.2 j hj⟩

/-- Where a block writes, if each position has the element of its own index. -/
theorem mem_blockTargets (ev : Evaluation) (base : Nat) {shape : Shape} {target : Strided}
    {block : Block} {start stop : Nat} (hmode : ev.mode? ≠ some .single)
    (hoffset : ∀ p, start ≤ p → p < stop → target.offset shape p = p)
    (hstart : start ≤ block.start) (hstop : block.start + block.len ≤ stop) :
    (ev.blockTargets base target shape block).length = block.len ∧
      ∀ j (hj : j < (ev.blockTargets base target shape block).length),
        (ev.blockTargets base target shape block)[j] = block.start + j - base := by
  have htargets : ev.blockTargets base target shape block = targets base target shape block :=
    if_neg hmode
  have hlen : (ev.blockTargets base target shape block).length = block.len := by
    rw [htargets, length_targets]
  refine ⟨hlen, fun j hj => ?_⟩
  have hoffset := hoffset (block.start + j) (by omega) (by omega)
  simp only [htargets, targets, List.getElem_map, List.getElem_range, hoffset]

/-- Elements of positions outside a block are not written to. -/
theorem notMem_blockTargets (ev : Evaluation) {base : Nat} {shape : Shape} {target : Strided}
    {block : Block} {start stop : Nat} (hmode : ev.mode? ≠ some .single)
    (hoffset : ∀ p, start ≤ p → p < stop → target.offset shape p = p)
    (hstart : start ≤ block.start) (hstop : block.start + block.len ≤ stop) (hbase : base ≤ start)
    {p : Nat} (hp : start ≤ p) (hother : p < block.start ∨ block.start + block.len ≤ p) :
    p - base ∉ ev.blockTargets base target shape block := by
  obtain ⟨hlen, htarget⟩ := mem_blockTargets ev base hmode hoffset hstart hstop
  intro hmem
  obtain ⟨j, hj, heq⟩ := List.mem_iff_getElem.1 hmem
  rw [htarget j hj] at heq
  omega

/-- What a walk computes for the positions from `start` up to `stop`, where the
output held `data` before: the machine of one lane starts from `output` and ends
with `result`. -/
structure Computes (ev : Evaluation) (k : Kernel) (shape : Shape) (target : Strided)
    (inputs : List Strided) (start stop base : Nat) (data : Column)
    (temporary : Nat → Storage → Lane) (output result : Nat → Lane) : Prop where
  mode : ev.mode? = none
  mapping : k.program.isReduction = false
  keeps : k.KeepsTemporaries temporary
  base_le : base ≤ start
  offset : ∀ p, start ≤ p → p < stop → target.offset shape p = p
  readsInPlace : ∀ x ∈ inputs.zip ev.sources, x.2 = .output → ∀ p, start ≤ p → p < stop →
    x.1.offset shape p = p
  run : ∀ p, start ≤ p → p < stop → ∃ done,
    (k.lanesFrom ev.prepared.stringWidths (ev.inputLanes inputs shape ⟨data, base⟩ p) (output p)
      temporary).run? k.instructions = some done ∧ done 0 = some (result p)
  holds : ∀ p, start ≤ p → p < stop → (result p).cell?.isSome

/-- The output may be taken to start as `output` says: it is not asked for, or
every position starts with what the output held, or there is one position only
and it starts on a scratch column that holds the same. -/
def StartsFrom (ev : Evaluation) (shape : Shape) (target : Strided) (start stop base : Nat)
    (data scratch : Column) (output : Nat → Lane) : Prop :=
  ∀ p, start ≤ p → p < stop → output p = .unset data.storage ∨
    ((output p).Below (data.lane (p - base)) ∧
      ((ev.readsOutput = false ∧ target.flatStep? shape = some 1) ∨
        (stop ≤ start + 1 ∧ (output p).Below (scratch.lane 0))))

/-- A walk that has come to `position`: elements before it are done, the others
are as they were. -/
structure Progress (start stop base : Nat) (data scratch : Column) (result : Nat → Lane)
    (position : Nat) (w : Workspace) (now : Column) : Prop where
  done : ∀ p, start ≤ p → p < position → now.lane (p - base) = result p
  todo : ∀ p, position ≤ p → p < stop → now.lane (p - base) = data.lane (p - base)
  scratch : position = start → w.scratch = scratch

theorem Progress.zero {start stop base : Nat} {data : Column} {result : Nat → Lane}
    {w : Workspace} : Progress start stop base data w.scratch result start w data :=
  ⟨fun _ h h' => absurd h (Nat.not_le_of_lt h'), fun _ _ _ => rfl, fun _ => rfl⟩

variable {ev : Evaluation} {k : Kernel} {first : Workspace} {out : Storage} {shape : Shape}
  {target : Strided} {inputs : List Strided} {start stop base len : Nat} {data scratch : Column}
  {temporary : Nat → Storage → Lane} {output result : Nat → Lane}

/-- A block finds the inputs as they were before the walk. -/
theorem Computes.inputLanes_eq (h : ev.Computes k shape target inputs start stop base data temporary
      output result) {sink : Sink} (hbase : sink.base = base) {p : Nat} (hp : start ≤ p)
    (hlt : p < stop) (htodo : sink.data.lane (p - base) = data.lane (p - base)) :
    ev.inputLanes inputs shape sink p = ev.inputLanes inputs shape ⟨data, base⟩ p := by
  refine List.map_congr_left fun x hx => ?_
  obtain ⟨op, source⟩ := x
  cases source with
  | array c => rfl
  | output =>
    have hoffset : op.offset shape p = p := h.readsInPlace _ hx rfl p hp hlt
    simp only [Source.lane, hoffset, hbase]
    exact htodo

/-- The column that a block works on starts as it may be taken to. -/
theorem BlockRun.below (hstarts : ev.StartsFrom shape target start stop base data scratch output)
    (h : ev.Computes k shape target inputs start stop base data temporary output result)
    {block : Block} (hstart : start ≤ block.start) (hstop : block.start + block.len ≤ stop)
    {views : List Column} {work : Column} {final : Frame} {t t' : Traversal}
    (hrun : ev.BlockRun target inputs shape block views work final t t')
    (hstorage : t.sink.data.storage = data.storage) (hbase : t.sink.base = base)
    (hprogress : Progress start stop base data scratch result block.start t.workspace t.sink.data)
    {j : Nat} (hj : j < block.len) : (output (block.start + j)).Below (work.lane j) := by
  obtain ⟨hlen, htarget⟩ := mem_blockTargets ev base (by simp [h.mode]) h.offset hstart hstop
  rcases hstarts (block.start + j) (by omega) (by omega) with hunset | ⟨hbelow, hwhere⟩
  · rw [hunset]
    exact .unset (hrun.storage.trans hstorage)
  rcases hrun.started with ⟨-, hdirect⟩ | ⟨-, hreason, hscratch⟩
  · rw [hbase] at hdirect
    rw [hdirect j (by omega), htarget j (by omega), hprogress.todo _ (by omega) (by omega)]
    exact hbelow
  · rcases hwhere with ⟨hreads, hflat⟩ | ⟨hsingle, hbelow⟩
    · exact absurd (inPlace_of_flatStep? hreads hflat hrun.counts) hreason
    · obtain ⟨hfirst, rfl⟩ : block.start = start ∧ j = 0 := by omega
      rw [hscratch 0 hj, hprogress.scratch hfirst]
      exact hbelow

/-- The lanes that a block ends with are the results for its positions. -/
theorem Computes.output_eq (hs : ev.Serves k first out) (hcount : inputs.length = ev.sources.length)
    (hdata : data.storage = out)
    (h : ev.Computes k shape target inputs start stop base data temporary output result)
    (hstarts : ev.StartsFrom shape target start stop base data scratch output) {block : Block}
    (hstart : start ≤ block.start) (hstop : block.start + block.len ≤ stop)
    (hfull : block.len ≤ ev.prepared.blockSize) {views : List Column} {work : Column}
    {final : Frame} {t t' : Traversal}
    (ht : Traversal.OnCourse k ev.prepared.blockSize first out base len t.workspace t.sink)
    (hrun : ev.BlockRun target inputs shape block views work final t t') {mode : Accumulation}
    (hall : (⟨t.workspace.registers, views, work⟩ : Frame).runAll? mode block.len k.instructions
      = some final)
    (hprogress : Progress start stop base data scratch result block.start t.workspace t.sink.data)
    {j : Nat} (hj : j < block.len) : final.output.lane j = result (block.start + j) := by
  obtain ⟨hlen, -⟩ := mem_blockTargets ev base (by simp [h.mode]) h.offset hstart hstop
  have hworkSize : work.size = block.len := by
    rw [hrun.size, ht.base, hlen]
  obtain ⟨done, hdone, hzero⟩ := h.run (block.start + j) (by omega) (by omega)
  -- the machine reads what was there before the walk, the block what is there now
  rw [← h.inputLanes_eq ht.base (by omega) (by omega) (hprogress.todo _ (by omega) (by omega))]
    at hdone
  have hbelow := hs.run_lanes ht.registers hfull (hs.length_views hcount hrun.viewed)
    hrun.viewed.le_size h.keeps hj (hrun.viewed.exists_lane hj)
    (hrun.below hstarts h hstart hstop (ht.storage.trans hdata.symm) ht.base hprogress hj)
    (fun _ hinst => hinst) (fun inst hinst => hs.valid.isReduction_eq_false h.mapping hinst)
    (fun _ _ _ => Nat.le_of_eq hworkSize.symm) hall hdone
  obtain ⟨l, hl, hle⟩ := hbelow 0 _ hzero
  cases hl
  exact (hle.eq_of_isSome (h.holds _ (by omega) (by omega))).symm

/-- A block moves the walk on. -/
theorem Computes.advances (hs : ev.Serves k first out) (hcount : inputs.length = ev.sources.length)
    (hdata : data.storage = out)
    (h : ev.Computes k shape target inputs start stop base data temporary output result)
    (hstarts : ev.StartsFrom shape target start stop base data scratch output) :
    ev.Advances k first out shape target inputs start stop base len
      (Progress start stop base data scratch result) := by
  intro block views work final t t' hblock hstart hstop hfull ht hrun hall hprogress
  have hmode : ev.mode? ≠ some .single := by simp [h.mode]
  obtain ⟨hlen, htarget⟩ := mem_blockTargets ev base hmode h.offset hstart hstop
  have hsink := hrun.sink
  rw [ht.base] at hsink
  have helsewhere : ∀ p, start ≤ p → p < block.start ∨ block.start + block.len ≤ p →
      t'.sink.data.lane (p - base) = t.sink.data.lane (p - base) := fun p hp hother =>
    hsink.elsewhere _ (notMem_blockTargets ev hmode h.offset hstart hstop h.base_le hp hother)
  refine ⟨fun p hp hlt => ?_, fun p hp hlt => ?_, fun heq => by omega⟩
  · by_cases hin : p < block.start
    · rw [helsewhere p hp (.inl hin)]
      exact hprogress.done p hp hin
    · have hj : p - block.start < block.len := by omega
      have hresult := h.output_eq hs hcount hdata hstarts hstart hstop hfull ht hrun hall
        hprogress hj
      have hlane := hsink.at_position (p - block.start) (by omega)
      rw [htarget _ (by omega), hresult, Nat.add_sub_cancel' (by omega)] at hlane
      exact hlane
  · rw [helsewhere p (by omega) (.inr hp)]
    exact hprogress.todo p (by omega) hlt

end Evaluation

end Lanewise
