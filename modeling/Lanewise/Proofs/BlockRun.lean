import Lanewise.Proofs.Block
import Lanewise.Proofs.Placement

/-!
# One block of a traversal

What a block does when nothing goes wrong, in one relation (`BlockRun`): the
program runs on the views of the inputs and on a column for the output, and what
it leaves there goes to the targets of the block. Nothing goes wrong where inputs
and output reach their elements and the program runs (`runBlock_eq_ok`).
-/

namespace Lanewise

open Shape (size)

namespace TraversalM

variable {α β : Type}

theorem bind_apply {x : TraversalM α} {t t₁ : Traversal} {a : α} (hx : x t = .ok a t₁)
    (f : α → TraversalM β) : (x >>= f) t = f a t₁ := by
  simp only [bind, EStateM.bind, hx]

theorem get_bind (f : Traversal → TraversalM β) (t : Traversal) :
    ((get : TraversalM Traversal) >>= f) t = f t t := rfl

theorem bind_eq_ok {x : TraversalM α} {f : α → TraversalM β} {t t₂ : Traversal} {a : α} {b : β}
    (t₁ : Traversal) (hx : x t = .ok a t₁) (hf : f a t₁ = .ok b t₂) : (x >>= f) t = .ok b t₂ :=
  (bind_apply hx f).trans hf

/-- What goes well as a whole goes well at first. -/
theorem exists_of_bind_eq_ok {x : TraversalM α} {f : α → TraversalM β} {t t₂ : Traversal} {b : β}
    (h : (x >>= f) t = .ok b t₂) : ∃ a t₁, x t = .ok a t₁ ∧ f a t₁ = .ok b t₂ := by
  simp only [bind, EStateM.bind] at h
  cases hx : x t with
  | ok a t₁ =>
    rw [hx] at h
    exact ⟨a, t₁, rfl, h⟩
  | error e t₁ =>
    rw [hx] at h
    cases h

theorem liftExcept_eq_ok {x : Except EvalError α} {a : α} (h : x = .ok a) (t : Traversal) :
    (liftExcept x : TraversalM α) t = .ok a t := by
  subst h
  rfl

theorem of_liftExcept_eq_ok {x : Except EvalError α} {a : α} {t t' : Traversal}
    (h : (liftExcept x : TraversalM α) t = .ok a t') : x = .ok a ∧ t' = t := by
  cases x with
  | ok b =>
    cases h
    exact ⟨rfl, rfl⟩
  | error e => cases h

/-- A result that was there is gone on with. -/
theorem exists_of_liftExcept_bind_eq_ok {x : Except EvalError α} {f : α → TraversalM β}
    {t t' : Traversal} {b : β} (h : (liftExcept x >>= f) t = .ok b t') :
    ∃ a, x = .ok a ∧ f a t = .ok b t' := by
  obtain ⟨a, t₁, hlift, hf⟩ := exists_of_bind_eq_ok h
  obtain ⟨hx, heq⟩ := of_liftExcept_eq_ok hlift
  exact ⟨a, hx, heq ▸ hf⟩

end TraversalM

namespace Evaluation

/-- Columns to collect the inputs in, `n` elements of each. -/
def CollectsIn (ev : Evaluation) (out : Storage) (n : Nat) (staging : List Column) : Prop :=
  List.Forall₂ (fun source c => c.storage = source.storage out ∧ n ≤ c.size) ev.sources staging

/-- The elements of the sink that a block writes to. -/
def blockTargets (ev : Evaluation) (base : Nat) (output : Strided) (shape : Shape) (block : Block) :
    List Nat :=
  if ev.mode? = some .single then [output.base - base] else targets base output shape block

/-- Columns that show the inputs of a block. -/
def Views (ev : Evaluation) (inputs : List Strided) (shape : Shape) (block : Block) (sink : Sink)
    (views : List Column) : Prop :=
  List.Forall₂ (fun x c => c.storage = x.2.storage sink.data.storage ∧ c.size = block.len ∧
    ∀ k < block.len, c.lane k = x.2.lane sink x.1 shape (block.start + k))
    (inputs.zip ev.sources) views

theorem Views.le_size {ev : Evaluation} {inputs : List Strided} {shape : Shape} {block : Block}
    {sink : Sink} {views : List Column} (h : ev.Views inputs shape block sink views) :
    ∀ c ∈ views, block.len ≤ c.size := by
  intro c hc
  obtain ⟨_, _, -, hsize, -⟩ := exists_of_mem_of_forall₂ h hc
  exact Nat.le_of_eq hsize.symm

/-- A block that went well. The program ran over `work` and left `final`. -/
structure BlockRun (ev : Evaluation) (output : Strided) (inputs : List Strided) (shape : Shape)
    (block : Block) (views : List Column) (work : Column) (final : Frame) (t t' : Traversal) :
    Prop where
  counts : output.Counts shape block
  viewed : ev.Views inputs shape block t.sink views
  /-- The column for the output is a part of the sink, or the scratch column as
  an earlier block left it. -/
  started : ((ev.mode? = none → ev.InPlace output shape block) ∧
      ∀ j (h : j < (ev.blockTargets t.sink.base output shape block).length),
        work.lane j = t.sink.data.lane (ev.blockTargets t.sink.base output shape block)[j]) ∨
    (ev.mode? = none ∧ ¬ ev.InPlace output shape block ∧
      ∀ j < block.len, work.lane j = t.workspace.scratch.lane j)
  storage : work.storage = t.sink.data.storage
  size : work.size = (ev.blockTargets t.sink.base output shape block).length
  run : ev.prepared.run ev.mode? block.len ⟨t.workspace.registers, views, work⟩ = (.ok (), final)
  registers : t'.workspace.registers = final.registers
  staging : t'.workspace.staging = t.workspace.staging
  scratch : t.workspace.scratch.Alike t'.workspace.scratch
  /-- A program that leaves the output alone leaves the scratch column alone. -/
  kept : ev.mode? = none → final.output = work → t'.workspace.scratch = t.workspace.scratch
  sink : t.sink.data.Replaced (ev.blockTargets t.sink.base output shape block)
    final.output.lane t'.sink.data
  base : t'.sink.base = t.sink.base
  iteration : t'.iteration = t.iteration

/-- Where a walk from `start` up to `stop` writes: to elements that the sink has,
each of them once. A fold into a single element stays at it. -/
structure Lands (ev : Evaluation) (output : Strided) (shape : Shape) (start stop base len : Nat) :
    Prop where
  single : ev.mode? = some .single → ev.readsOutput = false ∧ output.flatStep? shape = some 0 ∧
    base ≤ output.base ∧ output.base < base + len ∧ output.base < Shape.maxSize
  moving : ev.mode? ≠ some .single → ∀ p, start ≤ p → p < stop →
    base ≤ output.offset shape p ∧ output.offset shape p < base + len ∧
      ∀ q, start ≤ q → q < stop → output.offset shape p = output.offset shape q → p = q

variable {ev : Evaluation} {output : Strided} {inputs : List Strided} {shape : Shape}
  {block : Block} {t : Traversal}

/-- A fold starts with the elements that it folds into. -/
theorem BlockRun.lane_started {views : List Column} {work : Column} {final : Frame}
    {t' : Traversal} (h : ev.BlockRun output inputs shape block views work final t t')
    (hmode : ev.mode? ≠ none) {j : Nat}
    (hj : j < (ev.blockTargets t.sink.base output shape block).length) :
    work.lane j = t.sink.data.lane (ev.blockTargets t.sink.base output shape block)[j] := by
  rcases h.started with ⟨-, hlanes⟩ | ⟨hnone, -⟩
  · exact hlanes j hj
  · exact absurd hnone hmode

/-- An input, with its column to collect in. -/
theorem CollectsIn.input {out : Storage} {n i : Nat} {op : Strided} {source : Source}
    (h : ev.CollectsIn out n t.workspace.staging)
    (hoperands : t.iteration.operands = output :: inputs) (hop : inputs[i]? = some op)
    (hsource : ev.sources[i]? = some source) : t.Input i op (source.storage out) n := by
  obtain ⟨hi, rfl⟩ := List.getElem?_eq_some_iff.1 hsource
  have hbuffers := List.forall₂_iff_get.1 h
  have hin : i < t.workspace.staging.length := hbuffers.1 ▸ hi
  refine ⟨?_, _, List.getElem?_eq_getElem hin, hbuffers.2 i hi hin⟩
  rw [hoperands, List.getElem?_cons_succ, hop]

/-- The inputs of a block can be made ready and read. -/
theorem exists_views (hoperands : t.iteration.operands = output :: inputs)
    (hcount : inputs.length = ev.sources.length)
    (hstaging : ev.CollectsIn t.sink.data.storage block.len t.workspace.staging)
    (hpos : size t.iteration.shape ≠ 0) (hblock : 0 < block.len)
    (hinputs : ∀ x ∈ inputs.zip ev.sources, x.1.strides.length = t.iteration.shape.length ∧
      x.1.Counts t.iteration.shape block ∧ ∀ k < block.len,
        x.2.Reaches t.sink.base t.sink.data.size x.1 t.iteration.shape (block.start + k)) :
    ∃ staged views, ev.stageAll t block = .ok staged ∧
      staged.mapM (·.view t.sink block.len) = .ok views ∧
      ev.Views inputs t.iteration.shape block t.sink views := by
  have hlen : (inputs.zip ev.sources).length = ev.sources.zipIdx.length := by simp [hcount]
  -- an input is found by its place among the sources
  have hstage : ∀ x ∈ ev.sources.zipIdx, ∃ staged, x.1.stage t block x.2 = .ok staged ∧
      ∃ c, staged.view t.sink block.len = .ok c ∧ ∀ op, inputs[x.2]? = some op →
        c.storage = x.1.storage t.sink.data.storage ∧ c.size = block.len ∧
        ∀ k < block.len, c.lane k = x.1.lane t.sink op t.iteration.shape (block.start + k) := by
    rintro ⟨source, i⟩ hx
    have hsource' := List.mem_zipIdx_iff_getElem?.1 hx
    obtain ⟨hi, hsource⟩ := List.getElem?_eq_some_iff.1 hsource'
    have hi' : i < inputs.length := by omega
    have hmem : (inputs[i], source) ∈ inputs.zip ev.sources := by
      rw [List.mem_iff_getElem]
      exact ⟨i, by rw [List.length_zip]; exact Nat.lt_min.2 ⟨hi', hi⟩,
        by rw [List.getElem_zip, hsource]⟩
    obtain ⟨hstrides, hcounts, hreach⟩ := hinputs _ hmem
    have hinput := hstaging.input hoperands (List.getElem?_eq_getElem hi') hsource'
    obtain ⟨staged, c, hstaged, hview, hshows⟩ :=
      Source.stage_eq_ok hinput hpos hstrides hblock hcounts hreach
    refine ⟨staged, hstaged, c, hview, fun op hop => ?_⟩
    obtain rfl := Option.some.inj ((List.getElem?_eq_getElem hi').symm.trans hop)
    exact hshows
  obtain ⟨staged, hstaged, hready⟩ := exists_mapM_eq_ok _ hstage
  obtain ⟨views, hviews, hshow⟩ := exists_mapM_eq_ok_of_forall₂ hready fun _ _ h => h
  refine ⟨staged, views, hstaged, hviews, List.forall₂_iff_get.2 ⟨?_, fun i hi hi' => ?_⟩⟩
  · rw [hlen, hshow.length_eq]
  · have hx := (List.forall₂_iff_get.1 hshow).2 i (by rwa [← hlen]) hi'
    rw [List.length_zip] at hi
    simpa using hx inputs[i] (by simp)

/-- What the block of a walk writes to exists, and no element twice. -/
theorem Lands.targets {start stop base len : Nat} (h : ev.Lands output shape start stop base len)
    (hmode : ev.mode? ≠ some .single) (hstart : start ≤ block.start)
    (hstop : block.start + block.len ≤ stop) :
    (∀ target ∈ targets base output shape block, target < len) ∧
      (targets base output shape block).Nodup := by
  have hmoving := h.moving hmode
  constructor
  · intro target htarget
    obtain ⟨k, hk, rfl⟩ := List.mem_map.1 htarget
    rw [List.mem_range] at hk
    have := hmoving (block.start + k) (by omega) (by omega)
    omega
  · refine List.Nodup.map_on ?_ List.nodup_range
    intro i hi j hj heq
    rw [List.mem_range] at hi hj
    obtain ⟨hi₁, -, hinj⟩ := hmoving (block.start + i) (by omega) (by omega)
    obtain ⟨hj₁, -, -⟩ := hmoving (block.start + j) (by omega) (by omega)
    have := hinj (block.start + j) (by omega) (by omega) (by omega)
    omega

/-! ## In place -/

theorem runDirect_eq_ok {n start len : Nat} {staged : List Staged} {views : List Column}
    {final : Frame} (hviews : staged.mapM (·.view t.sink n) = .ok views)
    (hin : start + len ≤ t.sink.data.size) (hfits : start + len < UInt64.size)
    (hrun : ev.prepared.run ev.mode? n
      ⟨t.workspace.registers, views, t.sink.data.slice start (start + len)⟩ = (.ok (), final))
    (hout : (t.sink.data.slice start (start + len)).Alike final.output) :
    ∃ t', ev.runDirect n staged start len t = .ok () t' ∧
      t'.workspace.registers = final.registers ∧
      t'.workspace.staging = t.workspace.staging ∧
      t'.workspace.scratch = t.workspace.scratch ∧
      t.sink.data.Replaced (List.range' start len) final.output.lane t'.sink.data ∧
      t'.sink.base = t.sink.base ∧ t'.iteration = t.iteration := by
  have hsize : final.output.size = len := by
    rw [hout.size, Column.size_slice hin, Nat.add_sub_cancel_left]
  have hwrite := (Column.write_replaced t.sink.data final.output start
    hout.storage (by omega)).2
  rw [hsize] at hwrite
  refine ⟨⟨{ t.workspace with registers := final.registers },
    { t.sink with data := (t.sink.data.write start final.output).1 }, t.iteration⟩,
    ?_, rfl, rfl, rfl, hwrite, rfl, rfl⟩
  unfold runDirect
  refine TraversalM.bind_eq_ok t rfl ?_
  refine TraversalM.bind_eq_ok _ (TraversalM.liftExcept_eq_ok hviews t) ?_
  refine TraversalM.bind_eq_ok _ (TraversalM.liftExcept_eq_ok
    (counted_eq_ok_iff.2 (checkedSum_eq_some hfits)) t) ?_
  simp only [hrun]
  rfl

/-! ## On the scratch column -/

theorem loadScratch_eq_ok {offsets : List Nat}
    (hdone : (t.workspace.scratch.gather t.sink.data offsets).2 = true) :
    loadScratch offsets t = .ok ()
      { t with workspace.scratch := (t.workspace.scratch.gather t.sink.data offsets).1 } := by
  unfold loadScratch
  refine TraversalM.bind_eq_ok t rfl ?_
  refine TraversalM.bind_eq_ok
    { t with workspace.scratch := (t.workspace.scratch.gather t.sink.data offsets).1 } rfl ?_
  exact congrFun (if_pos hdone) _

theorem storeScratch_eq_ok {n : Nat} {offsets : List Nat}
    (hdone : (t.sink.data.scatter (t.workspace.scratch.head n) offsets).2 = true) :
    storeScratch n offsets t = .ok ()
      { t with sink.data := (t.sink.data.scatter (t.workspace.scratch.head n) offsets).1 } := by
  unfold storeScratch
  refine TraversalM.bind_eq_ok t rfl ?_
  refine TraversalM.bind_eq_ok
    { t with sink.data := (t.sink.data.scatter (t.workspace.scratch.head n) offsets).1 } rfl ?_
  exact congrFun (if_pos hdone) _

/-- The part of the scratch column that a block works on. -/
theorem exists_loaded (ev : Evaluation) {n : Nat} {offsets : List Nat} (hlen : offsets.length = n)
    (hin : ∀ offset ∈ offsets, offset < t.sink.data.size)
    (hstorage : t.workspace.scratch.storage = t.sink.data.storage)
    (hsize : n ≤ t.workspace.scratch.size) :
    ∃ t₁, (∀ rest : Unit → TraversalM Unit,
        (if ev.mode?.isSome then loadScratch offsets >>= rest else rest ()) t = rest () t₁) ∧
      t₁.workspace.registers = t.workspace.registers ∧
      t₁.workspace.staging = t.workspace.staging ∧ t₁.sink = t.sink ∧
      t₁.iteration = t.iteration ∧ t.workspace.scratch.Alike t₁.workspace.scratch ∧
      ((ev.mode? ≠ none ∧
          ∀ j (h : j < offsets.length), t₁.workspace.scratch.lane j = t.sink.data.lane offsets[j]) ∨
        (ev.mode? = none ∧ t₁.workspace.scratch = t.workspace.scratch)) := by
  cases hmode : ev.mode? with
  | none => exact ⟨t, fun _ => rfl, rfl, rfl, rfl, rfl, .refl _, .inr ⟨rfl, rfl⟩⟩
  | some mode =>
    obtain ⟨hdone, hreplaced⟩ := Column.gather_replaced t.workspace.scratch
      t.sink.data hstorage.symm (by omega) hin
    refine ⟨{ t with workspace.scratch := (t.workspace.scratch.gather t.sink.data offsets).1 },
      TraversalM.bind_apply (loadScratch_eq_ok hdone), rfl, rfl, rfl, rfl, hreplaced.alike,
      .inl ⟨Option.some_ne_none mode, fun j hj => ?_⟩⟩
    have := hreplaced.at_position j (by simpa using hj)
    rw [List.getElem_range] at this
    rw [this, List.getD_eq_getElem?_getD, List.getElem?_eq_getElem hj, Option.getD_some]

/-- The scratch column has taken the results; the sink takes them from there. -/
theorem exists_stored {n : Nat} {offsets : List Nat} {scratch result : Column}
    (htaken : t.workspace.scratch = (scratch.write 0 result).1)
    (hstorage : scratch.storage = t.sink.data.storage) (hsize : n ≤ scratch.size)
    (hresult : (scratch.head n).Alike result) (hlen : offsets.length = n)
    (hin : ∀ offset ∈ offsets, offset < t.sink.data.size) (hnodup : offsets.Nodup) :
    ∃ t', storeScratch n offsets t = .ok () t' ∧ t'.workspace = t.workspace ∧
      t.sink.data.Replaced offsets result.lane t'.sink.data ∧
      t'.sink.base = t.sink.base ∧ t'.iteration = t.iteration := by
  have hresultSize : result.size = n := by rw [hresult.size, Column.size_head hsize]
  obtain ⟨-, hwrite⟩ := Column.write_replaced scratch result 0 hresult.storage (by omega)
  rw [← htaken] at hwrite
  have htakenSize : n ≤ t.workspace.scratch.size := by rwa [hwrite.size]
  have hhead : ∀ k < n, (t.workspace.scratch.head n).lane k = result.lane k := by
    intro k hk
    have := hwrite.at_position k (by simpa [hresultSize] using hk)
    rw [List.getElem_range', Nat.zero_add, Nat.one_mul] at this
    rw [Column.lane_head htakenSize hk, this]
  obtain ⟨hdone, hscatter⟩ := Column.scatter_replaced t.sink.data (t.workspace.scratch.head n)
    (hwrite.storage.trans hstorage) (by rw [hlen, Column.size_head htakenSize]) hin hnodup
  refine ⟨_, storeScratch_eq_ok hdone, rfl,
    ⟨hscatter.storage, hscatter.size, fun k hk => ?_, hscatter.elsewhere⟩, rfl, rfl⟩
  rw [hscatter.at_position k hk, hhead k (by rwa [← hlen])]

/-- On the first elements of the scratch column as they are. -/
theorem runLoaded_eq_ok {n : Nat} {staged : List Staged} {views : List Column}
    {offsets : List Nat} {final : Frame} (hviews : staged.mapM (·.view t.sink n) = .ok views)
    (hlen : offsets.length = n) (hin : ∀ offset ∈ offsets, offset < t.sink.data.size)
    (hnodup : offsets.Nodup) (hstorage : t.workspace.scratch.storage = t.sink.data.storage)
    (hsize : n ≤ t.workspace.scratch.size)
    (hfinal : ev.prepared.run ev.mode? n
      ⟨t.workspace.registers, views, t.workspace.scratch.head n⟩ = (.ok (), final))
    (hout : (t.workspace.scratch.head n).Alike final.output) :
    ∃ t', ev.runLoaded n staged offsets t = .ok () t' ∧
      t'.workspace = ⟨final.registers, t.workspace.staging,
        (t.workspace.scratch.write 0 final.output).1⟩ ∧
      t.sink.data.Replaced offsets final.output.lane t'.sink.data ∧
      t'.sink.base = t.sink.base ∧ t'.iteration = t.iteration := by
  let taken : Traversal := { t with
    workspace.registers := final.registers
    workspace.scratch := (t.workspace.scratch.write 0 final.output).1 }
  obtain ⟨t', hstore, hends⟩ :=
    exists_stored (t := taken) rfl hstorage hsize hout hlen hin hnodup
  refine ⟨t', ?_, hends⟩
  unfold runLoaded
  refine TraversalM.bind_eq_ok t rfl ?_
  refine TraversalM.bind_eq_ok _ (TraversalM.liftExcept_eq_ok hviews t) ?_
  simp only [hfinal]
  refine TraversalM.bind_eq_ok taken rfl ?_
  exact TraversalM.bind_eq_ok taken rfl hstore

/-- On the scratch column, with the elements of the output in it where a fold goes on from
them. -/
theorem runScratch_eq_ok {n : Nat} {staged : List Staged} {views : List Column}
    {offsets : List Nat} (hviews : staged.mapM (·.view t.sink n) = .ok views)
    (hlen : offsets.length = n) (hin : ∀ offset ∈ offsets, offset < t.sink.data.size)
    (hnodup : offsets.Nodup) (hstorage : t.workspace.scratch.storage = t.sink.data.storage)
    (hsize : n ≤ t.workspace.scratch.size)
    (hrun : ∀ work : Column, work.storage = t.sink.data.storage → work.size = n →
      ∃ final, ev.prepared.run ev.mode? n ⟨t.workspace.registers, views, work⟩ = (.ok (), final) ∧
        work.Alike final.output) :
    ∃ t' work final, ev.runScratch n staged offsets t = .ok () t' ∧
      ((ev.mode? ≠ none ∧
          ∀ j (h : j < offsets.length), work.lane j = t.sink.data.lane offsets[j]) ∨
        (ev.mode? = none ∧ ∀ j < n, work.lane j = t.workspace.scratch.lane j)) ∧
      work.storage = t.sink.data.storage ∧ work.size = n ∧
      ev.prepared.run ev.mode? n ⟨t.workspace.registers, views, work⟩ = (.ok (), final) ∧
      t'.workspace.registers = final.registers ∧
      t'.workspace.staging = t.workspace.staging ∧
      t.workspace.scratch.Alike t'.workspace.scratch ∧
      (ev.mode? = none → final.output = work → t'.workspace.scratch = t.workspace.scratch) ∧
      t.sink.data.Replaced offsets final.output.lane t'.sink.data ∧
      t'.sink.base = t.sink.base ∧ t'.iteration = t.iteration := by
  obtain ⟨⟨⟨registers₁, staging₁, scratch₁⟩, sink₁, iteration₁⟩, hload, hregisters, hstaging, hsink,
    hiteration, halike, hlanes⟩ := exists_loaded ev hlen hin hstorage hsize
  obtain rfl : registers₁ = t.workspace.registers := hregisters
  obtain rfl : staging₁ = t.workspace.staging := hstaging
  obtain rfl : sink₁ = t.sink := hsink
  obtain rfl : iteration₁ = t.iteration := hiteration
  have halike : t.workspace.scratch.Alike scratch₁ := halike
  have hsize₁ : n ≤ scratch₁.size := by rwa [halike.size]
  have hwork : (scratch₁.head n).storage = t.sink.data.storage := halike.storage.trans hstorage
  obtain ⟨final, hfinal, hout⟩ := hrun (scratch₁.head n) hwork (Column.size_head hsize₁)
  have hwrite := (Column.write_replaced scratch₁ final.output 0 hout.storage (by
    rw [hout.size, Column.size_head hsize₁]
    omega)).2
  obtain ⟨t', hdone, hworkspace, hends⟩ :=
    runLoaded_eq_ok (t := ⟨⟨t.workspace.registers, t.workspace.staging, scratch₁⟩, t.sink,
      t.iteration⟩) hviews hlen hin hnodup hwork hsize₁ hfinal hout
  refine ⟨t', scratch₁.head n, final, ?_, ?_, hwork, Column.size_head hsize₁, hfinal,
    by rw [hworkspace], by rw [hworkspace], by rw [hworkspace]; exact halike.trans hwrite.alike, ?_,
    hends⟩
  · unfold runScratch
    rw [hload]
    exact hdone
  · rcases hlanes with ⟨hmode, hlanes⟩ | ⟨hmode, hscratch⟩
    · refine .inl ⟨hmode, fun j hj => ?_⟩
      rw [Column.lane_head hsize₁ (by omega), ← hlanes j hj]
    · refine .inr ⟨hmode, fun j hj => ?_⟩
      rw [Column.lane_head hsize₁ hj, ← hscratch]
  · intro hmode hsame
    obtain ⟨-, hscratch⟩ := hlanes.resolve_left fun h => h.1 hmode
    have hscratch : scratch₁ = t.workspace.scratch := hscratch
    -- the elements that were read from the scratch column are written back to it
    rw [hworkspace, hsame, ← hscratch]
    exact Column.write_head hsize₁

/-! ## One block -/

/-- A block runs where its output is placed. -/
theorem runBlock_of_place {t' : Traversal} {staged : List Staged} {placement : Placement}
    (hoperands : t.iteration.operands = output :: inputs)
    (hstaged : ev.stageAll t block = .ok staged)
    (hplace : ev.place t.sink output t.iteration.shape block = .ok placement)
    (hrest : (match placement with
      | .direct start len => ev.runDirect block.len staged start len
      | .scratch offsets => ev.runScratch block.len staged offsets) t = .ok () t') :
    ev.runBlock block t = .ok () t' := by
  unfold runBlock
  refine TraversalM.bind_eq_ok t rfl ?_
  refine TraversalM.bind_eq_ok _ (TraversalM.liftExcept_eq_ok hstaged t) ?_
  refine TraversalM.bind_eq_ok _ (TraversalM.liftExcept_eq_ok (a := output) ?_ t) ?_
  · rw [hoperands, List.getElem?_cons_zero, indexed_some]
  · exact TraversalM.bind_eq_ok _ (TraversalM.liftExcept_eq_ok hplace t) hrest

section Placed

variable {staged : List Staged} {views : List Column}
  (hoperands : t.iteration.operands = output :: inputs)
  (hstaged : ev.stageAll t block = .ok staged)
  (hviews : staged.mapM (·.view t.sink block.len) = .ok views)
  (hcounts : output.Counts t.iteration.shape block)
  (hviewed : ev.Views inputs t.iteration.shape block t.sink views)
  (hrun : ∀ work : Column, work.storage = t.sink.data.storage →
    work.size = (ev.blockTargets t.sink.base output t.iteration.shape block).length →
    ∃ final, ev.prepared.run ev.mode? block.len ⟨t.workspace.registers, views, work⟩
      = (.ok (), final) ∧ work.Alike final.output)

include hoperands hstaged hviews hcounts hviewed hrun

/-- In place, on consecutive elements. -/
theorem runBlock_direct_eq_ok {first len : Nat}
    (hplace : ev.place t.sink output t.iteration.shape block = .ok (.direct first len))
    (hwhy : ev.mode? = none → ev.InPlace output t.iteration.shape block)
    (htargets : ev.blockTargets t.sink.base output t.iteration.shape block = List.range' first len)
    (hin : first + len ≤ t.sink.data.size) (hfits : first + len < UInt64.size) :
    ∃ t' work final, ev.runBlock block t = .ok () t' ∧
      ev.BlockRun output inputs t.iteration.shape block views work final t t' := by
  have hsize : (t.sink.data.slice first (first + len)).size
      = (ev.blockTargets t.sink.base output t.iteration.shape block).length := by
    rw [htargets, List.length_range', Column.size_slice hin, Nat.add_sub_cancel_left]
  obtain ⟨final, hfinal, hout⟩ :=
    hrun _ (Column.storage_slice t.sink.data first (first + len)) hsize
  obtain ⟨t', hdone, hregisters, hstaging, hscratch, hsink, hbase, hiteration⟩ :=
    runDirect_eq_ok hviews hin hfits hfinal hout
  refine ⟨t', _, final, runBlock_of_place hoperands hstaged hplace hdone, hcounts, hviewed,
    .inl ⟨hwhy, fun j hj => ?_⟩, Column.storage_slice _ _ _, hsize, hfinal, hregisters, hstaging,
    ?_, fun _ _ => hscratch, by rwa [htargets], hbase, hiteration⟩
  · simp only [htargets] at hj ⊢
    rw [List.length_range'] at hj
    rw [Column.lane_slice hin (by omega), List.getElem_range', Nat.one_mul]
  · rw [hscratch]
    exact .refl _

/-- By way of the scratch column, to elements that exist, each of them once. -/
theorem runBlock_scratch_eq_ok (hmode : ev.mode? ≠ some .single)
    (hplace : ev.place t.sink output t.iteration.shape block
      = .ok (.scratch (targets t.sink.base output t.iteration.shape block)))
    (hwhy : ¬ ev.InPlace output t.iteration.shape block)
    (hin : ∀ offset ∈ targets t.sink.base output t.iteration.shape block,
      offset < t.sink.data.size)
    (hnodup : (targets t.sink.base output t.iteration.shape block).Nodup)
    (hstorage : t.workspace.scratch.storage = t.sink.data.storage)
    (hsize : block.len ≤ t.workspace.scratch.size) :
    ∃ t' work final, ev.runBlock block t = .ok () t' ∧
      ev.BlockRun output inputs t.iteration.shape block views work final t t' := by
  have htargets : ev.blockTargets t.sink.base output t.iteration.shape block
      = targets t.sink.base output t.iteration.shape block := if_neg hmode
  have hlen := length_targets t.sink.base output t.iteration.shape block
  obtain ⟨t', work, final, hdone, hwork, hworkStorage, hworkSize, hfinal, hregisters, hstaging,
    halike, hkept, hsink, hbase, hiteration⟩ :=
    runScratch_eq_ok hviews hlen hin hnodup hstorage hsize fun work hwork hworkSize =>
      hrun work hwork (by rw [htargets, hlen, hworkSize])
  refine ⟨t', work, final, runBlock_of_place hoperands hstaged hplace hdone, hcounts, hviewed, ?_,
    hworkStorage, by rw [htargets, hlen, hworkSize], hfinal, hregisters, hstaging, halike, hkept,
    by rwa [htargets], hbase, hiteration⟩
  simp only [htargets]
  rcases hwork with ⟨hsome, hlanes⟩ | ⟨hnone, hlanes⟩
  · exact .inl ⟨fun hnone => absurd hnone hsome, hlanes⟩
  · exact .inr ⟨hnone, hwhy, hlanes⟩

end Placed

/-- A block goes well when its inputs and its output reach their elements, its
scratch column is large enough and its program runs. -/
theorem runBlock_eq_ok {start stop : Nat} (hoperands : t.iteration.operands = output :: inputs)
    (hshape : t.iteration.shape = shape) (hpos : size shape ≠ 0) (hblock : 0 < block.len)
    (houtput : output.strides.length = shape.length) (hcounts : output.Counts shape block)
    (hcount : inputs.length = ev.sources.length)
    (hstaging : ev.CollectsIn t.sink.data.storage block.len t.workspace.staging)
    (hinputs : ∀ x ∈ inputs.zip ev.sources, x.1.strides.length = shape.length ∧
      x.1.Counts shape block ∧
      ∀ k < block.len, x.2.Reaches t.sink.base t.sink.data.size x.1 shape (block.start + k))
    (hlands : ev.Lands output shape start stop t.sink.base t.sink.data.size)
    (hstart : start ≤ block.start) (hstop : block.start + block.len ≤ stop)
    (hstorage : t.workspace.scratch.storage = t.sink.data.storage)
    (hsize : block.len ≤ t.workspace.scratch.size)
    (hrun : ∀ views (work : Column), ev.Views inputs shape block t.sink views →
      work.storage = t.sink.data.storage →
      work.size = (ev.blockTargets t.sink.base output shape block).length →
      ∃ final, ev.prepared.run ev.mode? block.len ⟨t.workspace.registers, views, work⟩
        = (.ok (), final) ∧ work.Alike final.output) :
    ∃ t' views work final, ev.runBlock block t = .ok () t' ∧
      ev.BlockRun output inputs shape block views work final t t' := by
  subst hshape
  obtain ⟨staged, views, hstaged, hviews, hviewed⟩ :=
    exists_views hoperands hcount hstaging hpos hblock hinputs
  have hruns := fun work => hrun views work hviewed
  by_cases hmode : ev.mode? = some .single
  · obtain ⟨hreads, hflat, hbase, hlt, hmax⟩ := hlands.single hmode
    have hplace : ev.place t.sink output t.iteration.shape block
        = .ok (.direct (output.base - t.sink.base) 1) :=
      place_single hmode hreads hflat hcounts hbase
    obtain ⟨t', hblockRun⟩ := runBlock_direct_eq_ok hoperands hstaged hviews hcounts hviewed hruns
      hplace (by simp [hmode]) (if_pos hmode) (by omega) (Shape.lt_uint64_iff.2 (by omega))
    exact ⟨t', views, hblockRun⟩
  · obtain ⟨hin, hnodup⟩ := hlands.targets hmode hstart hstop
    have hbase : ∀ k < block.len,
        t.sink.base ≤ output.offset t.iteration.shape (block.start + k) := fun k hk =>
      (hlands.moving hmode _ (by omega) (by omega)).1
    rcases place_moving hmode hpos houtput hblock hcounts hbase with
      ⟨hwhy, first, hplace, hfits, heven⟩ | ⟨hwhy, hplace⟩
    · have hlast := hin (first + (block.len - 1)) (by
        rw [heven, List.mem_range'_1]
        omega)
      obtain ⟨t', hblockRun⟩ := runBlock_direct_eq_ok hoperands hstaged hviews hcounts hviewed hruns
        hplace (fun _ => hwhy) ((if_neg hmode).trans heven) (by omega) hfits
      exact ⟨t', views, hblockRun⟩
    · obtain ⟨t', hblockRun⟩ := runBlock_scratch_eq_ok hoperands hstaged hviews hcounts hviewed
        hruns hmode hplace hwhy hin hnodup hstorage hsize
      exact ⟨t', views, hblockRun⟩

/-! ## Blocks that went well -/

/-- The column that a program without folds works on. -/
def workColumn (t : Traversal) (n : Nat) : Placement → Column
  | .direct start len => t.sink.data.slice start (start + len)
  | .scratch _ => t.workspace.scratch.head n

theorem of_runDirect_eq_ok {n start len : Nat} {staged : List Staged} {t' : Traversal}
    (h : ev.runDirect n staged start len t = .ok () t') :
    ∃ views final, staged.mapM (·.view t.sink n) = .ok views ∧ ev.prepared.run ev.mode? n
      ⟨t.workspace.registers, views, t.sink.data.slice start (start + len)⟩ = (.ok (), final) := by
  unfold runDirect at h
  rw [TraversalM.get_bind] at h
  obtain ⟨views, hviews, h⟩ := TraversalM.exists_of_liftExcept_bind_eq_ok h
  obtain ⟨_, hstop, h⟩ := TraversalM.exists_of_liftExcept_bind_eq_ok h
  obtain ⟨-, rfl⟩ := checkedSum_eq_some_iff.1 (counted_eq_ok_iff.1 hstop)
  obtain ⟨⟨result, final⟩, hrun⟩ : ∃ outcome, ev.prepared.run ev.mode? n
    ⟨t.workspace.registers, views, t.sink.data.slice start (start + len)⟩ = outcome := ⟨_, rfl⟩
  simp only [hrun] at h
  obtain ⟨_, _, -, h⟩ := TraversalM.exists_of_bind_eq_ok h
  obtain ⟨rfl, -⟩ := TraversalM.of_liftExcept_eq_ok h
  exact ⟨views, final, hviews, hrun⟩

theorem of_runScratch_eq_ok (hmode : ev.mode? = none) {n : Nat} {staged : List Staged}
    {offsets : List Nat} {t' : Traversal} (h : ev.runScratch n staged offsets t = .ok () t') :
    ∃ views final, staged.mapM (·.view t.sink n) = .ok views ∧ ev.prepared.run ev.mode? n
      ⟨t.workspace.registers, views, t.workspace.scratch.head n⟩ = (.ok (), final) := by
  unfold runScratch runLoaded at h
  simp only [hmode, Option.isSome_none, Bool.false_eq_true, if_false] at h ⊢
  rw [TraversalM.get_bind] at h
  obtain ⟨views, hviews, h⟩ := TraversalM.exists_of_liftExcept_bind_eq_ok h
  obtain ⟨⟨result, final⟩, hrun⟩ : ∃ outcome, ev.prepared.run none n
    ⟨t.workspace.registers, views, t.workspace.scratch.head n⟩ = outcome := ⟨_, rfl⟩
  simp only [hrun] at h
  obtain ⟨_, _, -, h⟩ := TraversalM.exists_of_bind_eq_ok h
  obtain ⟨_, _, hresult, -⟩ := TraversalM.exists_of_bind_eq_ok h
  obtain ⟨rfl, -⟩ := TraversalM.of_liftExcept_eq_ok hresult
  exact ⟨views, final, hviews, hrun⟩

/-- Inputs that were made ready together were made ready each. -/
theorem exists_stage {staged : List Staged} (h : ev.stageAll t block = .ok staged) {i : Nat}
    {source : Source} (hsource : ev.sources[i]? = some source) :
    ∃ s, source.stage t block i = .ok s := by
  have hmem : (source, i) ∈ ev.sources.zipIdx := List.mem_zipIdx_iff_getElem?.2 hsource
  obtain ⟨s, -, hs⟩ := exists_of_mem_of_forall₂ (mapM_eq_ok_iff.1 h).flip hmem
  exact ⟨s, hs⟩

/-- The parts of a block that went well. -/
theorem exists_place_of_runBlock (hoperands : t.iteration.operands = output :: inputs)
    {t' : Traversal} (h : ev.runBlock block t = .ok () t') :
    ∃ staged placement, ev.stageAll t block = .ok staged ∧
      ev.place t.sink output t.iteration.shape block = .ok placement ∧
      (match placement with
        | .direct start len => ev.runDirect block.len staged start len
        | .scratch offsets => ev.runScratch block.len staged offsets) t = .ok () t' := by
  unfold runBlock at h
  rw [TraversalM.get_bind] at h
  obtain ⟨staged, hstaged, h⟩ := TraversalM.exists_of_liftExcept_bind_eq_ok h
  obtain ⟨_, hfirst, h⟩ := TraversalM.exists_of_liftExcept_bind_eq_ok h
  rw [hoperands, List.getElem?_cons_zero, indexed_some] at hfirst
  obtain rfl := Except.ok.inj hfirst
  obtain ⟨placement, hplace, h⟩ := TraversalM.exists_of_liftExcept_bind_eq_ok h
  exact ⟨staged, placement, hstaged, hplace, h⟩

/-- A block goes well only if its inputs can be made ready and its program runs. -/
theorem of_runBlock_eq_ok (hmode : ev.mode? = none)
    (hoperands : t.iteration.operands = output :: inputs) {t' : Traversal}
    (h : ev.runBlock block t = .ok () t') :
    ∃ staged views placement final, ev.stageAll t block = .ok staged ∧
      staged.mapM (·.view t.sink block.len) = .ok views ∧
      ev.place t.sink output t.iteration.shape block = .ok placement ∧
      ev.prepared.run ev.mode? block.len
        ⟨t.workspace.registers, views, workColumn t block.len placement⟩ = (.ok (), final) := by
  obtain ⟨staged, placement, hstaged, hplace, h⟩ := exists_place_of_runBlock hoperands h
  cases placement with
  | direct start len =>
    obtain ⟨views, final, hviews, hrun⟩ := of_runDirect_eq_ok h
    exact ⟨staged, views, _, final, hstaged, hviews, hplace, hrun⟩
  | scratch offsets =>
    obtain ⟨views, final, hviews, hrun⟩ := of_runScratch_eq_ok hmode h
    exact ⟨staged, views, _, final, hstaged, hviews, hplace, hrun⟩

end Evaluation

end Lanewise
