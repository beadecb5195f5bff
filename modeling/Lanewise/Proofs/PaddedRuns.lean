import Lanewise.Engine
import Lanewise.Proofs.PaddedColumns
import Lanewise.Proofs.Visits

/-!
# Runs over padded strings

Two runs of one program, each over strings at widths of its own, go side by side: they
fail at the same step with the same error, or both go on with columns that are alike.
This is shown for one instruction (`Frame.Akin.execute?`) and so for a program
(`Prepared.SameCode.run`), then for a block (`Evaluation.Akin.runBlock`) and so for a walk
over all blocks (`Evaluation.Akin.runPlain`).
-/

namespace Lanewise

open Shape (size)

variable {v : Vocabulary}

/-! ## Programs -/

/-- Registers that are alike. Temporaries hold results. -/
structure RegisterFile.Akin (v : Vocabulary) (regs regs' : RegisterFile) : Prop where
  layout : regs.layout = regs'.layout
  columns : ∀ reg : Nat, Option.Rel (fun c d => c.Akin v d ∧
    (regs.layout.role? reg = some .temporary → c.storage.Roomy v d.storage))
    regs.columns[reg]? regs'.columns[reg]?

structure Frame.Akin (v : Vocabulary) (frame frame' : Frame) : Prop where
  registers : frame.registers.Akin v frame'.registers
  inputs : List.Forall₂ (Column.Akin v) frame.inputs frame'.inputs
  output : frame.output.Held v frame'.output

/-- The same program, laid out for strings of other widths. -/
structure Prepared.SameCode (p p' : Prepared) : Prop where
  steps : p.steps = p'.steps
  layout : p.layout = p'.layout
  blockSize : p.blockSize = p'.blockSize
  boundsCheck : p.boundsCheck = p'.boundsCheck

namespace Frame.Akin

variable {frame frame' : Frame}

theorem register? (h : frame.Akin v frame') (reg : Nat) :
    Option.Rel (Column.Akin v) (frame.register? reg) (frame'.register? reg) := by
  have hcolumn : Option.Rel (Column.Akin v) frame.registers.columns[reg]?
      frame'.registers.columns[reg]? :=
    rel_imp (h.registers.columns reg) fun _ _ hcd => hcd.1
  unfold Frame.register?
  rw [← h.registers.layout]
  split
  · exact .none
  · exact .some h.output.toAkin
  · exact rel_getElem? h.inputs _
  · exact hcolumn
  · exact hcolumn

theorem isWritable_eq (h : frame.Akin v frame') (reg : Nat) :
    frame.isWritable reg = frame'.isWritable reg := by
  rw [Frame.isWritable, Frame.isWritable, h.registers.layout, RegisterFile.size, RegisterFile.size,
    size_eq_of_rel h.registers.columns]

/-- Both ask for the number of registers, or neither does. -/
theorem miscounts_eq (h : frame.Akin v frame') (inst : Instruction) :
    frame'.miscounts inst = frame.miscounts inst := by
  refine Frame.miscounts_congr h.registers.layout.symm ?_ (fun reg => ?_) inst
  · exact (size_eq_of_rel h.registers.columns).symm
  · have hcolumn := h.register? reg
    generalize frame.register? reg = x at hcolumn ⊢
    generalize frame'.register? reg = y at hcolumn ⊢
    cases hcolumn <;> rfl

/-- What an instruction writes to holds results. -/
theorem target? (h : frame.Akin v frame') {reg : Nat} (hw : frame.isWritable reg = true) :
    Option.Rel (Column.Held v) (frame.register? reg) (frame'.register? reg) := by
  by_cases hzero : reg = 0
  · subst hzero
    exact .some h.output
  · have hrole := role?_of_isWritable hw hzero
    simp only [Frame.register?, ← h.registers.layout, hrole]
    exact rel_imp (h.registers.columns reg) fun _ _ hcd => ⟨hcd.1, hcd.2 hrole⟩

theorem set (h : frame.Akin v frame') (reg : Nat) {c d : Column} (hcd : c.Held v d) :
    (frame.set reg c).Akin v (frame'.set reg d) := by
  unfold Frame.set
  split
  · exact ⟨h.registers, h.inputs, hcd⟩
  · refine ⟨⟨h.registers.layout, ?_⟩, h.inputs, h.output⟩
    exact rel_setIfInBounds h.registers.columns ⟨hcd.toAkin, fun _ => hcd.roomy⟩

/-- One instruction. -/
theorem execute? (h : frame.Akin v frame') (mode : Accumulation) (n : Nat) (inst : Instruction) :
    Option.Rel (Frame.Akin v) (frame.execute? mode n inst) (frame'.execute? mode n inst) := by
  by_cases hnoop : inst.operation = .noop
  · rw [Frame.execute?, Frame.execute?, if_pos hnoop, if_pos hnoop]
    exact .some h
  cases hw : frame.isWritable inst.dest.toNat with
  | false =>
    rw [execute?_of_not_isWritable hnoop hw,
      execute?_of_not_isWritable hnoop ((h.isWritable_eq _).symm.trans hw)]
    exact .none
  | true =>
    rw [execute?_of_isWritable hnoop hw,
      execute?_of_isWritable hnoop ((h.isWritable_eq _).symm.trans hw)]
    have hread : Option.Rel (List.Forall₂ (Column.Akin v))
        (inst.sources.mapM fun reg => frame.register? reg.toNat)
        (inst.sources.mapM fun reg => frame'.register? reg.toNat) :=
      rel_mapM inst.sources fun reg => h.register? reg.toNat
    have hrule : Option.Rel (fun rule rule' => rule = rule' ∧ rule.Natural v)
        inst.rule? inst.rule? :=
      rel_of_isSome_eq rfl fun _ _ hrule hrule' => ⟨Option.some.inj (hrule.symm.trans hrule'),
        Operation.rule?_natural hrule⟩
    refine rel_bind hread fun _ _ hsources => ?_
    refine rel_bind hrule fun rule _ hrule => ?_
    refine rel_bind (h.target? hw) fun _ _ htarget => ?_
    obtain ⟨rfl, hnatural⟩ := hrule
    refine rel_bind (hnatural.onColumns? mode n hsources htarget) fun _ _ hnew => ?_
    exact .some (h.set _ hnew)

end Frame.Akin

namespace Prepared

variable {p p' : Prepared} {frame frame' : Frame}

theorem SameCode.step (hp : p.SameCode p') (h : frame.Akin v frame') (mode? : Option Accumulation)
    (n : Nat) (isLast : Bool) (step : Step) :
    Concur (Frame.Akin v) (p.step mode? n isLast frame step)
      (p'.step mode? n isLast frame' step) := by
  cases step with
  | invalid pc => exact .error _
  | truncated pc => exact .error _
  | execute inst =>
    have hin : p.inBounds inst = p'.inBounds inst := by
      rw [inBounds, inBounds, hp.layout]
    have hexecute := h.execute? (mode?.getD .lanewise) n inst
    simp only [Prepared.step, hp.boundsCheck, hp.layout, hin, h.miscounts_eq]
    split
    · exact .error _
    split
    · exact .error _
    split
    · exact .error _
    split
    · exact .error _
    generalize frame.execute? _ n inst = x at hexecute ⊢
    generalize frame'.execute? _ n inst = y at hexecute ⊢
    cases hexecute with
    | none => exact .error _
    | some h => exact .ok h

theorem SameCode.runSteps (hp : p.SameCode p') (mode? : Option Accumulation) (n : Nat)
    (steps : List Step) (h : frame.Akin v frame') :
    Ends (Frame.Akin v) (p.runSteps mode? n steps frame) (p'.runSteps mode? n steps frame') := by
  induction steps generalizing frame frame' with
  | nil => exact ⟨rfl, h⟩
  | cons step rest ih =>
    have hstep := hp.step h mode? n rest.isEmpty step
    unfold Prepared.runSteps
    generalize p.step mode? n rest.isEmpty frame step = x at hstep ⊢
    generalize p'.step mode? n rest.isEmpty frame' step = y at hstep ⊢
    cases hstep with
    | ok h => exact ih h
    | error e => exact ⟨rfl, h⟩

/-- The program does the same to frames that are alike. -/
theorem SameCode.run (hp : p.SameCode p') (mode? : Option Accumulation) (n : Nat)
    (h : frame.Akin v frame') :
    Ends (Frame.Akin v) (p.run mode? n frame) (p'.run mode? n frame') := by
  rw [Prepared.run, Prepared.run, ← hp.steps]
  exact hp.runSteps mode? n _ h

end Prepared

/-! ## Traversals -/

/-- Arrays that are alike. Nothing reads the output. -/
inductive Source.Akin (v : Vocabulary) : Source → Source → Prop
  | array {c d : Column} (h : c.Akin v d) : Akin v (.array c) (.array d)

/-- The same program over inputs that are alike. -/
structure Evaluation.Akin (v : Vocabulary) (ev ev' : Evaluation) : Prop where
  prepared : ev.prepared.SameCode ev'.prepared
  sources : List.Forall₂ (Source.Akin v) ev.sources ev'.sources
  mode : ev.mode? = ev'.mode?

/-- A column to collect each input in, of its storage. -/
def Evaluation.Collects (ev : Evaluation) (staging : List Column) : Prop :=
  ∀ (i : Nat) (c data : Column), staging[i]? = some c → ev.sources[i]? = some (.array data) →
    data.storage = c.storage

/-- Buffers that are alike, for evaluations that are. -/
structure Workspace.Akin (v : Vocabulary) (ev ev' : Evaluation) (w w' : Workspace) : Prop where
  registers : w.registers.Akin v w'.registers
  staging : List.Forall₂ (Column.Akin v) w.staging w'.staging
  collects : ev.Collects w.staging
  collects' : ev'.Collects w'.staging
  scratch : w.scratch.Held v w'.scratch

structure Sink.Akin (v : Vocabulary) (sink sink' : Sink) : Prop where
  data : sink.data.Held v sink'.data
  base : sink.base = sink'.base

structure Traversal.Akin (v : Vocabulary) (ev ev' : Evaluation) (t t' : Traversal) : Prop where
  workspace : t.workspace.Akin v ev ev' t'.workspace
  sink : t.sink.Akin v t'.sink
  iteration : t.iteration = t'.iteration

/-- Both walks may be put at one place. -/
theorem Traversal.Akin.moved {ev ev' : Evaluation} {t t' : Traversal} (h : t.Akin v ev ev' t')
    (iteration : Iteration) : Akin v ev ev' { t with iteration } { t' with iteration } :=
  ⟨h.workspace, h.sink, rfl⟩

/-- The walk of a traversal can be moved as `it` can, and the output has `len` elements from
`base` on. -/
structure Traversal.Moves (t : Traversal) (it : Iteration) (base len : Nat) : Prop where
  setBases : ∀ bases, t.iteration.setBases bases = it.setBases bases
  base : t.sink.base = base
  size : t.sink.data.size = len

/-- Offsets of operands where they have elements: the output has `len` of them from `base`
on. -/
structure Evaluation.Leads (ev : Evaluation) (base len : Nat) (offsets : List Nat) : Prop where
  output : ∀ o, offsets[0]? = some o → o < base + len
  input : ∀ (i o : Nat) (data : Column), offsets[i + 1]? = some o →
    ev.sources[i]? = some (.array data) → o < data.size

/-- The walk of a traversal, and its output. -/
theorem Traversal.Moves.atStart {t : Traversal} {it : Iteration} {sink : Sink}
    (hit : t.iteration = it) (hsink : t.sink = sink) : t.Moves it sink.base sink.data.size :=
  ⟨fun _ => by rw [hit], by rw [hsink], by rw [hsink]⟩

/-- A walk that stays within the arrays that it reads, and within the output. -/
structure Evaluation.StaysIn (ev : Evaluation) (it : Iteration) (base len : Nat) : Prop where
  stop_le : it.stop ≤ size it.shape
  strides : ∀ op ∈ it.operands, op.strides.length = it.shape.length
  leads : ∀ p, it.start ≤ p → p < it.stop →
    ev.Leads base len (it.operands.map (·.offset it.shape p))

/-- A block of the positions of a walk. -/
structure Iteration.HasBlock (it : Iteration) (block : Block) : Prop where
  pos : 0 < block.len
  start_le : it.start ≤ block.start
  le_stop : block.start + block.len ≤ it.stop

namespace TraversalM

variable {α β γ δ : Type} {R : α → β → Prop} {S : γ → δ → Prop} {ev ev' : Evaluation}
  {t t' : Traversal}

/-- Where a computation comes to from traversals that are alike. -/
inductive Matches (v : Vocabulary) (ev ev' : Evaluation) (R : α → β → Prop) :
    EStateM.Result EvalError Traversal α → EStateM.Result EvalError Traversal β → Prop
  | ok {a : α} {b : β} {t t' : Traversal} (h : R a b) (ht : t.Akin v ev ev' t') :
      Matches v ev ev' R (.ok a t) (.ok b t')
  | error (e : EvalError) {t t' : Traversal} (ht : t.Akin v ev ev' t') :
      Matches v ev ev' R (.error e t) (.error e t')

theorem Matches.bind {x : TraversalM α} {y : TraversalM β} {f : α → TraversalM γ}
    {g : β → TraversalM δ} (h : Matches v ev ev' R (x t) (y t'))
    (hfg : ∀ a b t₁ t₁', x t = .ok a t₁ → R a b → t₁.Akin v ev ev' t₁' →
      Matches v ev ev' S (f a t₁) (g b t₁')) :
    Matches v ev ev' S ((x >>= f) t) ((y >>= g) t') := by
  simp only [Bind.bind, EStateM.bind]
  generalize hx : x t = r at h ⊢
  generalize y t' = r' at h ⊢
  cases h with
  | ok h ht => exact hfg _ _ _ _ hx h ht
  | error e ht => exact .error e ht

/-- Steps that only look at the traversals, or change them. -/
theorem Matches.step {x : TraversalM α} {y : TraversalM β} {f : α → TraversalM γ}
    {g : β → TraversalM δ} {a : α} {b : β} {t₁ t₁' : Traversal} (hx : x t = .ok a t₁)
    (hy : y t' = .ok b t₁') (h : Matches v ev ev' S (f a t₁) (g b t₁')) :
    Matches v ev ev' S ((x >>= f) t) ((y >>= g) t') := by
  rw [bind_apply hx, bind_apply hy]
  exact h

theorem Matches.get_bind {f : Traversal → TraversalM γ} {g : Traversal → TraversalM δ}
    (h : Matches v ev ev' S (f t t) (g t' t')) :
    Matches v ev ev' S ((get >>= f) t) ((get >>= g) t') :=
  .step rfl rfl h

theorem Matches.lift {x : Except EvalError α} {y : Except EvalError β} (h : Concur R x y)
    (ht : t.Akin v ev ev' t') : Matches v ev ev' R ((liftExcept x : TraversalM α) t)
      ((liftExcept y : TraversalM β) t') := by
  cases h with
  | ok h => exact .ok h ht
  | error e => exact .error e ht

theorem Matches.lift_bind {x : Except EvalError α} {y : Except EvalError β} {f : α → TraversalM γ}
    {g : β → TraversalM δ} (h : Concur R x y) (ht : t.Akin v ev ev' t')
    (hfg : ∀ a b, x = .ok a → R a b → Matches v ev ev' S (f a t) (g b t')) :
    Matches v ev ev' S ((liftExcept x >>= f) t) ((liftExcept y >>= g) t') := by
  cases h with
  | ok h => exact hfg _ _ rfl h
  | error e => exact .error e ht

theorem Matches.unless {c d : Bool} {e e' : EvalError} (h : c = d) (he : e = e')
    (ht : t.Akin v ev ev' t') : Matches v ev ev' (· = ·)
      ((unless c do throw e : TraversalM Unit) t)
      ((unless d do throw e' : TraversalM Unit) t') := by
  subst h he
  cases c with
  | true => exact .ok rfl ht
  | false => exact .error e ht

end TraversalM

/-! ## What a block reads -/

theorem Sink.Akin.relative_eq {sink sink' : Sink} (h : sink.Akin v sink') (offsets : List Nat) :
    sink.relative offsets = sink'.relative offsets := by
  rw [relative, relative, h.base]

/-- Inputs made ready that are alike. -/
inductive Staged.Akin (v : Vocabulary) : Staged → Staged → Prop
  | ready {c d : Column} (h : c.Akin v d) : Akin v (.ready c) (.ready d)

theorem Staged.Akin.view {staged staged' : Staged} (h : staged.Akin v staged') (sink sink' : Sink)
    (n : Nat) : Concur (Column.Akin v) (staged.view sink n) (staged'.view sink' n) := by
  cases h with
  | ready h => exact .ok h

namespace Evaluation

open TraversalM

variable {ev ev' : Evaluation} {t t' : Traversal} {block : Block}

/-- A walk with a block has positions. -/
theorem StaysIn.size_ne_zero {it : Iteration} {base len : Nat} (h : ev.StaysIn it base len)
    (hblock : it.HasBlock block) : size it.shape ≠ 0 := by
  have hpos := hblock.pos
  have hle := hblock.le_stop
  have hstop := h.stop_le
  omega

section Block

variable (ht : t.Akin v ev ev' t') {base len : Nat} (hstays : ev.StaysIn t.iteration base len)
  (hblock : t.iteration.HasBlock block)

include ht hstays hblock

/-- Elements of an input that are collected are alike. -/
theorem akin_collect {data data' : Column} (h : data.Akin v data') {i : Nat}
    (hsource : ev.sources[i]? = some (.array data))
    (hsource' : ev'.sources[i]? = some (.array data')) {op : Strided}
    (hop : t.iteration.operands[i + 1]? = some op) :
    Concur (Staged.Akin v) ((Source.array data).collect t op block i)
      ((Source.array data').collect t' op block i) := by
  unfold Source.collect
  rw [← ht.iteration]
  refine Concur.bind_same fun offsets hoffsets => ?_
  have hlist := Strided.of_offsets? (hstays.size_ne_zero hblock)
    (hstays.strides op (List.mem_of_getElem? hop)) (counted_eq_ok_iff.1 hoffsets)
  have hin : ∀ o ∈ offsets, o < data.size := by
    intro o ho
    rw [hlist] at ho
    obtain ⟨k, hk, rfl⟩ := List.mem_map.1 ho
    have hlow := hblock.start_le
    have hhigh := hblock.le_stop
    have hk := List.mem_range.1 hk
    refine (hstays.leads (block.start + k) (by omega) (by omega)).input i _ data ?_ hsource
    rw [List.getElem?_map, hop, Option.map_some]
  have hbuffer := rel_getElem? ht.workspace.staging i
  have hcollects := ht.workspace.collects i
  have hcollects' := ht.workspace.collects' i
  generalize t.workspace.staging[i]? = x at hbuffer hcollects ⊢
  generalize t'.workspace.staging[i]? = y at hbuffer hcollects' ⊢
  cases hbuffer with
  | none => exact .error _
  | @some c d hcd =>
    refine ((hcd.head block.len).collect (hcollects c data rfl hsource)
      (hcollects' d data' rfl hsource') h hin).bind fun _ _ hview => ?_
    exact .ok (.ready hview)

/-- What a block reads of an input is alike. -/
theorem akin_stage {source source' : Source} (h : source.Akin v source') {i : Nat}
    (hsource : ev.sources[i]? = some source) (hsource' : ev'.sources[i]? = some source') :
    Concur (Staged.Akin v) (source.stage t block i) (source'.stage t' block i) := by
  cases h with
  | array h =>
    unfold Source.stage
    rw [← ht.iteration]
    refine Concur.bind_same fun op hop => Concur.bind_same fun access _ => ?_
    have hcollect := akin_collect ht hstays hblock h hsource hsource' (indexed_eq_ok_iff.1 hop)
    by_cases hrow : ∃ start, access = .even start 1
    · obtain ⟨start, rfl⟩ := hrow
      exact Concur.bind_same fun stop _ => .ok (.ready (h.slice _ _))
    · cases access with
      | uneven => exact hcollect
      | even start step =>
        match step, hrow with
        | 0, _ => exact hcollect
        | 1, hrow => exact absurd ⟨start, rfl⟩ hrow
        | _ + 2, _ => exact hcollect

theorem akin_stageAll (h : ev.Akin v ev') :
    Concur (List.Forall₂ (Staged.Akin v)) (ev.stageAll t block) (ev'.stageAll t' block) := by
  have hpairs : List.Forall₂ (fun x y => x.2 = y.2 ∧ x.1.Akin v y.1 ∧
      ev.sources[x.2]? = some x.1 ∧ ev'.sources[y.2]? = some y.1)
      ev.sources.zipIdx ev'.sources.zipIdx := by
    have hlength := h.sources.length_eq
    refine List.forall₂_iff_get.2 ⟨by simp [hlength], fun i hi hi' => ?_⟩
    rw [List.length_zipIdx] at hi hi'
    have hsource := (List.forall₂_iff_get.1 h.sources).2 i hi hi'
    simp only [List.get_eq_getElem, List.getElem_zipIdx, Nat.zero_add, true_and]
    exact ⟨hsource, List.getElem?_eq_getElem hi, List.getElem?_eq_getElem hi'⟩
  refine Concur.mapM hpairs ?_
  rintro ⟨source, i⟩ ⟨source', _⟩ ⟨rfl, hsource, hi, hi'⟩
  exact akin_stage ht hstays hblock hsource hi hi'

end Block

/-! ## Blocks -/

theorem Akin.readsOutput_eq (h : ev.Akin v ev') : ev.readsOutput = ev'.readsOutput := by
  have hsources := h.sources
  unfold readsOutput
  generalize ev.sources = sources at hsources ⊢
  generalize ev'.sources = sources' at hsources ⊢
  induction hsources with
  | nil => rfl
  | cons hsource _ ih =>
    rw [List.any_cons, List.any_cons]
    cases hsource with
    | array => exact ih

theorem Akin.place_eq (h : ev.Akin v ev') {sink sink' : Sink} (hsink : sink.Akin v sink')
    (op : Strided) (shape : Shape) (block : Block) :
    ev.place sink op shape block = ev'.place sink' op shape block := by
  simp only [place, h.mode, h.readsOutput_eq, hsink.base, hsink.relative_eq]

theorem Akin.runDirect (h : ev.Akin v ev') (ht : t.Akin v ev ev' t') (n : Nat)
    {inputs inputs' : List Staged} (hinputs : List.Forall₂ (Staged.Akin v) inputs inputs')
    (start len : Nat) :
    Matches v ev ev' (· = ·) (ev.runDirect n inputs start len t)
      (ev'.runDirect n inputs' start len t') := by
  unfold Evaluation.runDirect
  refine .get_bind ?_
  refine .lift_bind (Concur.mapM hinputs fun _ _ hstaged => hstaged.view _ _ n) ht
    fun views views' _ hviews => ?_
  refine .lift_bind .refl ht fun stop _ _ heq => ?_
  subst heq
  have hframe : Frame.Akin v ⟨t.workspace.registers, views, t.sink.data.slice start stop⟩
      ⟨t'.workspace.registers, views', t'.sink.data.slice start stop⟩ :=
    ⟨ht.workspace.registers, hviews, ht.sink.data.slice start stop⟩
  obtain ⟨hresult, hfinal⟩ := h.prepared.run ev.mode? n hframe
  rw [← h.mode]
  refine .step rfl rfl (.lift (hresult ▸ .refl) ⟨?_, ?_, ht.iteration⟩)
  · exact { ht.workspace with registers := hfinal.registers }
  · exact ⟨(ht.sink.data.write start hfinal.output.toAkin).1, ht.sink.base⟩

theorem akin_loadScratch (ht : t.Akin v ev ev' t') {offsets : List Nat}
    (hin : ∀ o ∈ offsets, o < t.sink.data.size) :
    Matches v ev ev' (· = ·) (loadScratch offsets t) (loadScratch offsets t') := by
  have hgather := ht.workspace.scratch.gather ht.sink.data.toAkin offsets
  have hin' : ∀ o ∈ offsets, o < t'.sink.data.size := ht.sink.data.toAkin.size_eq ▸ hin
  unfold loadScratch
  refine .get_bind (.step rfl rfl (.unless hgather.2 ?_ ?_))
  · rw [Column.fault_of_lt fun o ho => hin o (List.mem_of_mem_take ho),
      Column.fault_of_lt fun o ho => hin' o (List.mem_of_mem_take ho)]
  · exact ⟨{ ht.workspace with scratch := hgather.1 }, ht.sink, ht.iteration⟩

theorem akin_storeScratch (ht : t.Akin v ev ev' t') (n : Nat) {offsets : List Nat}
    (hin : ∀ o ∈ offsets, o < t.sink.data.size) :
    Matches v ev ev' (· = ·) (storeScratch n offsets t) (storeScratch n offsets t') := by
  have hscatter := ht.sink.data.scatter (ht.workspace.scratch.head n).toAkin offsets
  have hin' : ∀ o ∈ offsets, o < t'.sink.data.size := ht.sink.data.toAkin.size_eq ▸ hin
  unfold storeScratch
  refine .get_bind (.step rfl rfl (.unless hscatter.2 ?_ ?_))
  · rw [Column.fault_of_lt fun o ho => hin o (List.mem_of_mem_take ho),
      Column.fault_of_lt fun o ho => hin' o (List.mem_of_mem_take ho)]
  · exact ⟨ht.workspace, ⟨hscatter.1, ht.sink.base⟩, ht.iteration⟩

theorem Akin.runLoaded (h : ev.Akin v ev') (ht : t.Akin v ev ev' t') (n : Nat)
    {inputs inputs' : List Staged} (hinputs : List.Forall₂ (Staged.Akin v) inputs inputs')
    {offsets : List Nat} (hin : ∀ o ∈ offsets, o < t.sink.data.size) :
    Matches v ev ev' (· = ·) (ev.runLoaded n inputs offsets t)
      (ev'.runLoaded n inputs' offsets t') := by
  unfold Evaluation.runLoaded
  refine .get_bind ?_
  refine .lift_bind (Concur.mapM hinputs fun _ _ hstaged => hstaged.view _ _ n) ht
    fun views views' _ hviews => ?_
  have hframe : Frame.Akin v ⟨t.workspace.registers, views, t.workspace.scratch.head n⟩
      ⟨t'.workspace.registers, views', t'.workspace.scratch.head n⟩ :=
    ⟨ht.workspace.registers, hviews, ht.workspace.scratch.head n⟩
  have hends := h.prepared.run ev.mode? n hframe
  rw [← h.mode]
  generalize ev.prepared.run ev.mode? n _ = x at hends ⊢
  generalize ev'.prepared.run ev.mode? n _ = y at hends ⊢
  obtain ⟨result, frame⟩ := x
  obtain ⟨_, frame'⟩ := y
  obtain ⟨rfl, hfinal⟩ := hends
  have ht₁ : Traversal.Akin v ev ev'
      { t with
        workspace.registers := frame.registers
        workspace.scratch := (t.workspace.scratch.write 0 frame.output).1 }
      { t' with
        workspace.registers := frame'.registers
        workspace.scratch := (t'.workspace.scratch.write 0 frame'.output).1 } :=
    ⟨{ ht.workspace with
      registers := hfinal.registers
      scratch := (ht.workspace.scratch.write 0 hfinal.output.toAkin).1 }, ht.sink, ht.iteration⟩
  exact .step rfl rfl (.lift_bind .refl ht₁ fun _ _ _ _ => akin_storeScratch ht₁ n hin)

theorem Akin.runScratch (h : ev.Akin v ev') (ht : t.Akin v ev ev' t') (n : Nat)
    {inputs inputs' : List Staged} (hinputs : List.Forall₂ (Staged.Akin v) inputs inputs')
    {offsets : List Nat} (hin : ∀ o ∈ offsets, o < t.sink.data.size) :
    Matches v ev ev' (· = ·) (ev.runScratch n inputs offsets t)
      (ev'.runScratch n inputs' offsets t') := by
  unfold Evaluation.runScratch
  rw [← h.mode]
  split
  · refine (akin_loadScratch ht hin).bind fun _ _ t₁ t₁' hload _ ht₁ => ?_
    exact h.runLoaded ht₁ n hinputs ((keeps_of_loadScratch hload).data.size ▸ hin)
  · exact h.runLoaded ht n hinputs hin

/-- What a block puts in place goes into the output. -/
theorem lt_of_place {base : Nat} {output : Strided} {offsets : List Nat} {sink : Sink}
    (hstays : ev.StaysIn t.iteration base sink.data.size) (hblock : t.iteration.HasBlock block)
    (hbase : sink.base = base) (houtput : t.iteration.operands[0]? = some output)
    (h : ev.place sink output t.iteration.shape block = .ok (.scratch offsets)) :
    ∀ o ∈ offsets, o < sink.data.size := by
  obtain ⟨hlow, rfl⟩ := of_place_eq_scratch (hstays.size_ne_zero hblock)
    (hstays.strides output (List.mem_of_getElem? houtput)) h
  intro o ho
  obtain ⟨k, hk, rfl⟩ := List.mem_map.1 ho
  have hk := List.mem_range.1 hk
  have hfirst := hblock.start_le
  have hlast := hblock.le_stop
  have hstop := (hstays.leads (block.start + k) (by omega) (by omega)).output
    (output.offset t.iteration.shape (block.start + k))
    (by rw [List.getElem?_map, houtput, Option.map_some])
  have hlow := hlow k hk
  omega

/-- One block. -/
theorem Akin.runBlock (h : ev.Akin v ev') (ht : t.Akin v ev ev' t')
    (hstays : ev.StaysIn t.iteration t.sink.base t.sink.data.size)
    (hblock : t.iteration.HasBlock block) :
    Matches v ev ev' (· = ·) (ev.runBlock block t) (ev'.runBlock block t') := by
  unfold Evaluation.runBlock
  refine .get_bind (.lift_bind (akin_stageAll ht hstays hblock h) ht
    fun staged staged' _ hstaged => ?_)
  rw [← ht.iteration]
  refine .lift_bind .refl ht fun output _ houtput heq => ?_
  subst heq
  rw [← h.place_eq ht.sink]
  refine .lift_bind .refl ht fun placement _ hplace heq => ?_
  subst heq
  cases placement with
  | direct start len => exact h.runDirect ht block.len hstaged start len
  | scratch offsets =>
    exact h.runScratch ht block.len hstaged
      (lt_of_place hstays hblock rfl (indexed_eq_ok_iff.1 houtput) hplace)

/-! ## Walks -/

theorem StaysIn.later {it : Iteration} {base len : Nat} (h : ev.StaysIn it base len)
    (position : Nat) : ev.StaysIn { it with position } base len :=
  ⟨h.stop_le, h.strides, h.leads⟩

/-- All blocks of a walk. -/
theorem Akin.runBlocks (h : ev.Akin v ev') {it : Iteration} (ht : t.Akin v ev ev' t')
    (hstays : ev.StaysIn it t.sink.base t.sink.data.size) (hstart : it.start ≤ it.position) :
    Matches v ev ev' (· = ·) (ev.runBlocks it t) (ev'.runBlocks it t') := by
  fun_induction Iteration.blocks it generalizing t t' with
  | case1 it hnone =>
    rw [runBlocks_done hnone, runBlocks_done hnone]
    exact .ok rfl ht
  | case2 it block rest hsome ih =>
    obtain ⟨hmore, rfl, rfl⟩ := Iteration.next?_eq_some hsome
    rw [runBlocks_next hsome, runBlocks_next hsome]
    have hpos := it.blockSize_pos
    have hlater := hstays.later (it.position + min it.blockSize (it.stop - it.position))
    have hrest : it.start ≤ it.position + min it.blockSize (it.stop - it.position) := by omega
    refine (h.runBlock (ht.moved _) hlater ?_).bind fun _ _ t₁ t₁' hblock _ ht₁ => ?_
    · exact ⟨by simp only; omega, hstart, by simp only; omega⟩
    · have hkeeps := keeps_of_runBlock hblock
      refine ih ht₁ ?_ hrest
      rw [hkeeps.base, hkeeps.data.size]
      exact hlater

/-- All blocks from the start of a walk on. -/
theorem Akin.runPlain (h : ev.Akin v ev') (ht : t.Akin v ev ev' t')
    (hstays : ev.StaysIn t.iteration t.sink.base t.sink.data.size)
    (hstart : t.iteration.start ≤ t.iteration.position) :
    Matches v ev ev' (· = ·) (ev.runPlain t) (ev'.runPlain t') := by
  rw [runPlain_apply, runPlain_apply, ← ht.iteration]
  exact h.runBlocks ht hstays hstart

/-! ## Loops of walks -/

section Loops

variable {it : Iteration} {base len : Nat}

/-- A walk from given bases. -/
theorem Akin.runFrom (h : ev.Akin v ev') (ht : t.Akin v ev ev' t') (hmoves : t.Moves it base len)
    {bases : List Nat} (hstays : bases.length = it.operands.length →
      ev.StaysIn (it.startAt bases) base len) :
    Matches v ev ev' (· = ·) (ev.runFrom bases t) (ev'.runFrom bases t') := by
  unfold Evaluation.runFrom
  refine .get_bind ?_
  rw [← ht.iteration]
  refine .lift_bind .refl ht fun iteration _ hset heq => ?_
  subst heq
  obtain ⟨hlen, rfl⟩ :=
    Iteration.setBases_eq_ok_iff.1 ((hmoves.setBases bases).symm.trans hset)
  refine .step rfl rfl (h.runPlain (ht.moved _) ?_ (Nat.le_refl _))
  rw [hmoves.base, hmoves.size]
  exact hstays hlen

/-- The walk can be moved as before. -/
theorem moves_of_runFrom (hmoves : t.Moves it base len) {bases : List Nat}
    (h : ev.runFrom bases t = .ok () t') : t'.Moves it base len := by
  unfold runFrom at h
  rw [TraversalM.get_bind] at h
  obtain ⟨iteration, hset, h⟩ := TraversalM.exists_of_liftExcept_bind_eq_ok h
  obtain ⟨hlen, rfl⟩ :=
    Iteration.setBases_eq_ok_iff.1 ((hmoves.setBases bases).symm.trans hset)
  obtain ⟨_, _, hmoved, h⟩ := TraversalM.exists_of_bind_eq_ok h
  cases hmoved
  rw [runPlain_apply] at h
  obtain ⟨position, hposition⟩ := iteration_of_runBlocks h rfl
  have hroom := (Traversal.SameRoom.moved t _).trans (sameRoom_of_runBlocks h)
  refine ⟨fun bases' => ?_, hroom.base.trans hmoves.base, hroom.data.size.trans hmoves.size⟩
  rw [hposition]
  exact Iteration.setBases_startAt hlen position bases'

/-- A loop of walks, each from bases that may not fit 64 bits. -/
theorem Akin.forEach_runFrom (h : ev.Akin v ev') (ht : t.Akin v ev ev' t')
    (hmoves : t.Moves it base len) {bases? : Nat → Option (List Nat)} {first count : Nat}
    (hstays : ∀ i < first + count, ∀ bases, bases? i = some bases →
      bases.length = it.operands.length → ev.StaysIn (it.startAt bases) base len) :
    Matches v ev ev' (· = ·)
      (forEach (fun i => liftExcept (counted (bases? i)) >>= ev.runFrom) first count t)
      (forEach (fun i => liftExcept (counted (bases? i)) >>= ev'.runFrom) first count t') := by
  induction count generalizing first t t' with
  | zero => exact .ok rfl ht
  | succ count ih =>
    refine .bind (R := (· = ·)) (.lift_bind .refl ht fun bases _ hbases heq => ?_)
      fun _ _ t₁ t₁' hrun _ ht₁ => ?_
    · subst heq
      exact h.runFrom ht hmoves (hstays first (by omega) bases (counted_eq_ok_iff.1 hbases))
    · obtain ⟨bases, -, hrun⟩ := TraversalM.exists_of_liftExcept_bind_eq_ok hrun
      exact ih ht₁ (moves_of_runFrom hmoves hrun) fun i hi => hstays i (by omega)

end Loops

end Evaluation

end Lanewise
