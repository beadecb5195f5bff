import Lanewise.Engine
import Lanewise.Proofs.Axes
import Lanewise.Proofs.Traversal

/-!
# Visits

However a walk was moved about before, the blocks that it still has to give out
are those of the positions it has not come to (`Tour.OnTrack`). Both loops of a
reduction come to each group once with each position of the axis, and to the
positions of the axis in increasing order (`Evaluation.visits_eachOnce`).
-/

namespace Lanewise

/-! ## Blocks of a walk -/

namespace Block

def positions (block : Block) : List Nat :=
  List.range' block.start block.len

/-- Blocks that have the positions from `start` up to `stop`, in order. All of them
are full but for the last. -/
structure Tile (blockSize start stop : Nat) (blocks : List Block) : Prop where
  positions : blocks.flatMap Block.positions = List.range' start (stop - start)
  full : ∀ block ∈ blocks.dropLast, block.len = blockSize
  bounded : ∀ block ∈ blocks, 0 < block.len ∧ block.len ≤ blockSize

end Block

namespace Iteration

/-- Positions of two ranges that meet. -/
theorem range'_append_range' {start middle stop : Nat} (hlow : start ≤ middle)
    (hhigh : middle ≤ stop) : List.range' start (middle - start)
      ++ List.range' middle (stop - middle) = List.range' start (stop - start) := by
  have hmeet : List.range' middle (stop - middle)
      = List.range' (start + (middle - start)) (stop - middle) := by
    rw [Nat.add_sub_cancel' hlow]
  rw [hmeet, List.range'_append_1]
  congr 1
  omega

theorem next?_eq_some {it rest : Iteration} {block : Block} (h : it.next? = some (block, rest)) :
    it.position < it.stop ∧ block = ⟨it.position, min it.blockSize (it.stop - it.position)⟩ ∧
      rest = { it with position := it.position + block.len } := by
  unfold next? at h
  split at h
  · next hmore =>
    cases h
    exact ⟨hmore, rfl, rfl⟩
  · cases h

theorem next?_eq_none {it : Iteration} (h : it.next? = none) : it.stop ≤ it.position := by
  unfold next? at h
  split at h
  · cases h
  · next hdone => exact Nat.le_of_not_lt hdone

theorem blocks_of_stop_le {it : Iteration} (h : it.stop ≤ it.position) : it.blocks = [] := by
  have hnone : it.next? = none := if_neg (Nat.not_lt_of_le h)
  unfold blocks
  split
  · rfl
  · next hsome =>
    rw [hnone] at hsome
    cases hsome

/-- The blocks that a walk has left tile what is left of its range. -/
theorem tile_blocks (it : Iteration) :
    Block.Tile it.blockSize it.position it.stop (it.blocks.map Prod.fst) := by
  fun_induction Iteration.blocks it with
  | case1 it hnone =>
    have hle := next?_eq_none hnone
    refine ⟨?_, by simp, by simp⟩
    rw [Nat.sub_eq_zero_of_le hle]
    rfl
  | case2 it block rest hsome ih =>
    obtain ⟨hmore, rfl, rfl⟩ := next?_eq_some hsome
    have hpos := it.blockSize_pos
    refine ⟨?_, ?_, ?_⟩
    · have hrest := ih.positions
      rw [List.map_cons, List.flatMap_cons, hrest, Block.positions]
      have hmeet := @range'_append_range' it.position
        (it.position + min it.blockSize (it.stop - it.position)) it.stop (by omega) (by omega)
      rwa [Nat.add_sub_cancel_left] at hmeet
    · intro b hb
      rw [List.map_cons] at hb
      by_cases hnil : (blocks { it with
          position := it.position + min it.blockSize (it.stop - it.position) }).map Prod.fst = []
      · rw [hnil] at hb
        cases hb
      · rw [List.dropLast_cons_of_ne_nil hnil] at hb
        rcases List.mem_cons.1 hb with rfl | hb
        -- a block with others behind it does not go up to the end
        · refine Nat.min_eq_left (Nat.le_of_not_lt fun hlt => hnil ?_)
          rw [blocks_of_stop_le (by simp only; omega), List.map_nil]
        · exact ih.full b hb
    · rw [List.map_cons, List.forall_mem_cons]
      refine ⟨?_, ih.bounded⟩
      simp only
      omega

/-- Only the position of a walk changes from block to block. -/
theorem of_mem_blocks {it : Iteration} {x : Block × Iteration} (h : x ∈ it.blocks) :
    ∃ position, x.2 = { it with position } := by
  fun_induction Iteration.blocks it with
  | case1 => cases h
  | case2 it block rest hsome ih =>
    obtain ⟨-, -, rfl⟩ := next?_eq_some hsome
    rcases List.mem_cons.1 h with rfl | h
    · exact ⟨_, rfl⟩
    · exact ih h

/-- Where the operands are at each position of a block. -/
def blockOffsets (x : Block × Iteration) : List (List Nat) :=
  x.1.positions.map fun p => x.2.operands.map fun op => op.offset x.2.shape p

theorem flatMap_blockOffsets (it : Iteration) :
    it.blocks.flatMap blockOffsets = (List.range' it.position it.remaining).map fun p =>
      it.operands.map fun op => op.offset it.shape p := by
  have hsame : ∀ x ∈ it.blocks, blockOffsets x
      = x.1.positions.map fun p => it.operands.map fun op => op.offset it.shape p := by
    intro x hx
    obtain ⟨position, hrest⟩ := of_mem_blocks hx
    rw [blockOffsets, hrest]
  rw [List.flatMap_congr hsame, remaining, ← it.tile_blocks.positions, List.flatMap_map,
    List.map_flatMap]

/-! ## Walks that are moved about -/

/-- The walk from given bases, at its start. -/
def startAt (it : Iteration) (bases : List Nat) : Iteration :=
  { it with
    operands := it.operands.zipWith (fun op base => { op with base }) bases
    position := it.start }

/-- The strides stay as they are. -/
theorem length_startAt (it : Iteration) {n : Nat} (h : ∀ op ∈ it.operands, op.strides.length = n)
    (bases : List Nat) : ∀ op ∈ (it.startAt bases).operands, op.strides.length = n := by
  intro op hop
  obtain ⟨i, hi, rfl⟩ := List.mem_iff_getElem.1 hop
  simp only [startAt, List.getElem_zipWith]
  exact h _ (List.getElem_mem _)

theorem setRange_eq_ok_iff {it again : Iteration} {start stop : Nat} :
    it.setRange start stop = .ok again ↔
      (start ≤ stop ∧ stop ≤ it.size) ∧ again = { it with start, stop, position := start } := by
  unfold setRange
  split
  · next h =>
    rw [Except.ok.injEq, and_iff_right h]
    exact eq_comm
  · next h => exact iff_of_false (fun heq => by cases heq) fun hagain => h hagain.1

theorem setBases_eq_ok_iff {it again : Iteration} {bases : List Nat} :
    it.setBases bases = .ok again ↔
      bases.length = it.operands.length ∧ again = it.startAt bases := by
  unfold setBases
  split
  · next h =>
    rw [Except.ok.injEq, and_iff_right h]
    exact eq_comm
  · next h => exact iff_of_false (fun heq => by cases heq) fun hagain => h hagain.1

/-- Calls that move a walk. -/
inductive Move where
  | setRange (start stop : Nat)
  | reset
  | setBases (bases : List Nat)
  | next

/-- A walk, with the blocks that it has given out since it last went back to its
start. -/
structure Tour where
  walk : Iteration
  visited : List Block

namespace Tour

/-- Go back to the start. A call that is refused changes nothing. -/
def restart (tour : Tour) : Except EvalError Iteration → Tour
  | .ok walk => ⟨walk, []⟩
  | .error _ => tour

def move (tour : Tour) : Move → Tour
  | .setRange start stop => tour.restart (tour.walk.setRange start stop)
  | .reset => tour.restart (.ok tour.walk.reset)
  | .setBases bases => tour.restart (tour.walk.setBases bases)
  | .next =>
    match tour.walk.next? with
    | some (block, rest) => ⟨rest, tour.visited ++ [block]⟩
    | none => tour

/-- The walk has given out the positions of its range up to where it stands. -/
structure OnTrack (shape : Shape) (blockSize : Nat) (tour : Tour) : Prop where
  shape_eq : tour.walk.shape = shape
  blockSize_eq : tour.walk.blockSize = blockSize
  start_le : tour.walk.start ≤ tour.walk.position
  position_le : tour.walk.position ≤ tour.walk.stop
  stop_le : tour.walk.stop ≤ Shape.size shape
  visited : tour.visited.flatMap Block.positions
    = List.range' tour.walk.start (tour.walk.position - tour.walk.start)

variable {shape : Shape} {blockSize : Nat} {tour : Tour}

/-- A walk that stands at the start of its range. -/
theorem OnTrack.atStart {walk : Iteration} (hshape : walk.shape = shape)
    (hblock : walk.blockSize = blockSize) (hstart : walk.position = walk.start)
    (hle : walk.start ≤ walk.stop) (hstop : walk.stop ≤ Shape.size shape) :
    OnTrack shape blockSize ⟨walk, []⟩ := by
  refine ⟨hshape, hblock, Nat.le_of_eq hstart.symm, by rwa [hstart], hstop, ?_⟩
  rw [hstart, Nat.sub_self]
  rfl

theorem OnTrack.restart (h : OnTrack shape blockSize tour) {call : Except EvalError Iteration}
    (hcall : ∀ walk, call = .ok walk → OnTrack shape blockSize ⟨walk, []⟩) :
    OnTrack shape blockSize (tour.restart call) := by
  cases call with
  | ok walk => exact hcall walk rfl
  | error e => exact h

theorem OnTrack.move (h : OnTrack shape blockSize tour) (m : Move) :
    OnTrack shape blockSize (tour.move m) := by
  have hle := Nat.le_trans h.start_le h.position_le
  cases m with
  | setRange start stop =>
    refine h.restart fun walk hwalk => ?_
    obtain ⟨hrange, rfl⟩ := setRange_eq_ok_iff.1 hwalk
    refine .atStart h.shape_eq h.blockSize_eq rfl hrange.1 ?_
    rw [← h.shape_eq]
    exact hrange.2
  | reset =>
    change OnTrack shape blockSize (tour.restart (.ok tour.walk.reset))
    refine h.restart fun walk hwalk => ?_
    cases hwalk
    exact .atStart h.shape_eq h.blockSize_eq rfl hle h.stop_le
  | setBases bases =>
    refine h.restart fun walk hwalk => ?_
    obtain ⟨-, rfl⟩ := setBases_eq_ok_iff.1 hwalk
    exact .atStart h.shape_eq h.blockSize_eq rfl hle h.stop_le
  | next =>
    unfold Tour.move
    cases hnext : tour.walk.next? with
    | none => exact h
    | some x =>
      obtain ⟨block, rest⟩ := x
      obtain ⟨hmore, rfl, rfl⟩ := next?_eq_some hnext
      have hlow := h.start_le
      refine ⟨h.shape_eq, h.blockSize_eq, by simp only; omega, by simp only; omega, h.stop_le, ?_⟩
      have hmeet := range'_append_range' hlow (Nat.le_add_right tour.walk.position
        (min tour.walk.blockSize (tour.walk.stop - tour.walk.position)))
      rw [Nat.add_sub_cancel_left] at hmeet
      rw [List.flatMap_append, h.visited, List.flatMap_singleton, ← hmeet]
      rfl

theorem OnTrack.moves (h : OnTrack shape blockSize tour) (ms : List Move) :
    OnTrack shape blockSize (ms.foldl Tour.move tour) := by
  induction ms generalizing tour with
  | nil => exact h
  | cons m ms ih => exact ih (h.move m)

/-- What was visited and what is left make up the range. -/
theorem OnTrack.positions (h : OnTrack shape blockSize tour) :
    (tour.visited ++ tour.walk.blocks.map Prod.fst).flatMap Block.positions
      = List.range' tour.walk.start (tour.walk.stop - tour.walk.start) := by
  rw [List.flatMap_append, h.visited, tour.walk.tile_blocks.positions]
  exact range'_append_range' h.start_le h.position_le

end Tour

/-! ## Walks from given bases -/

/-- How far a walk has come, and from which bases, does not matter to one that is
moved to other bases. -/
theorem setBases_startAt {it : Iteration} {bases : List Nat}
    (h : bases.length = it.operands.length) (position : Nat) (bases' : List Nat) :
    setBases { it.startAt bases with position } bases' = it.setBases bases' := by
  have hlength : (it.startAt bases).operands.length = it.operands.length := by
    rw [startAt, List.length_zipWith, h, Nat.min_self]
  have hoperands : (it.startAt bases).operands.zipWith (fun op base => { op with base }) bases'
      = it.operands.zipWith (fun op base => { op with base }) bases' := by
    apply List.ext_getElem
    · rw [List.length_zipWith, List.length_zipWith, hlength]
    · intro i hi hi'
      simp only [startAt, List.getElem_zipWith]
  simp only [setBases, hlength, hoperands]
  rfl

end Iteration

namespace Traversal

/-- The output in its place, and buffers like those before. -/
structure SameRoom (t t' : Traversal) : Prop where
  base : t'.sink.base = t.sink.base
  data : t.sink.data.Alike t'.sink.data
  layout : t'.workspace.registers.layout = t.workspace.registers.layout
  staging : t'.workspace.staging = t.workspace.staging
  scratch : t.workspace.scratch.Alike t'.workspace.scratch

/-- A walk may be put anywhere. -/
theorem SameRoom.moved (t : Traversal) (iteration : Iteration) :
    t.SameRoom { t with iteration } :=
  ⟨rfl, .refl _, rfl, rfl, .refl _⟩

theorem SameRoom.trans {a b c : Traversal} (hab : a.SameRoom b) (hbc : b.SameRoom c) :
    a.SameRoom c :=
  ⟨hbc.base.trans hab.base, hab.data.trans hbc.data, hbc.layout.trans hab.layout,
    hbc.staging.trans hab.staging, hab.scratch.trans hbc.scratch⟩

/-- What a block keeps: the room, and the walk. -/
structure Keeps (t t' : Traversal) : Prop extends SameRoom t t' where
  iteration : t'.iteration = t.iteration

theorem Keeps.refl (t : Traversal) : t.Keeps t := ⟨.moved t t.iteration, rfl⟩

theorem Keeps.trans {a b c : Traversal} (hab : a.Keeps b) (hbc : b.Keeps c) : a.Keeps c :=
  ⟨hab.toSameRoom.trans hbc.toSameRoom, hbc.iteration.trans hab.iteration⟩

end Traversal

namespace Evaluation

variable {ev : Evaluation} {w : Workspace} {sink : Sink} {it : Iteration}

/-! ## Runs of blocks -/

/-- Run blocks one after the other, each in the walk that it comes from. -/
def runEach (ev : Evaluation) (steps : List (Block × Iteration)) : TraversalM Unit :=
  steps.forM fun (block, rest) => do
    modify fun t => { t with iteration := rest }
    ev.runBlock block

/-- Result, buffers and output of a computation. -/
def ending (run : TraversalM Unit) (w : Workspace) (sink : Sink) (it : Iteration) :
    Except EvalError Unit × Workspace × Sink :=
  match run ⟨w, sink, it⟩ with
  | .ok _ t => (.ok (), t.workspace, t.sink)
  | .error e t => (.error e, t.workspace, t.sink)

theorem runPlain_eq_runEach (ev : Evaluation) (t : Traversal) :
    ev.runPlain t = ev.runEach t.iteration.blocks t :=
  congrFun (ev.runBlocks_eq_forM t.iteration) t

theorem runEach_append (ev : Evaluation) (xs ys : List (Block × Iteration)) :
    ev.runEach (xs ++ ys) = ev.runEach xs >>= fun _ => ev.runEach ys :=
  List.forM_append

/-- Each block brings its walk with it. -/
theorem ending_runEach_congr (steps : List (Block × Iteration)) (it' : Iteration) :
    ending (ev.runEach steps) w sink it = ending (ev.runEach steps) w sink it' := by
  cases steps with
  | nil => rfl
  | cons x steps => rfl

theorem ending_eq_ok {run : TraversalM Unit} {t : Traversal} (h : run ⟨w, sink, it⟩ = .ok () t) :
    ending run w sink it = (.ok (), t.workspace, t.sink) := by
  rw [ending, h]

theorem ending_eq_error {run : TraversalM Unit} {e : EvalError} {t : Traversal}
    (h : run ⟨w, sink, it⟩ = .error e t) :
    ending run w sink it = (.error e, t.workspace, t.sink) := by
  rw [ending, h]

theorem ending_bind_of_ok {first : TraversalM Unit} {second : TraversalM Unit} {t : Traversal}
    (h : first ⟨w, sink, it⟩ = .ok () t) :
    ending (first >>= fun _ => second) w sink it
      = ending second t.workspace t.sink t.iteration := by
  rw [ending, TraversalM.bind_apply h]
  rfl

theorem ending_bind_of_error {first : TraversalM Unit} {second : TraversalM Unit} {e : EvalError}
    {t : Traversal} (h : first ⟨w, sink, it⟩ = .error e t) :
    ending (first >>= fun _ => second) w sink it = (.error e, t.workspace, t.sink) := by
  simp only [ending, bind, EStateM.bind, h]

/-- A computation that ends as some blocks do, and another behind it that does so. -/
theorem ending_bind {first second : TraversalM Unit} {xs ys : List (Block × Iteration)}
    (hfirst : ending first w sink it = ending (ev.runEach xs) w sink it)
    (hsecond : ∀ t, first ⟨w, sink, it⟩ = .ok () t →
      ending second t.workspace t.sink t.iteration
        = ending (ev.runEach ys) t.workspace t.sink t.iteration) :
    ending (first >>= fun _ => second) w sink it = ending (ev.runEach (xs ++ ys)) w sink it := by
  rw [runEach_append]
  cases h : first ⟨w, sink, it⟩ with
  | ok a t =>
    rw [ending_eq_ok h] at hfirst
    cases hxs : ev.runEach xs ⟨w, sink, it⟩ with
    | ok b t' =>
      rw [ending_eq_ok hxs] at hfirst
      obtain ⟨hworkspace, hsink⟩ := Prod.mk.inj (Prod.mk.inj hfirst).2
      rw [ending_bind_of_ok h, ending_bind_of_ok hxs, hsecond t h, ← hworkspace, ← hsink]
      exact ending_runEach_congr ys _
    | error e t' =>
      rw [ending_eq_error hxs] at hfirst
      cases (Prod.mk.inj hfirst).1
  | error e t =>
    rw [ending_eq_error h] at hfirst
    cases hxs : ev.runEach xs ⟨w, sink, it⟩ with
    | ok b t' =>
      rw [ending_eq_ok hxs] at hfirst
      cases (Prod.mk.inj hfirst).1
    | error e' t' =>
      rw [ending_eq_error hxs] at hfirst
      rw [ending_bind_of_error h, ending_bind_of_error hxs, hfirst]

/-- A computation runs blocks up to the first failure, unless it breaks off between two
of them. It does that only for a reason. -/
def RunsEach (ev : Evaluation) (reason : Prop) (run : TraversalM Unit) (w : Workspace)
    (sink : Sink) (it : Iteration) (steps : List (Block × Iteration)) : Prop :=
  ending run w sink it = ending (ev.runEach steps) w sink it ∨
    reason ∧ ∃ before after w' sink', steps = before ++ after ∧
      ending (ev.runEach before) w sink it = (.ok (), w', sink') ∧
      ending run w sink it = (.error (.crash .overflow), w', sink')

/-- A computation that runs blocks, and another behind it that does so. -/
theorem RunsEach.bind {reason : Prop} {first second : TraversalM Unit}
    {xs ys : List (Block × Iteration)}
    (hfirst : ending first w sink it = ending (ev.runEach xs) w sink it)
    (hsecond : ∀ t, first ⟨w, sink, it⟩ = .ok () t →
      ev.RunsEach reason second t.workspace t.sink t.iteration ys) :
    ev.RunsEach reason (first >>= fun _ => second) w sink it (xs ++ ys) := by
  cases h : first ⟨w, sink, it⟩ with
  | error e t =>
    refine .inl (ending_bind hfirst fun t' ht' => ?_)
    cases h.symm.trans ht'
  | ok _ t =>
    rcases hsecond t h with heq | ⟨hreason, before, after, w', sink', rfl, hbefore, hbroken⟩
    · refine .inl (ending_bind hfirst fun t' ht' => ?_)
      cases h.symm.trans ht'
      exact heq
    · refine .inr ⟨hreason, xs ++ before, after, w', sink', (List.append_assoc ..).symm, ?_, ?_⟩
      · -- the blocks so far, then those of the second computation
        have hboth : ending (first >>= fun _ => ev.runEach before) w sink it
            = ending (ev.runEach (xs ++ before)) w sink it := ending_bind hfirst fun _ _ => rfl
        rw [← hboth, ending_bind_of_ok h]
        exact hbefore
      · rw [ending_bind_of_ok h]
        exact hbroken

/-- A loop whose passes run the blocks of each pass, or break off before the first one. -/
theorem runsEach_forEach {reason : Prop} {body : Nat → TraversalM Unit}
    {steps : Nat → List (Block × Iteration)} (Ready : Iteration → Prop) {first count : Nat}
    (hbody : ∀ i w sink it, first ≤ i → i < first + count → Ready it →
      (ending (body i) w sink it = ending (ev.runEach (steps i)) w sink it ∧
        ∀ t, body i ⟨w, sink, it⟩ = .ok () t → Ready t.iteration) ∨
      (reason ∧ body i ⟨w, sink, it⟩ = .error (.crash .overflow) ⟨w, sink, it⟩))
    (hready : Ready it) : ev.RunsEach reason (forEach body first count) w sink it
      ((List.range' first count).flatMap steps) := by
  induction count generalizing first w sink it with
  | zero => exact .inl rfl
  | succ count ih =>
    rw [List.range'_succ, List.flatMap_cons, forEach]
    rcases hbody first w sink it (Nat.le_refl _) (by omega) hready with
      ⟨hfirst, hrest⟩ | ⟨hreason, hbroken⟩
    · refine .bind hfirst fun t ht => ih (fun i w sink it hlow hhigh => ?_) (hrest t ht)
      exact hbody i w sink it (by omega) (by omega)
    · refine .inr ⟨hreason, [], _, w, sink, rfl, rfl, ?_⟩
      rw [ending_bind_of_error hbroken]

/-! ## What a block leaves as it is -/

theorem keeps_of_runDirect {n start len : Nat} {staged : List Staged} {t t' : Traversal}
    (h : ev.runDirect n staged start len t = .ok () t') : t.Keeps t' := by
  unfold runDirect at h
  rw [TraversalM.get_bind] at h
  obtain ⟨views, -, h⟩ := TraversalM.exists_of_liftExcept_bind_eq_ok h
  obtain ⟨stop, -, h⟩ := TraversalM.exists_of_liftExcept_bind_eq_ok h
  obtain ⟨_, _, hset, h⟩ := TraversalM.exists_of_bind_eq_ok h
  cases hset
  obtain ⟨-, rfl⟩ := TraversalM.of_liftExcept_eq_ok h
  exact ⟨⟨rfl, Column.alike_scatter _ _ _, ev.prepared.layout_run _ _ _, rfl, .refl _⟩, rfl⟩

/-- A check that a computation ends with. -/
theorem of_unless_eq_ok {done : Bool} {e : EvalError} {t t' : Traversal}
    (h : (unless done do throw e : TraversalM Unit) t = .ok () t') : done = true ∧ t' = t := by
  cases done with
  | true =>
    cases h
    exact ⟨rfl, rfl⟩
  | false => cases h

theorem keeps_of_loadScratch {offsets : List Nat} {t t' : Traversal}
    (h : loadScratch offsets t = .ok () t') : t.Keeps t' := by
  obtain ⟨_, _, hget, h⟩ := TraversalM.exists_of_bind_eq_ok h
  cases hget
  obtain ⟨_, _, hset, h⟩ := TraversalM.exists_of_bind_eq_ok h
  cases hset
  obtain ⟨-, rfl⟩ := of_unless_eq_ok h
  exact ⟨⟨rfl, .refl _, rfl, rfl, Column.alike_gather _ _ _⟩, rfl⟩

theorem of_storeScratch_eq_ok {n : Nat} {offsets : List Nat} {t t' : Traversal}
    (h : storeScratch n offsets t = .ok () t') :
    (t.sink.data.scatter (t.workspace.scratch.head n) offsets).2 = true ∧ t.Keeps t' := by
  obtain ⟨_, _, hget, h⟩ := TraversalM.exists_of_bind_eq_ok h
  cases hget
  obtain ⟨_, _, hset, h⟩ := TraversalM.exists_of_bind_eq_ok h
  cases hset
  obtain ⟨hdone, rfl⟩ := of_unless_eq_ok h
  exact ⟨hdone, ⟨rfl, Column.alike_scatter _ _ _, rfl, rfl, .refl _⟩, rfl⟩

/-- A block on the scratch column ends with putting its results in place. -/
theorem exists_storeScratch {n : Nat} {staged : List Staged} {offsets : List Nat}
    {t t' : Traversal} (h : ev.runScratch n staged offsets t = .ok () t') :
    ∃ t₁, t.Keeps t₁ ∧ storeScratch n offsets t₁ = .ok () t' := by
  obtain ⟨t₀, hloaded, h⟩ : ∃ t₀, t.Keeps t₀ ∧ ev.runLoaded n staged offsets t₀ = .ok () t' := by
    unfold runScratch at h
    split at h
    · obtain ⟨_, t₀, hload, h⟩ := TraversalM.exists_of_bind_eq_ok h
      exact ⟨t₀, keeps_of_loadScratch hload, h⟩
    · exact ⟨t, .refl t, h⟩
  unfold runLoaded at h
  rw [TraversalM.get_bind] at h
  obtain ⟨views, -, h⟩ := TraversalM.exists_of_liftExcept_bind_eq_ok h
  obtain ⟨_, _, hset, h⟩ := TraversalM.exists_of_bind_eq_ok h
  cases hset
  obtain ⟨_, -, h⟩ := TraversalM.exists_of_liftExcept_bind_eq_ok h
  refine ⟨_, hloaded.trans ?_, h⟩
  exact ⟨⟨rfl, .refl _, ev.prepared.layout_run _ _ _, rfl, Column.alike_scatter _ _ _⟩, rfl⟩

theorem keeps_of_runBlock {block : Block} {t t' : Traversal}
    (h : ev.runBlock block t = .ok () t') : t.Keeps t' := by
  unfold runBlock at h
  rw [TraversalM.get_bind] at h
  obtain ⟨staged, -, h⟩ := TraversalM.exists_of_liftExcept_bind_eq_ok h
  obtain ⟨output, -, h⟩ := TraversalM.exists_of_liftExcept_bind_eq_ok h
  obtain ⟨placement, -, h⟩ := TraversalM.exists_of_liftExcept_bind_eq_ok h
  cases placement with
  | direct start len => exact keeps_of_runDirect h
  | scratch offsets =>
    obtain ⟨t₁, hkeeps, hstore⟩ := exists_storeScratch h
    exact hkeeps.trans (of_storeScratch_eq_ok hstore).2

/-- Blocks that went well leave everything in its place. -/
theorem sameRoom_of_runBlocks {t t' : Traversal} (h : ev.runBlocks it t = .ok () t') :
    t.SameRoom t' := by
  fun_induction Iteration.blocks it generalizing t with
  | case1 it hnone =>
    rw [runBlocks_done hnone] at h
    cases h
    exact .moved _ _
  | case2 it block rest hsome ih =>
    rw [runBlocks_next hsome] at h
    obtain ⟨_, t₁, hblock, h⟩ := TraversalM.exists_of_bind_eq_ok h
    have hroom := (Traversal.SameRoom.moved _ rest).trans (keeps_of_runBlock hblock).toSameRoom
    exact hroom.trans (ih h)

/-- Only the position of a walk changes as its blocks run. -/
theorem iteration_of_runBlocks {t t' : Traversal} {position : Nat}
    (h : ev.runBlocks it t = .ok () t') (ht : t.iteration = { it with position }) :
    ∃ position, t'.iteration = { it with position } := by
  fun_induction Iteration.blocks it generalizing t position with
  | case1 it hnone =>
    rw [runBlocks_done hnone] at h
    cases h
    exact ⟨position, ht⟩
  | case2 it block rest hsome ih =>
    obtain ⟨-, -, hrest⟩ := Iteration.next?_eq_some hsome
    rw [runBlocks_next hsome] at h
    obtain ⟨_, t₁, hblock, h⟩ := TraversalM.exists_of_bind_eq_ok h
    obtain ⟨last, hlast⟩ := ih h ((keeps_of_runBlock hblock).iteration.trans rfl)
    rw [hlast, hrest]
    exact ⟨last, rfl⟩

/-! ## Loops of walks -/

/-- Numbers that can be counted one by one, or one of them does not fit 64 bits. -/
theorem mapM_cases {α : Type} {f? : α → Option Nat} {f : α → Nat} (as : List α)
    (h : ∀ a, f? a = some (f a) ∨ (f? a = none ∧ UInt64.size ≤ f a)) :
    as.mapM f? = some (as.map f) ∨
      (as.mapM f? = none ∧ ∃ o ∈ as.map f, UInt64.size ≤ o) := by
  induction as with
  | nil => exact .inl rfl
  | cons a as ih =>
    rw [List.mapM_cons, List.map_cons]
    rcases h a with ha | ⟨ha, hlarge⟩
    · rcases ih with has | ⟨has, o, ho, hlarge⟩
      · exact .inl (by rw [ha, has]; rfl)
      · exact .inr ⟨by rw [ha, has]; rfl, o, .tail _ ho, hlarge⟩
    · exact .inr ⟨by rw [ha]; rfl, f a, .head _, hlarge⟩

theorem checkedProduct_cases (a b : Nat) : checkedProduct a b = some (a * b) ∨
    (checkedProduct a b = none ∧ UInt64.size ≤ a * b) := by
  unfold checkedProduct
  split
  · exact .inl rfl
  · exact .inr ⟨rfl, by omega⟩

theorem offset?_cases (shape : Shape) (p : Nat) (op : Strided) :
    op.offset? shape p = some (op.offset shape p) ∨
      (op.offset? shape p = none ∧ UInt64.size ≤ op.offset shape p) := by
  cases h : op.offset? shape p with
  | some n => exact .inl (congrArg some (Strided.of_offset? h).symm)
  | none =>
    refine .inr ⟨rfl, Nat.le_of_not_lt fun hlt => ?_⟩
    cases h.symm.trans (Strided.offset?_eq_some hlt)

/-- The computation runs blocks one after the other, up to the first failure. They
have the operands at the offsets of the list, element by element. It breaks off between
two blocks only if there are no elements, or an offset does not fit 64 bits. -/
def GoesThrough (ev : Evaluation) (run : TraversalM Unit) (it : Iteration)
    (offsets : List (List Nat)) : Prop :=
  ∃ steps : List (Block × Iteration), steps.flatMap Iteration.blockOffsets = offsets ∧
    ∀ w sink, ev.RunsEach (offsets = [] ∨ ∃ os ∈ offsets, ∃ o ∈ os, UInt64.size ≤ o) run w sink it
      steps

/-- A walk from given bases runs its blocks, and can be moved as before. -/
theorem ending_runFrom {bases : List Nat} (h : bases.length = it.operands.length)
    {it₁ : Iteration} (hit : ∀ bases, it₁.setBases bases = it.setBases bases) :
    ending (ev.runFrom bases) w sink it₁
        = ending (ev.runEach (it.startAt bases).blocks) w sink it₁ ∧
      ∀ t, ev.runFrom bases ⟨w, sink, it₁⟩ = .ok () t →
        ∀ bases, t.iteration.setBases bases = it.setBases bases := by
  have hmoved : it₁.setBases bases = .ok (it.startAt bases) :=
    (hit bases).trans (Iteration.setBases_eq_ok_iff.2 ⟨h, rfl⟩)
  have hrun : ev.runFrom bases ⟨w, sink, it₁⟩ = ev.runPlain ⟨w, sink, it.startAt bases⟩ :=
    TraversalM.bind_apply (TraversalM.liftExcept_eq_ok hmoved _) _
  constructor
  · rw [ending_runEach_congr _ (it.startAt bases), ending, ending, hrun, runPlain_eq_runEach]
  · intro t ht
    rw [hrun, runPlain_apply] at ht
    obtain ⟨position, hposition⟩ := iteration_of_runBlocks ht rfl
    rw [hposition]
    exact Iteration.setBases_startAt h position

/-- No operand comes back from its base. -/
theorem exists_offset_startAt {bases : List Nat} (hlength : bases.length = it.operands.length)
    {n : Nat} (h : ∃ o ∈ bases, n ≤ o) (p : Nat) :
    ∃ o ∈ (it.startAt bases).operands.map (·.offset it.shape p), n ≤ o := by
  obtain ⟨o, ho, hle⟩ := h
  obtain ⟨m, hm, rfl⟩ := List.mem_iff_getElem.1 ho
  have hm' : m < it.operands.length := by omega
  refine ⟨_, List.mem_map_of_mem (List.mem_iff_getElem.2 ⟨m, ?_, ?_⟩), Nat.le_trans hle
    (Strided.base_le_offset ⟨bases[m], it.operands[m].strides⟩ it.shape p)⟩
  · simpa [Iteration.startAt, hlength] using hm'
  · simp [Iteration.startAt]

/-- A loop of walks goes through the positions of each. Where the bases of a walk cannot
be counted one of them does not fit 64 bits. -/
theorem goesThrough_forEach (bases? : Nat → Option (List Nat)) (bases : Nat → List Nat)
    {count : Nat} (hbases : ∀ i < count, (bases i).length = it.operands.length ∧
      (bases? i = some (bases i) ∨ (bases? i = none ∧ ∃ o ∈ bases i, UInt64.size ≤ o)))
    {offsets : Nat → Nat → List Nat} (hoffsets : ∀ i < count, ∀ p < it.stop,
      (it.startAt (bases i)).operands.map (·.offset it.shape p) = offsets i p) :
    ev.GoesThrough (forEach (fun i => liftExcept (counted (bases? i)) >>= ev.runFrom) 0 count) it
      ((List.range count).flatMap fun i =>
        (List.range' it.start (it.stop - it.start)).map (offsets i)) := by
  refine ⟨(List.range' 0 count).flatMap fun i => (it.startAt (bases i)).blocks, ?_,
    fun w sink => ?_⟩
  · rw [List.flatMap_assoc, List.range_eq_range']
    refine List.flatMap_congr fun i hi => ?_
    rw [Iteration.flatMap_blockOffsets]
    refine List.map_congr_left fun p hp => hoffsets i (List.mem_range.1 ?_) p ?_
    · rwa [List.range_eq_range']
    · have := List.mem_range'_1.1 hp
      simp only [Iteration.startAt, Iteration.remaining] at this
      omega
  · refine runsEach_forEach (fun it₁ => ∀ bases, it₁.setBases bases = it.setBases bases)
      (fun i w sink it₁ _ hi hit => ?_) fun _ => rfl
    rw [Nat.zero_add] at hi
    obtain ⟨hlength, hsome | ⟨hnone, hlarge⟩⟩ := hbases i hi
    · refine .inl ?_
      have hrun : (liftExcept (counted (bases? i)) >>= ev.runFrom) ⟨w, sink, it₁⟩
          = ev.runFrom (bases i) ⟨w, sink, it₁⟩ :=
        TraversalM.bind_apply (TraversalM.liftExcept_eq_ok (counted_eq_ok_iff.2 hsome) _) _
      rw [ending, hrun]
      exact ending_runFrom hlength hit
    · refine .inr ⟨?_, ?_⟩
      · by_cases hsome : it.start < it.stop
        · have hfar := exists_offset_startAt hlength hlarge it.start
          rw [hoffsets i hi _ hsome] at hfar
          refine .inr ⟨offsets i it.start, ?_, hfar⟩
          refine List.mem_flatMap.2 ⟨i, List.mem_range.2 hi, List.mem_map_of_mem ?_⟩
          exact List.mem_range'_1.2 ⟨Nat.le_refl _, by omega⟩
        · refine .inl (List.flatMap_eq_nil_iff.2 fun _ _ => ?_)
          rw [Nat.sub_eq_zero_of_le (Nat.le_of_not_lt hsome)]
          rfl
      · rw [hnone, counted_none]
        rfl

end Evaluation

/-! ## Groups and the axis -/

/-- The pairs of a group and a position of the axis, each of them once. The positions
of the axis come in increasing order for each group. -/
structure MeetsEachOnce (groups axisLength : Nat) (pairs : List (Nat × Nat)) : Prop where
  mem_iff : ∀ group m, (group, m) ∈ pairs ↔ group < groups ∧ m < axisLength
  nodup : pairs.Nodup
  increasing : pairs.Pairwise fun a b => a.1 = b.1 → a.2 < b.2

/-- All positions of the axis for one group after the other. -/
def groupByGroup (groups axisLength : Nat) : List (Nat × Nat) :=
  (List.range groups).flatMap fun group => (List.range axisLength).map fun m => (group, m)

/-- All groups for one position of the axis after the other. -/
def placeByPlace (groups axisLength : Nat) : List (Nat × Nat) :=
  (List.range axisLength).flatMap fun m => (List.range groups).map fun group => (group, m)

theorem MeetsEachOnce.of_increasing {groups axisLength : Nat} {pairs : List (Nat × Nat)}
    (hmem : ∀ group m, (group, m) ∈ pairs ↔ group < groups ∧ m < axisLength)
    (hpairs : pairs.Pairwise fun a b => a.1 = b.1 → a.2 < b.2) :
    MeetsEachOnce groups axisLength pairs := by
  refine ⟨hmem, hpairs.imp fun hlt heq => ?_, hpairs⟩
  subst heq
  exact Nat.lt_irrefl _ (hlt rfl)

theorem meetsEachOnce_groupByGroup (groups axisLength : Nat) :
    MeetsEachOnce groups axisLength (groupByGroup groups axisLength) := by
  refine .of_increasing (fun group m => ?_) (List.pairwise_flatMap.2 ⟨fun group _ => ?_, ?_⟩)
  · simp [groupByGroup]
  · refine List.pairwise_map.2 (List.pairwise_lt_range.imp fun hlt _ => ?_)
    exact hlt
  · refine List.pairwise_lt_range.imp fun hlt a ha b hb heq => ?_
    obtain ⟨_, -, rfl⟩ := List.mem_map.1 ha
    obtain ⟨_, -, rfl⟩ := List.mem_map.1 hb
    exact absurd heq (Nat.ne_of_lt hlt)

theorem meetsEachOnce_placeByPlace (groups axisLength : Nat) :
    MeetsEachOnce groups axisLength (placeByPlace groups axisLength) := by
  refine .of_increasing (fun group m => ?_) (List.pairwise_flatMap.2 ⟨fun m _ => ?_, ?_⟩)
  · simp [placeByPlace, and_comm]
  · refine List.pairwise_map.2 (List.pairwise_lt_range.imp fun hlt heq => ?_)
    exact absurd heq (Nat.ne_of_lt hlt)
  · refine List.pairwise_lt_range.imp fun hlt a ha b hb _ => ?_
    obtain ⟨_, -, rfl⟩ := List.mem_map.1 ha
    obtain ⟨_, -, rfl⟩ := List.mem_map.1 hb
    exact hlt

/-- Where the operands of a reduction are for a group and a position of the axis: the
output at the group, the inputs where strides over the whole shape lead. -/
def pairOffsets (shape : Shape) (axis : Nat) (strides : List (List Nat)) (pair : Nat × Nat) :
    List Nat :=
  pair.1 :: strides.map fun s =>
    Shape.dot ((Shape.index (shape.eraseIdx axis) pair.1).insertIdx axis pair.2) s

namespace Evaluation

section Loops

variable {g : Geometry} {axis blockSize : Nat} {strides : List (List Nat)}
  {outer inner : Iteration} (haxis : axis < g.shape.length)
  (hout : g.outputShape = g.shape.eraseIdx axis)
  (hstrides : ∀ s ∈ strides, s.length = g.shape.length)
  (houter : Iteration.ofStrides (AxisSplit.ofAxis g axis strides).groups
    (AxisSplit.ofAxis g axis strides).groupStrides blockSize = .ok outer)
include haxis hout hstrides houter

/-- Where the walk of a group has its operands. -/
theorem offsets_inner (hinner : Iteration.ofStrides [(AxisSplit.ofAxis g axis strides).axisLength]
      ((AxisSplit.ofAxis g axis strides).axisStrides.map ([·])) blockSize = .ok inner)
    {group m : Nat} (hgroup : group < Shape.size (g.shape.eraseIdx axis))
    (hm : m < g.shape[axis]) :
    (inner.startAt (outer.operands.map fun op => op.offset outer.shape group)).operands.map
      (·.offset inner.shape m) = pairOffsets g.shape axis strides (group, m) := by
  rw [AxisSplit.ofAxis_eq haxis hout] at houter hinner
  obtain ⟨-, hgroups, rfl, -⟩ := Iteration.of_ofStrides houter
  obtain ⟨-, hextent, rfl, -⟩ := Iteration.of_ofStrides hinner
  rw [Shape.size_singleton] at hextent
  have hbase : Strided.offset ⟨0, (Shape.contiguousStrides (g.shape.eraseIdx axis))⟩
      (g.shape.eraseIdx axis) group = group :=
    (Strided.offset_contiguous 0 hgroups hgroup).trans (Nat.zero_add group)
  have hstill : Strided.offset ⟨group, [0]⟩ [g.shape[axis]] m = group :=
    Strided.offset_of_flatStep? (Strided.flatStep?_zero (by simp) _) m
  simp only [Iteration.startAt, List.map_cons, List.map_map, List.zipWith_cons_cons,
    List.zipWith_map, List.zipWith_self]
  refine List.cons_eq_cons.2 ⟨?_, List.map_congr_left fun s hs => ?_⟩
  · rw [hbase]
    exact hstill
  · exact Strided.offset_alongAxis_eq_dot (hstrides s hs) haxis hgroup hgroups hm hextent

/-- Where the walk of a position of the axis has its operands. -/
theorem offsets_outer (m : Nat) {group : Nat}
    (hgroup : group < Shape.size (g.shape.eraseIdx axis)) :
    (outer.startAt ((AxisSplit.ofAxis g axis strides).axisStrides.map (m * ·))).operands.map
      (·.offset outer.shape group) = pairOffsets g.shape axis strides (group, m) := by
  rw [AxisSplit.ofAxis_eq haxis hout] at houter ⊢
  obtain ⟨-, hgroups, rfl, -⟩ := Iteration.of_ofStrides houter
  simp only [Iteration.startAt, List.map_cons, List.map_map, List.zipWith_cons_cons,
    List.zipWith_map, List.zipWith_self]
  refine List.cons_eq_cons.2 ⟨?_, List.map_congr_left fun s hs => ?_⟩
  · exact (Strided.offset_contiguous _ hgroups hgroup).trans (Nat.zero_add group)
  · exact Strided.offset_overGroups_eq_dot (hstrides s hs) haxis hgroup hgroups

/-- The loop over the groups. -/
theorem goesThrough_runReduceInner (ev : Evaluation)
    (hinner : Iteration.ofStrides [(AxisSplit.ofAxis g axis strides).axisLength]
      ((AxisSplit.ofAxis g axis strides).axisStrides.map ([·])) blockSize = .ok inner) :
    ev.GoesThrough (ev.runReduceInner outer) inner
      ((groupByGroup (Shape.size (g.shape.eraseIdx axis)) g.shape[axis]).map
        (pairOffsets g.shape axis strides)) := by
  have hoffsets {group m : Nat} (hgroup : group < Shape.size (g.shape.eraseIdx axis))
      (hm : m < g.shape[axis]) := offsets_inner haxis hout hstrides houter hinner hgroup hm
  rw [AxisSplit.ofAxis_eq haxis hout] at houter hinner
  obtain ⟨_, _, rfl, -⟩ := Iteration.of_ofStrides houter
  obtain ⟨_, _, rfl, -⟩ := Iteration.of_ofStrides hinner
  have hsize := Shape.size_singleton g.shape[axis]
  have hrow (group : Nat) : ((List.range g.shape[axis]).map fun m => (group, m)).map
        (pairOffsets g.shape axis strides)
      = (List.range' 0 (Shape.size [g.shape[axis]] - 0)).map fun m =>
        pairOffsets g.shape axis strides (group, m) := by
    rw [hsize, Nat.sub_zero, ← List.range_eq_range', List.map_map]
    rfl
  rw [groupByGroup, List.map_flatMap]
  simp only [hrow]
  let groups : Shape := g.shape.eraseIdx axis
  let operands : List Strided :=
    (groups.contiguousStrides :: strides.map (·.eraseIdx axis)).map (⟨0, ·⟩)
  let bases? (group : Nat) := operands.mapM fun op => op.offset? groups group
  change ev.GoesThrough (forEach (fun group => liftExcept (counted (bases? group)) >>= ev.runFrom)
    0 (Shape.size groups)) _ _
  refine goesThrough_forEach bases? (fun group => operands.map fun op => op.offset groups group)
    (fun group _ => ⟨by simp [operands], ?_⟩) fun group hgroup m hm => ?_
  · exact mapM_cases operands (offset?_cases groups group)
  · exact hoffsets hgroup (by rwa [← hsize])

/-- The loop over the positions of the axis. -/
theorem goesThrough_runReduceOuter (ev : Evaluation) :
    ev.GoesThrough (ev.runReduceOuter (AxisSplit.ofAxis g axis strides).axisLength
        (AxisSplit.ofAxis g axis strides).axisStrides) outer
      ((placeByPlace (Shape.size (g.shape.eraseIdx axis)) g.shape[axis]).map
        (pairOffsets g.shape axis strides)) := by
  have hoffsets (m : Nat) {group : Nat} (hgroup : group < Shape.size (g.shape.eraseIdx axis)) :=
    offsets_outer haxis hout hstrides houter m hgroup
  rw [AxisSplit.ofAxis_eq haxis hout] at houter hoffsets ⊢
  obtain ⟨_, _, rfl, -⟩ := Iteration.of_ofStrides houter
  rw [placeByPlace, List.map_flatMap]
  simp only [List.map_map]
  rw [List.range_eq_range' (n := Shape.size (g.shape.eraseIdx axis))]
  let axisStrides : List Nat := 0 :: strides.map (·.getD axis 0)
  let bases? (m : Nat) := axisStrides.mapM fun stride => checkedProduct m stride
  change ev.GoesThrough (forEach (fun m => liftExcept (counted (bases? m)) >>= ev.runFrom)
    0 g.shape[axis]) _ _
  refine goesThrough_forEach bases? (fun m => axisStrides.map fun stride => m * stride)
    (fun m _ => ⟨by simp [axisStrides], ?_⟩) fun m hm group hgroup => ?_
  · exact mapM_cases axisStrides fun stride => checkedProduct_cases m stride
  · exact hoffsets m hgroup

end Loops

/-- Whatever calls a walk has seen, it runs blocks that tile what is left of its range,
and the whole of it after any call that goes back to the start. Both loops of a
reduction run blocks that meet each group once with each position of the axis, and the
positions of the axis in increasing order, with the operands where the indices lead. -/
theorem visits_eachOnce (blockSize : Nat) :
    (∀ (shape : Shape) (strides : List (List Nat)) (it : Iteration) (moves : List Iteration.Move),
      Iteration.ofStrides shape strides blockSize = .ok it →
        let tour := moves.foldl Iteration.Tour.move ⟨it, []⟩
        let walk := tour.walk
        let Tile (start stop : Nat) (walk : Iteration) : Prop :=
          Block.Tile blockSize start stop (walk.blocks.map Prod.fst)
        walk.stop ≤ Shape.size shape ∧
          (∀ (ev : Evaluation) w sink,
            ev.runPlain ⟨w, sink, walk⟩ = ev.runEach walk.blocks ⟨w, sink, walk⟩) ∧
          Tile walk.position walk.stop walk ∧
          (tour.visited ++ walk.blocks.map Prod.fst).flatMap Block.positions
            = List.range' walk.start (walk.stop - walk.start) ∧
          Tile walk.start walk.stop walk.reset ∧
          (∀ bases again, walk.setBases bases = .ok again → Tile walk.start walk.stop again) ∧
          ∀ start stop again, walk.setRange start stop = .ok again → Tile start stop again) ∧
      ∀ (g : Geometry) (axis : Nat) (haxis : axis < g.shape.length) (strides : List (List Nat))
        (outer inner : Iteration), g.outputShape = g.shape.eraseIdx axis →
        (∀ s ∈ strides, s.length = g.shape.length) →
        let split := AxisSplit.ofAxis g axis strides
        Iteration.ofStrides split.groups split.groupStrides blockSize = .ok outer →
        Iteration.ofStrides [split.axisLength] (split.axisStrides.map ([·])) blockSize = .ok inner →
        let groups := Shape.size (g.shape.eraseIdx axis)
        ∃ byGroup byPlace, MeetsEachOnce groups g.shape[axis] byGroup ∧
          MeetsEachOnce groups g.shape[axis] byPlace ∧
          ∀ ev : Evaluation,
            ev.GoesThrough (ev.runReduceInner outer) inner
              (byGroup.map (pairOffsets g.shape axis strides)) ∧
            ev.GoesThrough (ev.runReduceOuter split.axisLength split.axisStrides) outer
              (byPlace.map (pairOffsets g.shape axis strides)) := by
  constructor
  · intro shape strides it moves hit tour walk Tile
    have hstart : Iteration.Tour.OnTrack shape blockSize ⟨it, []⟩ := by
      obtain ⟨_, _, rfl, -⟩ := Iteration.of_ofStrides hit
      exact .atStart rfl rfl rfl (Nat.zero_le _) (Nat.le_refl _)
    have htour : tour.OnTrack shape blockSize := hstart.moves moves
    have htile : ∀ it : Iteration, it.blockSize = blockSize → Tile it.position it.stop it := by
      rintro it rfl
      exact it.tile_blocks
    refine ⟨htour.stop_le, fun ev w sink => runPlain_eq_runEach ev ⟨w, sink, walk⟩,
      htile walk htour.blockSize_eq, htour.positions, htile walk.reset htour.blockSize_eq,
      fun bases again hagain => ?_, fun start stop again hagain => ?_⟩
    · obtain ⟨-, rfl⟩ := Iteration.setBases_eq_ok_iff.1 hagain
      exact htile (walk.startAt bases) htour.blockSize_eq
    · obtain ⟨-, rfl⟩ := Iteration.setRange_eq_ok_iff.1 hagain
      exact htile { walk with start, stop, position := start } htour.blockSize_eq
  · intro g axis haxis strides outer inner hout hstrides split houter hinner groups
    exact ⟨_, _, meetsEachOnce_groupByGroup groups g.shape[axis],
      meetsEachOnce_placeByPlace groups g.shape[axis], fun ev =>
        ⟨goesThrough_runReduceInner haxis hout hstrides houter ev hinner,
          goesThrough_runReduceOuter haxis hout hstrides houter ev⟩⟩

/-- A walk over a table that was moved to the last five positions and has run one block
there, and the table folded over its rows. -/
theorem visits_eachOnce_table :
    (∃ it, Iteration.ofStrides [2, 3] [[3, 1]] 2 = .ok it ∧
      let moves : List Iteration.Move := [.next, .setRange 1 6, .setBases [2], .next]
      let walk := (moves.foldl Iteration.Tour.move ⟨it, []⟩).walk
      Block.Tile 2 3 6 (walk.blocks.map Prod.fst)) ∧
    ∃ outer inner, Iteration.ofStrides [3] [[1], [1]] 2 = .ok outer ∧
      Iteration.ofStrides [2] [[0], [3]] 2 = .ok inner ∧
      ∃ pairs, MeetsEachOnce 3 2 pairs ∧ ∀ ev : Evaluation,
        ev.GoesThrough (ev.runReduceInner outer) inner
          (pairs.map (pairOffsets [2, 3] 0 [[3, 1]])) := by
  obtain ⟨hplain, hreduce⟩ := visits_eachOnce 2
  constructor
  · obtain ⟨-, -, htile, -⟩ := hplain [2, 3] [[3, 1]] _
      [.next, .setRange 1 6, .setBases [2], .next] rfl
    exact ⟨_, rfl, htile⟩
  · obtain ⟨pairs, _, hpairs, -, hloops⟩ := hreduce ⟨[2, 3], some (.axis 0), [3]⟩ 0 (by decide)
      [[3, 1]] _ _ rfl (by decide) rfl rfl
    exact ⟨_, _, rfl, rfl, pairs, hpairs, fun ev => (hloops ev).1⟩

end Evaluation

end Lanewise
