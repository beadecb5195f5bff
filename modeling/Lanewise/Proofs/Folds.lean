import Lanewise.Proofs.Pointwise

/-!
# Walks of programs that end in a fold

A program that folds into the output and does nothing else with it
(`Kernel.EndsInFold`) has one value for each position before its last
instruction. Every block combines the values of its positions, from left to
right, with what the output holds, and stores the result there. So an element of
the output absorbs its values in one run after the other (`Lane.Absorbs`). Where
the storage keeps what is stored in between, that is one fold over all of them,
whatever the runs are (`Lane.Absorbs.stored`).
-/

namespace Lanewise

open Shape (size)

/-- A program that ends with a fold into the output. No instruction reads the
output and no other one writes it. -/
structure Kernel.EndsInFold (k : Kernel) (before : List Instruction) (last : Instruction)
    (r : Reducer) (t : ElementType) : Prop where
  instructions : k.instructions = before ++ [last]
  operation : last.operation = .reduce r t
  dest : last.dest = 0
  unread : ∀ inst ∈ k.instructions, 0 ∉ inst.sources
  unwritten : ∀ inst ∈ before, inst.dest ≠ 0
  writesFirst : k.WritesBeforeReads

instance (k : Kernel) (before : List Instruction) (last : Instruction) (r : Reducer)
    (t : ElementType) : Decidable (k.EndsInFold before last r t) :=
  decidable_of_iff (k.instructions = before ++ [last] ∧ last.operation = .reduce r t ∧
      last.dest = 0 ∧ (∀ inst ∈ k.instructions, 0 ∉ inst.sources) ∧
      (∀ inst ∈ before, inst.dest ≠ 0) ∧ k.WritesBeforeReads)
    ⟨fun ⟨hinstructions, hoperation, hdest, hunread, hunwritten, hwrites⟩ =>
      ⟨hinstructions, hoperation, hdest, hunread, hunwritten, hwrites⟩,
      fun h => ⟨h.instructions, h.operation, h.dest, h.unread, h.unwritten, h.writesFirst⟩⟩

/-- The value that the last instruction folds, made by the instructions before it
from single elements. -/
def Kernel.foldedValue? (k : Kernel) (before : List Instruction) (last : Instruction)
    (t : ElementType) (widths : List Nat) (inputs : List Lane) (output : Storage) :
    Option t.Value := do
  let lanes ← (k.lanes widths inputs (.unset output)).run? before
  let reg ← last.sources.head?
  (← lanes reg.toNat).read? t

/-! ## Elements that absorb values -/

/-- An element goes from `first` to `last` as it absorbs values in runs: a run reads
the element, folds its values onto that and stores the result. -/
inductive Lane.Absorbs {t : ElementType} (combine : t.Value → t.Value → t.Value) (first : Lane) :
    List t.Value → Lane → Prop where
  | nothing : Absorbs combine first [] first
  | run {before values : List t.Value} {now next : Lane} {old : t.Value} :
    Absorbs combine first before now → now.read? t = some old →
      now.write? t (values.foldl combine old) = some next →
      Absorbs combine first (before ++ values) next

/-- Every element absorbed as many of its values as `count` says. -/
def Column.Absorbed (c start : Column) {t : ElementType} (combine : t.Value → t.Value → t.Value)
    (value : Nat → Nat → t.Value) (count : Nat → Nat) : Prop :=
  ∀ i < c.size, (start.lane i).Absorbs combine ((List.range (count i)).map (value i)) (c.lane i)

theorem Column.absorbed_start (c : Column) {t : ElementType}
    (combine : t.Value → t.Value → t.Value) (value : Nat → Nat → t.Value) :
    c.Absorbed c combine value fun _ => 0 :=
  fun _ _ => .nothing

theorem Column.Absorbed.congr {c start : Column} {t : ElementType}
    {combine : t.Value → t.Value → t.Value} {value : Nat → Nat → t.Value} {count count' : Nat → Nat}
    (h : c.Absorbed start combine value count) (heq : ∀ i < c.size, count i = count' i) :
    c.Absorbed start combine value count' := by
  intro i hi
  rw [← heq i hi]
  exact h i hi

/-- Storing a value and reading it back gives the value. -/
def Storage.Keeps (s : Storage) {t : ElementType} (value : t.Value) : Prop :=
  ((Lane.unset s).write? t value).bind (·.read? t) = some value

instance (s : Storage) {t : ElementType} (value : t.Value) : Decidable (s.Keeps value) :=
  inferInstanceAs (Decidable (_ = _))

theorem Storage.Keeps.read? {s : Storage} {t : ElementType} {value : t.Value}
    (h : s.Keeps value) {l l' : Lane} (hl : l.storage = s) (hwrite : l.write? t value = some l') :
    l'.read? t = some value := by
  have hsame : l.storage = (Lane.unset s).storage := hl
  rw [Lane.write?_congr hsame] at hwrite
  rw [Keeps, hwrite] at h
  exact h

/-- A number is kept by a storage of its own type. -/
theorem Storage.keeps_of_elementType {s : Storage} {t : ElementType} (htype : s.elementType = t)
    (hstr : t ≠ .str) (value : t.Value) : s.Keeps value := by
  have haccepts : s.elementType.accepts t = true := htype ▸ ElementType.accepts_refl _
  obtain ⟨l, hl⟩ := Option.isSome_iff_exists.1
    (Lane.isSome_write? (l := Lane.unset s) value haccepts)
  rw [Keeps, hl]
  exact Lane.read?_of_write? hl htype hstr

/-- Storing the fold of a part of the values makes no difference to the fold of all
of them. -/
def Storage.Tolerates (s : Storage) {t : ElementType} (combine : t.Value → t.Value → t.Value)
    (first : t.Value) (values : List t.Value) : Prop :=
  ∀ before after, before ++ after <+: values → ∀ (l l' : Lane) (old : t.Value),
    l.storage = s → l.write? t (before.foldl combine first) = some l' → l'.read? t = some old →
      l.write? t (after.foldl combine old)
        = l.write? t (after.foldl combine (before.foldl combine first))

/-- A storage tolerates runs where it keeps what is stored in between. -/
theorem Storage.tolerates_of_keeps {s : Storage} {t : ElementType}
    {combine : t.Value → t.Value → t.Value} {first : t.Value} {values : List t.Value}
    (h : ∀ before, before <+: values → s.Keeps (before.foldl combine first)) :
    s.Tolerates combine first values := by
  intro before after hpre l l' old hl hwrite hold
  have hkeeps := h before ((List.prefix_append before after).trans hpre)
  have hsame := (hkeeps.read? hl hwrite).symm.trans hold
  rw [Option.some.inj hsame]

/-- What an element holds after it absorbed values: the fold of all of them, as the
storage has it. -/
theorem Lane.Absorbs.stored {first last : Lane} {t : ElementType}
    {combine : t.Value → t.Value → t.Value} {seed : t.Value} {values : List t.Value}
    (h : first.Absorbs combine values last) (hseed : first.read? t = some seed)
    (htolerates : first.storage.Tolerates combine seed values) :
    last.storage = first.storage ∧ (values = [] ∧ last = first ∨
      first.write? t (values.foldl combine seed) = some last) := by
  induction h with
  | nothing => exact ⟨rfl, .inl ⟨rfl, rfl⟩⟩
  | @run before values now next old habsorbs hold hwrite ih =>
    obtain ⟨hstorage, hnow⟩ := ih fun pre post hpre =>
      htolerates pre post (hpre.trans (List.prefix_append _ _))
    have hnext := (Lane.of_write? hwrite).1.trans hstorage
    rw [Lane.write?_congr hstorage] at hwrite
    refine ⟨hnext, .inr ?_⟩
    rw [List.foldl_append]
    rcases hnow with ⟨rfl, rfl⟩ | hnow
    · rw [hseed] at hold
      cases hold
      exact hwrite
    · rw [← htolerates before values (List.prefix_refl _) first now old rfl hnow hold]
      exact hwrite

/-- Lanes that all have values. -/
theorem Rule.foldLanes_eq {α : Type} {combine : α → α → α} {first : α} {lanes : Nat → Option α}
    {value : Nat → α} {n : Nat} (h : ∀ i < n, lanes i = some (value i)) :
    foldLanes combine first lanes n = ((List.range n).map value).foldl combine first := by
  rw [List.foldl_map]
  refine List.foldl_ext _ _ _ fun acc i hi => ?_
  rw [h i (List.mem_range.1 hi)]
  rfl

/-! ## Programs that end in a fold -/

namespace Kernel.EndsInFold

variable {k : Kernel} {before : List Instruction} {last : Instruction} {r : Reducer}
  {t : ElementType}

theorem last_mem (h : k.EndsInFold before last r t) : last ∈ k.instructions := by
  rw [h.instructions]
  exact List.mem_append_right _ (.head _)

/-- The rule of the last instruction. -/
theorem rule? (h : k.EndsInFold before last r t) {combine : t.Value → t.Value → t.Value}
    (hcombine : r.on? t = some combine) : last.rule? = some (.fold t combine) := by
  simp only [Instruction.rule?, h.operation, Operation.rule?, hcombine, Option.map_some]

theorem mem_before (h : k.EndsInFold before last r t) {inst : Instruction} (hinst : inst ∈ before) :
    inst ∈ k.instructions := by
  rw [h.instructions]
  exact List.mem_append_left _ hinst

/-- The values can be combined. -/
theorem isSome_on? (h : k.EndsInFold before last r t) (hk : k.Valid) : (r.on? t).isSome := by
  have hrule := (hk.wellTyped last h.last_mem).rule
  simpa only [Instruction.rule?, h.operation, Operation.rule?, Option.isSome_map] using hrule

/-- Instructions before the last one have nothing to do with the output. -/
theorem zero_notMem (h : k.EndsInFold before last r t) {inst : Instruction}
    (hinst : inst ∈ before) : 0 ∉ inst.dest :: inst.sources := by
  rw [List.mem_cons, not_or]
  exact ⟨(h.unwritten inst hinst).symm, h.unread inst (h.mem_before hinst)⟩

theorem zero_notMem_destinations (h : k.EndsInFold before last r t) : 0 ∉ destinations before := by
  intro hmem
  obtain ⟨inst, hinst, hzero⟩ := List.mem_map.1 hmem
  exact h.unwritten inst hinst (UInt8.toNat_inj.1 hzero)

theorem isReduction (h : k.EndsInFold before last r t) (hk : k.Valid) :
    k.program.isReduction = true :=
  (hk.reduction_last h.instructions (by rw [h.operation]; rfl)).2

/-- The reducer of the program is that of its fold. -/
theorem reducer? (h : k.EndsInFold before last r t) (hk : k.Valid) :
    k.program.reduction? = some last.opcode ∧ last.opcode.operation.reducer? = some r := by
  have hop : last.opcode.operation = .reduce r t := h.operation
  exact ⟨(hk.reduction?_eq h.last_mem (by rw [h.operation]; rfl)).1, by rw [hop]; rfl⟩

/-- A fold is not followed by another instruction. -/
theorem isReduction_before (h : k.EndsInFold before last r t) (hk : k.Valid) {inst : Instruction}
    (hinst : inst ∈ before) : inst.operation.isReduction = false := by
  obtain ⟨first, rest, rfl⟩ := List.append_of_mem hinst
  refine Bool.eq_false_iff.2 fun hred => ?_
  have heq : k.instructions = first ++ inst :: (rest ++ [last]) := by
    rw [h.instructions, List.append_assoc, List.cons_append]
  have := (hk.reduction_last heq hred).1
  simp at this

end Kernel.EndsInFold

namespace Evaluation

/-- The values that a walk folds at its positions. -/
def Supplies (ev : Evaluation) (k : Kernel) (before : List Instruction) (last : Instruction)
    {t : ElementType} (out : Storage) (shape : Shape) (inputs : List Strided) (stop : Nat)
    (value : Nat → t.Value) : Prop :=
  ∀ sink p, p < stop → k.foldedValue? before last t ev.prepared.stringWidths
    (ev.inputLanes inputs shape sink p) out = some (value p)

section Block

variable {ev : Evaluation} {k : Kernel} {first : Workspace} {out : Storage} {shape : Shape}
  {target : Strided} {inputs : List Strided} {stop base len : Nat} {before : List Instruction}
  {last : Instruction} {r : Reducer} {s : ElementType} {combine : s.Value → s.Value → s.Value}

/-- The frame that the last instruction of a block finds: its source has the
values of the positions, and the output is as it was. -/
theorem BlockRun.exists_source (hs : ev.Serves k first out)
    (hcount : inputs.length = ev.sources.length) (hk : k.EndsInFold before last r s)
    {value : Nat → s.Value} (hvalues : ev.Supplies k before last out shape inputs stop value)
    {block : Block} (hstop : block.start + block.len ≤ stop)
    (hfull : block.len ≤ ev.prepared.blockSize) {views : List Column} {work : Column}
    {final : Frame} {t t' : Traversal}
    (ht : Traversal.OnCourse k ev.prepared.blockSize first out base len t.workspace t.sink)
    (hrun : ev.BlockRun target inputs shape block views work final t t') {mode : Accumulation}
    (hall : (⟨t.workspace.registers, views, work⟩ : Frame).runAll? mode block.len k.instructions
      = some final) :
    ∃ mid : Frame, mid.execute? mode block.len last = some final ∧ mid.output = work ∧
      ∀ reg source, last.sources = [reg] → mid.register? reg.toNat = some source →
        ∀ j < block.len, (source.lane j).read? s = some (value (block.start + j)) := by
  rw [hk.instructions, Frame.runAll?_append] at hall
  obtain ⟨mid, hmid, hlast⟩ := Option.bind_eq_some_iff.1 hall
  rw [Frame.runAll?_cons] at hlast
  obtain ⟨final', hfinal, hnil⟩ := Option.bind_eq_some_iff.1 hlast
  cases hnil
  have hrules : ∀ inst ∈ before, inst.rule?.isSome := fun inst hinst =>
    (hs.valid.wellTyped inst (hk.mem_before hinst)).rule
  refine ⟨mid, hfinal, (Frame.After.runAll hmid hrules).unwritten hk.zero_notMem_destinations,
    fun reg source hsources hsource j hj => ?_⟩
  have hvalue := hvalues t.sink (block.start + j) (by omega)
  simp only [Kernel.foldedValue?, hsources, Option.bind_eq_bind, Option.bind_eq_some_iff,
    List.head?_cons, Option.some.injEq, exists_eq_left'] at hvalue
  obtain ⟨done, hdone, l, hl, hread⟩ := hvalue
  have hviewCount := hs.length_views hcount hrun.viewed
  have hbelow := hs.run_lanes ht.registers hfull hviewCount hrun.viewed.le_size
    (fun _ _ => .inl rfl) hj (hrun.viewed.exists_lane hj) (.unset (hrun.storage.trans ht.storage))
    (fun _ => hk.mem_before) (fun _ => hk.isReduction_before hs.valid)
    (fun _ hinst hzero => absurd hzero (hk.zero_notMem hinst)) hmid hdone
  obtain ⟨l', hl', hle⟩ := hbelow reg.toNat l hl
  rw [Frame.lanes, hsource] at hl'
  cases hl'
  exact hle.read? hread

variable (hs : ev.Serves k first out) (hcount : inputs.length = ev.sources.length)
  (hk : k.EndsInFold before last r s) (hcombine : r.on? s = some combine)

include hs hcount hk hcombine

/-- Blocks that fold into one element, which absorbs the values of all positions so
far. -/
theorem advances_single (target : Strided) (base : Nat) (start : Column) (count : Nat → Nat)
    (hmode : ev.mode? = some .single) {e : Nat} (he : target.base - base = e) (hlt : e < len)
    {value : Nat → Nat → s.Value}
    (hvalues : ev.Supplies k before last out shape inputs stop (value e)) :
    ev.Advances k first out shape target inputs 0 stop base len fun position _ now =>
      now.Absorbed start combine value fun i => if i = e then position else count i := by
  intro block views work final t t' hblock _ hstop hfull ht hrun hall hinv
  rw [hmode, Option.getD_some] at hall
  obtain ⟨mid, hmid, hwork, hsource⟩ :=
    BlockRun.exists_source hs hcount hk hvalues hstop hfull ht hrun hall
  have htargets : ev.blockTargets t.sink.base target shape block = [e] := by
    rw [blockTargets, if_pos hmode, ht.base, he]
  have hsize := hrun.size
  have hsink := hrun.sink
  rw [htargets] at hsize hsink
  have hstarted : work.lane 0 = t.sink.data.lane e := by
    rw [hrun.lane_started (by simp [hmode]) (by simp [htargets])]
    simp only [htargets, List.getElem_cons_zero]
  obtain ⟨reg, source, old, hreg, hsourceReg, hold, hwrite⟩ :=
    Frame.execute?_single hmid (hk.rule? hcombine) hk.dest hblock (by rw [hwork, hsize]; simp)
  have hvalue := hsource reg source hreg hsourceReg
  have hlen : block.len ≤ source.size := by
    by_contra hshort
    have := hvalue (block.len - 1) (by omega)
    rw [Column.lane_of_size_le (by omega), Lane.read?_unset] at this
    cases this
  rw [hwork, hstarted] at hold hwrite
  rw [Nat.min_eq_left hlen, Rule.foldLanes_eq hvalue] at hwrite
  intro i hi
  rw [hsink.size] at hi
  have hheld : (start.lane i).Absorbs combine
      ((List.range (if i = e then block.start else count i)).map (value i))
      (t.sink.data.lane i) := hinv i hi
  by_cases hie : i = e
  · subst hie
    rw [if_pos rfl] at hheld
    have hnow : final.output.lane 0 = t'.sink.data.lane i :=
      (hsink.at_position 0 Nat.one_pos).symm
    rw [hnow] at hwrite
    simp only [if_true, List.range_add, List.map_append, List.map_map]
    exact .run hheld hold hwrite
  · rw [hsink.elsewhere i (by simpa using hie)]
    simpa only [if_neg hie] using hheld

/-- Blocks that fold each position into an element of its own, for the values
number `m` of all elements. -/
theorem advances_lanewise (len : Nat) (start : Column) (hmode : ev.mode? = some .lanewise)
    (hoffset : ∀ p < stop, target.offset shape p = p) {value : Nat → Nat → s.Value} {m : Nat}
    (hvalues : ev.Supplies k before last out shape inputs stop fun p => value p m) :
    ev.Advances k first out shape target inputs 0 stop 0 len fun position _ now =>
      now.Absorbed start combine value fun i => if i < position then m + 1 else m := by
  intro block views work final t t' hblock _ hstop hfull ht hrun hall hinv
  rw [hmode, Option.getD_some] at hall
  obtain ⟨mid, hmid, hwork, hsource⟩ :=
    BlockRun.exists_source hs hcount hk hvalues hstop hfull ht hrun hall
  obtain ⟨hlen, htarget⟩ := mem_blockTargets ev 0 (by simp [hmode])
    (fun p _ hp => hoffset p hp) (Nat.zero_le _) hstop
  have hsize := hrun.size
  have hsink := hrun.sink
  rw [ht.base] at hsize hsink
  obtain ⟨reg, source, hreg, hsourceReg, hlanes⟩ :=
    Frame.execute?_lanewise hmid (hk.rule? hcombine) hk.dest
  have hvalue := hsource reg source hreg hsourceReg
  have hstarted : ∀ j < block.len, work.lane j = t.sink.data.lane (block.start + j) := by
    intro j hj
    have hlane := hrun.lane_started (j := j) (by simp [hmode])
    rw [ht.base] at hlane
    rw [hlane (by omega), htarget j (by omega), Nat.sub_zero]
  intro i hi
  rw [hsink.size] at hi
  have hheld : (start.lane i).Absorbs combine
      ((List.range (if i < block.start then m + 1 else m)).map (value i))
      (t.sink.data.lane i) := hinv i hi
  by_cases hin : block.start ≤ i ∧ i < block.start + block.len
  · obtain ⟨j, rfl⟩ := Nat.exists_eq_add_of_le hin.1
    have hj : j < block.len := by omega
    obtain ⟨old, hold, hwrite⟩ := hlanes j _ hj (by rw [hwork]; omega) (hvalue j hj)
    have hlane := hsink.at_position j (by omega)
    rw [htarget j (by omega), Nat.sub_zero] at hlane
    rw [hwork, hstarted j hj] at hold hwrite
    rw [← hlane] at hwrite
    rw [if_neg (by omega)] at hheld
    simp only [if_pos hin.2, List.range_succ, List.map_append]
    exact .run hheld hold hwrite
  · have helsewhere : i ∉ ev.blockTargets 0 target shape block :=
      notMem_blockTargets ev (by simp [hmode]) (fun p _ hp => hoffset p hp) (Nat.zero_le _) hstop
        (Nat.zero_le _) (Nat.zero_le _) (by omega)
    have hside : i < block.start ↔ i < block.start + block.len := by omega
    rw [hsink.elsewhere i helsewhere]
    simpa only [hside] using hheld

end Block

end Evaluation

end Lanewise
