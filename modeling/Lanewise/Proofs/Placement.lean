import Lanewise.Traversal
import Lanewise.Proofs.Columns
import Lanewise.Proofs.Offsets

/-!
# What a block reads and where it writes

An input gives the elements at the offsets of the positions of a block, whether
they are read in place or collected (`Source.stage_eq_ok`). The output goes to the
offsets of the positions, in place or by way of the scratch column
(`Evaluation.place_single`, `Evaluation.place_moving`).
-/

namespace Lanewise

open Shape (size)

namespace Source

/-- How an input stores its elements, given how the output does. -/
def storage (out : Storage) : Source → Storage
  | array data => data.storage
  | output => out

/-- The element that an input has for a position. -/
def lane (source : Source) (sink : Sink) (op : Strided) (shape : Shape) (p : Nat) : Lane :=
  match source with
  | array data => data.lane (op.offset shape p)
  | output => sink.data.lane (op.offset shape p - sink.base)

/-- The element for a position exists. The sink has the elements from `base` on,
`len` of them. -/
def Reaches (source : Source) (base len : Nat) (op : Strided) (shape : Shape) (p : Nat) : Prop :=
  match source with
  | array data => op.offset shape p < data.size
  | output => base ≤ op.offset shape p ∧ op.offset shape p < base + len

end Source

/-- Elements that stand in another column, at given offsets. -/
structure Column.Shows (c src : Column) (n : Nat) (offset : Nat → Nat) : Prop where
  storage : c.storage = src.storage
  size : c.size = n
  lane : ∀ k < n, c.lane k = src.lane (offset k)

section Shows

variable {src buffer : Column} {n : Nat} {offset : Nat → Nat}

/-- Elements in a row are read in place. -/
theorem Column.shows_slice {start : Nat} (hn : 0 < n) (hin : ∀ k < n, offset k < src.size)
    (hoffset : ∀ k < n, offset k = start + k) :
    (src.slice start (start + n)).Shows src n offset := by
  have hstop : start + n ≤ src.size := by
    have := hin (n - 1) (by omega)
    rw [hoffset _ (by omega)] at this
    omega
  refine ⟨storage_slice _ _ _, ?_, fun k hk => ?_⟩
  · rw [size_slice hstop, Nat.add_sub_cancel_left]
  · rw [lane_slice hstop (by omega), hoffset k hk]

/-- Elements anywhere are collected. -/
theorem Column.exists_collect {offsets : List Nat} (hstorage : buffer.storage = src.storage)
    (hsize : buffer.size = n) (heq : offsets = (List.range n).map offset)
    (hin : ∀ k < n, offset k < src.size) :
    ∃ c, buffer.collect src offsets = .ok c ∧ c.Shows src n offset := by
  subst heq hsize
  have hlen : ((List.range buffer.size).map offset).length = buffer.size := by simp
  obtain ⟨hdone, hreplaced⟩ := gather_replaced buffer src hstorage.symm (Nat.le_of_eq hlen)
    (by simpa using hin)
  rw [hlen] at hreplaced
  refine ⟨(buffer.gather src ((List.range buffer.size).map offset)).1, if_pos hdone,
    hreplaced.storage.trans hstorage, hreplaced.size, fun k hk => ?_⟩
  have hlane := hreplaced.at_position k (by simpa using hk)
  rw [List.getElem_range] at hlane
  rw [hlane, List.getD_eq_getElem?_getD, List.getElem?_map, List.getElem?_range hk]
  rfl

/-- Elements that were collected exist. -/
theorem Column.lt_of_collect_eq_ok {c : Column} {offsets : List Nat}
    (hlen : offsets.length ≤ buffer.size) (h : buffer.collect src offsets = .ok c) :
    ∀ o ∈ offsets, o < src.size := by
  unfold collect at h
  split at h
  next collected done hgather =>
  by_cases hdone : done = true
  · have hlt : ∀ o ∈ offsets.take buffer.size, o < src.size := lt_of_gather (by rwa [hgather])
    rwa [List.take_of_length_le hlen] at hlt
  · rw [if_neg hdone] at h
    cases h

end Shows

/-- Offsets that the sink reaches, counted from its base. -/
theorem Sink.relative_eq_ok {sink : Sink} {offsets : List Nat}
    (h : ∀ offset ∈ offsets, sink.base ≤ offset) :
    sink.relative offsets = .ok (offsets.map (· - sink.base)) := by
  rw [relative, mapM_eq_ok_iff, List.forall₂_map_right_iff, List.forall₂_same]
  exact fun offset hoffset => if_pos (h offset hoffset)

/-- The `i`-th input of a traversal: where its elements lie, and a column to collect `n`
of them in. -/
structure Traversal.Input (t : Traversal) (i : Nat) (op : Strided) (s : Storage) (n : Nat) :
    Prop where
  operand : t.iteration.operands[i + 1]? = some op
  buffer : ∃ c, t.workspace.staging[i]? = some c ∧ c.storage = s ∧ n ≤ c.size

namespace Source

variable {source : Source} {t : Traversal} {op : Strided} {block : Block} {i : Nat} {s : Storage}

/-- Elements anywhere are collected. -/
theorem collect_eq_ok
    (hinput : t.Input i op (source.storage t.sink.data.storage) block.len)
    (hpos : size t.iteration.shape ≠ 0) (hlen : op.strides.length = t.iteration.shape.length)
    (hcounts : op.Counts t.iteration.shape block)
    (h : ∀ k < block.len,
      source.Reaches t.sink.base t.sink.data.size op t.iteration.shape (block.start + k)) :
    ∃ c, source.collect t op block i = .ok (.ready c) ∧
      c.storage = source.storage t.sink.data.storage ∧ c.size = block.len ∧
      ∀ k < block.len, c.lane k = source.lane t.sink op t.iteration.shape (block.start + k) := by
  obtain ⟨offsets, hoffsets⟩ := hcounts.offsets
  obtain ⟨buffer, hbuffer, hstorage, hroom⟩ := hinput.buffer
  have hlist := Strided.of_offsets? hpos hlen hoffsets
  have hsize := Column.size_head hroom
  unfold collect
  rw [hoffsets, counted_some]
  simp only [hbuffer]
  cases source with
  | array data =>
    obtain ⟨c, hc, hshows⟩ : ∃ c, (buffer.head block.len).collect data offsets = .ok c ∧
        c.Shows data block.len fun k => op.offset t.iteration.shape (block.start + k) :=
      Column.exists_collect hstorage hsize hlist h
    exact ⟨c, bind_eq_ok_iff.2 ⟨_, rfl, bind_eq_ok_iff.2 ⟨c, hc, rfl⟩⟩, hshows.storage,
      hshows.size, hshows.lane⟩
  | output =>
    have hrelative : t.sink.relative offsets = .ok ((List.range block.len).map
        fun k => op.offset t.iteration.shape (block.start + k) - t.sink.base) := by
      rw [hlist, Sink.relative_eq_ok (by simpa using fun k hk => (h k hk).1), List.map_map]
      rfl
    have hreach : ∀ k < block.len,
        op.offset t.iteration.shape (block.start + k) - t.sink.base < t.sink.data.size := by
      intro k hk
      have := h k hk
      simp only [Reaches] at this
      omega
    obtain ⟨c, hc, hshows⟩ : ∃ c, (buffer.head block.len).collect t.sink.data _ = .ok c ∧
        c.Shows t.sink.data block.len _ := Column.exists_collect hstorage hsize rfl hreach
    exact ⟨c, bind_eq_ok_iff.2 ⟨_, rfl, bind_eq_ok_iff.2 ⟨_, hrelative,
      bind_eq_ok_iff.2 ⟨c, hc, rfl⟩⟩⟩, hshows.storage, hshows.size, hshows.lane⟩

/-- A block reads an input at the offsets of its positions. -/
theorem stage_eq_ok (hinput : t.Input i op (source.storage t.sink.data.storage) block.len)
    (hpos : size t.iteration.shape ≠ 0) (hlen : op.strides.length = t.iteration.shape.length)
    (hblock : 0 < block.len) (hcounts : op.Counts t.iteration.shape block)
    (h : ∀ k < block.len,
      source.Reaches t.sink.base t.sink.data.size op t.iteration.shape (block.start + k)) :
    ∃ staged c, source.stage t block i = .ok staged ∧ staged.view t.sink block.len = .ok c ∧
      c.storage = source.storage t.sink.data.storage ∧ c.size = block.len ∧
      ∀ k < block.len, c.lane k = source.lane t.sink op t.iteration.shape (block.start + k) := by
  obtain ⟨access, haccess⟩ := hcounts.access
  obtain ⟨c, hc, hshows⟩ := collect_eq_ok hinput hpos hlen hcounts h
  by_cases hrow : ∃ start, access = .even start 1
  · obtain ⟨start, rfl⟩ := hrow
    have hstop := hcounts.stop start haccess
    have hoffset := fun k hk => Strided.offset_of_access?_one (k := k) haccess hlen hk
    cases source with
    | array data =>
      have hview := Column.shows_slice hblock h hoffset
      refine ⟨.ready _, _, ?_, rfl, hview.storage, hview.size, hview.lane⟩
      simp [stage, hinput.operand, haccess, indexed, counted, checkedSum_eq_some hstop, bind,
        Except.bind, pure, Except.pure]
    | output =>
      simp only [Reaches] at h
      have hbase : t.sink.base ≤ start := by
        have := (h 0 hblock).1
        rw [hoffset 0 hblock] at this
        omega
      have hview : (t.sink.data.slice (start - t.sink.base) (start - t.sink.base + block.len)).Shows
          t.sink.data block.len
          (fun k => op.offset t.iteration.shape (block.start + k) - t.sink.base) :=
        Column.shows_slice hblock (fun k hk => by have := h k hk; omega) fun k hk => by
          rw [hoffset k hk]
          omega
      refine ⟨.sink (start - t.sink.base), _, ?_, ?_, hview.storage, hview.size, hview.lane⟩
      · simp [stage, hinput.operand, haccess, indexed, counted, hbase, bind, Except.bind, pure,
          Except.pure]
      · simp [Staged.view, checkedSum_eq_some (show start - t.sink.base + block.len < UInt64.size by
          omega), counted, bind, Except.bind, pure, Except.pure]
  · refine ⟨.ready c, c, ?_, rfl, hshows⟩
    rw [← hc]
    simp only [stage, hinput.operand, haccess, indexed, counted, bind, Except.bind]
    split <;> simp_all

/-- Whether a block finds all elements of an array that it reads in a row. Such
elements are not looked for one by one. -/
def covers (source : Source) (op : Strided) (shape : Shape) (block : Block) : Bool :=
  match source, op.access? shape block with
  | .array data, some (.even start 1) => start + block.len ≤ data.size
  | _, _ => true

/-- An input that was made ready has its elements in a row, or they were collected. -/
theorem of_stage_eq_ok (hoperand : t.iteration.operands[i + 1]? = some op) {staged : Staged}
    (h : source.stage t block i = .ok staged) :
    ∃ access, op.access? t.iteration.shape block = some access ∧
      (∀ data start, source = .array data → access = .even start 1 →
        start + block.len < UInt64.size) ∧
      ((∀ start, access ≠ .even start 1) → source.collect t op block i = .ok staged) := by
  unfold stage at h
  obtain ⟨_, hop, h⟩ := bind_eq_ok_iff.1 h
  obtain rfl := Option.some.inj (hoperand.symm.trans (indexed_eq_ok_iff.1 hop))
  obtain ⟨access, haccess, h⟩ := bind_eq_ok_iff.1 h
  refine ⟨access, counted_eq_ok_iff.1 haccess, ?_, fun hrow => ?_⟩
  · rintro data start rfl rfl
    obtain ⟨_, hstop, -⟩ := bind_eq_ok_iff.1 h
    exact (checkedSum_eq_some_iff.1 (counted_eq_ok_iff.1 hstop)).1
  · split at h
    · exact absurd rfl (hrow _)
    · exact absurd rfl (hrow _)
    · exact h

/-- A block of an input that was made ready can be worked on with numbers of 64 bits. -/
theorem counts_of_stage (hoperand : t.iteration.operands[i + 1]? = some op) {staged : Staged}
    (h : source.stage t block i = .ok staged)
    (hstop : source = .output → ∀ start, op.access? t.iteration.shape block
      = some (.even start 1) → start + block.len < UInt64.size) :
    op.Counts t.iteration.shape block := by
  obtain ⟨access, haccess, harray, hcollect⟩ := of_stage_eq_ok hoperand h
  by_cases hrow : ∃ start, access = .even start 1
  · obtain ⟨start, rfl⟩ := hrow
    refine Strided.counts_of_row haccess ?_
    cases source with
    | array data => exact harray data start rfl rfl
    | output => exact hstop rfl start haccess
  · obtain ⟨offsets, hoffsets, -⟩ := bind_eq_ok_iff.1 (hcollect fun start heq => hrow ⟨start, heq⟩)
    refine ⟨⟨access, haccess⟩, ⟨offsets, counted_eq_ok_iff.1 hoffsets⟩, fun start heven => ?_⟩
    exact absurd ⟨start, Option.some.inj (haccess.symm.trans heven)⟩ hrow

/-- An array that was collected, in a column that is large enough if there is one, has the
elements. -/
theorem reaches_of_collect {data : Column}
    (hbuffer : ∀ c, t.workspace.staging[i]? = some c → block.len ≤ c.size)
    (hpos : size t.iteration.shape ≠ 0) (hlen : op.strides.length = t.iteration.shape.length)
    {staged : Staged} (h : (Source.array data).collect t op block i = .ok staged) :
    ∀ k < block.len, op.offset t.iteration.shape (block.start + k) < data.size := by
  intro k hk
  unfold collect at h
  obtain ⟨offsets, hoffsets, h⟩ := bind_eq_ok_iff.1 h
  have hlist := Strided.of_offsets? hpos hlen (counted_eq_ok_iff.1 hoffsets)
  split at h
  · next buffer hfound =>
    obtain ⟨c, hc, -⟩ := bind_eq_ok_iff.1 h
    refine Column.lt_of_collect_eq_ok ?_ hc _ ?_
    · refine Nat.le_of_eq ?_
      rw [hlist, List.length_map, List.length_range, Column.size_head (hbuffer buffer hfound)]
    · rw [hlist]
      exact List.mem_map.2 ⟨k, List.mem_range.2 hk, rfl⟩
  · cases h

/-- An array that was made ready has the elements. -/
theorem reaches_of_stage {data : Column} (hinput : t.Input i op s block.len)
    (hpos : size t.iteration.shape ≠ 0) (hlen : op.strides.length = t.iteration.shape.length)
    (hcovers : (Source.array data).covers op t.iteration.shape block = true) {staged : Staged}
    (h : (Source.array data).stage t block i = .ok staged) :
    ∀ k < block.len, op.offset t.iteration.shape (block.start + k) < data.size := by
  intro k hk
  obtain ⟨access, haccess, -, hcollect⟩ := of_stage_eq_ok hinput.operand h
  by_cases hrow : ∃ start, access = .even start 1
  · obtain ⟨start, rfl⟩ := hrow
    have hin : start + block.len ≤ data.size := by
      simpa only [covers, haccess, decide_eq_true_eq] using hcovers
    rw [Strided.offset_of_access?_one haccess hlen hk]
    omega
  · obtain ⟨buffer, hbuffer, -, hroom⟩ := hinput.buffer
    refine reaches_of_collect (fun c hc => ?_) hpos hlen
      (hcollect fun start heq => hrow ⟨start, heq⟩) k hk
    rwa [Option.some.inj (hc.symm.trans hbuffer)]

end Source

/-- Offsets that could be counted from the base of the sink. -/
theorem Sink.of_relative_eq_ok {sink : Sink} {offsets relative : List Nat}
    (h : sink.relative offsets = .ok relative) :
    (∀ offset ∈ offsets, sink.base ≤ offset) ∧ relative = offsets.map (· - sink.base) := by
  rw [Sink.relative, mapM_eq_ok_iff] at h
  induction h with
  | nil => exact ⟨by simp, rfl⟩
  | cons hfirst _ ih =>
    split at hfirst
    · next hle =>
      cases hfirst
      exact ⟨List.forall_mem_cons.2 ⟨hle, ih.1⟩, by rw [ih.2]; rfl⟩
    · cases hfirst

namespace Evaluation

variable {ev : Evaluation} {sink : Sink} {op : Strided} {shape : Shape} {block : Block}

/-- A fold into a single element works on it in place. -/
theorem place_single (hmode : ev.mode? = some .single) (hreads : ev.readsOutput = false)
    (hflat : op.flatStep? shape = some 0) (hcounts : op.Counts shape block)
    (hbase : sink.base ≤ op.base) :
    ev.place sink op shape block = .ok (.direct (op.base - sink.base) 1) := by
  obtain ⟨access, haccess⟩ := hcounts.access
  obtain rfl := Strided.of_access?_of_flatStep? hflat haccess
  rw [Nat.mul_zero, Nat.add_zero] at haccess
  refine bind_eq_ok_iff.2 ⟨_, counted_eq_ok_iff.2 haccess, ?_⟩
  simp only [hmode, hreads, if_pos hbase]

/-- A block of an output that was placed can be worked on with numbers of 64 bits. -/
theorem counts_of_place (hmode : ev.mode? = none) {placement : Placement}
    (h : ev.place sink op shape block = .ok placement)
    (hstop : ∀ start, op.access? shape block = some (.even start 1) →
      start + block.len < UInt64.size) : op.Counts shape block := by
  obtain ⟨access, haccess, h⟩ := bind_eq_ok_iff.1 h
  have haccess := counted_eq_ok_iff.1 haccess
  by_cases hrow : ∃ start, access = .even start 1
  · obtain ⟨start, rfl⟩ := hrow
    exact Strided.counts_of_row haccess (hstop start haccess)
  · have hoffsets : ∃ offsets, op.offsets? shape block = some offsets := by
      split at h
      · next hsingle _ _ => exact absurd (hmode.symm.trans hsingle) nofun
      · next hsingle _ _ => exact absurd (hmode.symm.trans hsingle) nofun
      · exact absurd ⟨_, rfl⟩ hrow
      · obtain ⟨offsets, hoffsets, -⟩ := bind_eq_ok_iff.1 h
        exact ⟨offsets, counted_eq_ok_iff.1 hoffsets⟩
    refine ⟨⟨access, haccess⟩, hoffsets, fun start heven => ?_⟩
    exact absurd ⟨start, Option.some.inj (haccess.symm.trans heven)⟩ hrow

/-- Positions of the sink that a block writes to. -/
def targets (base : Nat) (op : Strided) (shape : Shape) (block : Block) : List Nat :=
  (List.range block.len).map fun k => op.offset shape (block.start + k) - base

theorem length_targets (base : Nat) (op : Strided) (shape : Shape) (block : Block) :
    (targets base op shape block).length = block.len := by
  simp [targets]

/-- A block that works on the scratch column puts its elements there. -/
theorem of_place_eq_scratch (hpos : size shape ≠ 0) (hlen : op.strides.length = shape.length)
    {offsets : List Nat} (h : ev.place sink op shape block = .ok (.scratch offsets)) :
    (∀ k < block.len, sink.base ≤ op.offset shape (block.start + k)) ∧
      offsets = targets sink.base op shape block := by
  have hdirect (start len : Nat) :
      (if sink.base ≤ start then Except.ok (Placement.direct (start - sink.base) len)
        else .error (EvalError.misuse (.offsetOutside .output))) ≠ .ok (.scratch offsets) := by
    intro h
    split at h <;> cases h
  obtain ⟨access, -, h⟩ := bind_eq_ok_iff.1 h
  split at h
  · exact absurd h (hdirect _ _)
  · cases h
  · exact absurd h (hdirect _ _)
  · obtain ⟨raw, hraw, h⟩ := bind_eq_ok_iff.1 h
    obtain ⟨relative, hrelative, heq⟩ := bind_eq_ok_iff.1 h
    cases heq
    obtain ⟨hbase, rfl⟩ := Sink.of_relative_eq_ok hrelative
    obtain rfl := Strided.of_offsets? hpos hlen (counted_eq_ok_iff.1 hraw)
    refine ⟨fun k hk => hbase _ (List.mem_map.2 ⟨k, List.mem_range.2 hk, rfl⟩), ?_⟩
    rw [List.map_map]
    rfl

/-- Whether a block that does not fold into a single element works on the output
itself. -/
def InPlace (ev : Evaluation) (op : Strided) (shape : Shape) (block : Block) : Prop :=
  ev.readsOutput = false ∧ ∃ start, op.access? shape block = some (.even start 1)

/-- Where the output is contiguous every block works on it, unless an input reads
it. -/
theorem inPlace_of_flatStep? (hreads : ev.readsOutput = false)
    (hflat : op.flatStep? shape = some 1) (hcounts : op.Counts shape block) :
    ev.InPlace op shape block := by
  obtain ⟨access, haccess⟩ := hcounts.access
  obtain rfl := Strided.of_access?_of_flatStep? hflat haccess
  exact ⟨hreads, _, haccess⟩

/-- Anything else works in place on consecutive elements, or on the scratch
column. -/
theorem place_moving (hmode : ev.mode? ≠ some .single) (hpos : size shape ≠ 0)
    (hlen : op.strides.length = shape.length) (hblock : 0 < block.len)
    (hcounts : op.Counts shape block)
    (hbase : ∀ k < block.len, sink.base ≤ op.offset shape (block.start + k)) :
    (ev.InPlace op shape block ∧
      ∃ start, ev.place sink op shape block = .ok (.direct start block.len) ∧
        start + block.len < UInt64.size ∧
        targets sink.base op shape block = List.range' start block.len) ∨
    (¬ ev.InPlace op shape block ∧
      ev.place sink op shape block = .ok (.scratch (targets sink.base op shape block))) := by
  by_cases hdirect : ev.InPlace op shape block
  · obtain ⟨hreads, start, haccess⟩ := hdirect
    have hoffset := fun k hk => Strided.offset_of_access?_one (k := k) haccess hlen hk
    have hstop := hcounts.stop start haccess
    have hstart : sink.base ≤ start := by
      have := hbase 0 hblock
      rw [hoffset 0 hblock] at this
      exact this
    refine .inl ⟨⟨hreads, start, haccess⟩, start - sink.base, ?_, by omega, ?_⟩
    · refine bind_eq_ok_iff.2 ⟨_, counted_eq_ok_iff.2 haccess, ?_⟩
      rw [hreads]
      split <;> simp_all
    · rw [targets, List.range'_eq_map_range]
      apply List.map_congr_left
      intro k hk
      rw [hoffset k (List.mem_range.1 hk)]
      omega
  · obtain ⟨access, haccess⟩ := hcounts.access
    obtain ⟨offsets, hoffsets⟩ := hcounts.offsets
    have hscratch : sink.relative offsets = .ok (targets sink.base op shape block) := by
      rw [Strided.of_offsets? hpos hlen hoffsets, Sink.relative_eq_ok (by simpa using hbase),
        List.map_map]
      rfl
    refine .inr ⟨hdirect, bind_eq_ok_iff.2 ⟨_, counted_eq_ok_iff.2 haccess, ?_⟩⟩
    split
    · simp_all
    · simp_all
    · next hreads _ => exact absurd ⟨hreads, _, haccess⟩ hdirect
    · exact bind_eq_ok_iff.2 ⟨_, counted_eq_ok_iff.2 hoffsets, bind_eq_ok_iff.2 ⟨_, hscratch, rfl⟩⟩

end Evaluation

end Lanewise
