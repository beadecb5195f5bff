import Mathlib.Data.List.Nodup
import Lanewise.Proofs.Lane
import Lanewise.Proofs.Sequences

/-!
# Columns, element by element

What the operations on columns do to the element at each position. Later proofs
speak about `Column.lane` only and leave arrays and writes to this module.
-/

namespace Lanewise

/-- A string that is as wide already stays as it is. -/
theorem Text.padded_toList {width : Nat} (bytes : Vector UInt8 width) :
    padded width bytes.toList = bytes := by
  apply Vector.ext
  intro i hi
  rw [getElem_padded hi]
  simp [hi]

namespace Storage

/-- Between equal storages an element moves unchanged. -/
theorem copy?_self (s : Storage) : s.copy? s = some id := by
  cases s with
  | str width =>
    have h : Text.padded width ∘ Vector.toList = (id : Vector UInt8 width → _) :=
      funext Text.padded_toList
    exact congrArg some h
  | _ => rfl

instance : (s : Storage) → DecidableEq s.Cell
  | bool => inferInstanceAs (DecidableEq Bool)
  | int => inferInstanceAs (DecidableEq Int32)
  | long => inferInstanceAs (DecidableEq Int64)
  | float => inferInstanceAs (DecidableEq Single)
  | double => inferInstanceAs (DecidableEq Double)
  | complex => inferInstanceAs (DecidableEq Complex)
  | str width => inferInstanceAs (DecidableEq (Vector UInt8 width))

end Storage

deriving instance DecidableEq for Column

namespace Column

/-- Columns with the same elements are equal. -/
theorem ext_lane {c d : Column} (hstorage : c.storage = d.storage) (hsize : c.size = d.size)
    (hlane : ∀ i, i < c.size → c.lane i = d.lane i) : c = d := by
  obtain ⟨s, cells⟩ := c
  obtain ⟨s', cells'⟩ := d
  cases hstorage
  congr 1
  apply Array.ext hsize
  intro i hi hi'
  have h : (⟨s, cells[i]?⟩ : Lane) = ⟨s, cells'[i]?⟩ := hlane i hi
  injection h with _ h
  simpa [hi, hi'] using h

theorem isSome_lane {c : Column} {i : Nat} (h : i < c.size) : (c.lane i).cell?.isSome := by
  simpa [lane, size] using h

theorem lane_of_size_le {c : Column} {i : Nat} (h : c.size ≤ i) : c.lane i = .unset c.storage := by
  simpa [lane, Lane.unset, size] using h

/-- Columns of one storage and one length. -/
structure Alike (old new : Column) : Prop where
  storage : new.storage = old.storage
  size : new.size = old.size

theorem Alike.refl (c : Column) : c.Alike c := ⟨rfl, rfl⟩

theorem Alike.trans {a b c : Column} (hab : a.Alike b) (hbc : b.Alike c) : a.Alike c :=
  ⟨hbc.storage.trans hab.storage, hbc.size.trans hab.size⟩

theorem alike_scatter (dst src : Column) (offsets : List Nat) :
    dst.Alike (dst.scatter src offsets).1 := by
  refine ⟨?_, size_scatter dst src offsets⟩
  unfold scatter
  split <;> rfl

theorem alike_gather (dst src : Column) (offsets : List Nat) :
    dst.Alike (dst.gather src offsets).1 := by
  refine ⟨?_, size_gather dst src offsets⟩
  unfold gather
  split <;> rfl

theorem Alike.accepts {old new : Column} (h : old.Alike new) (t : ElementType) :
    new.elementType.accepts t = old.elementType.accepts t := by
  rw [elementType, elementType, h.storage]

/-! ## Parts and fresh columns -/

@[simp] theorem storage_slice (c : Column) (start stop : Nat) :
    (c.slice start stop).storage = c.storage := rfl

theorem size_slice {c : Column} {start stop : Nat} (h : stop ≤ c.size) :
    (c.slice start stop).size = stop - start := by
  simp only [size] at h
  simp [slice, size, Nat.min_eq_left h]

theorem lane_slice {c : Column} {start stop i : Nat} (h : stop ≤ c.size) (hi : i < stop - start) :
    (c.slice start stop).lane i = c.lane (start + i) := by
  simp only [size] at h
  have hcell : (c.cells.extract start stop)[i]? = c.cells[start + i]? := by
    rw [Array.getElem?_extract, if_pos (by omega)]
  exact congrArg (Lane.mk c.storage) hcell

theorem storage_head (c : Column) (n : Nat) : (c.head n).storage = c.storage := rfl

theorem size_head {c : Column} {n : Nat} (h : n ≤ c.size) : (c.head n).size = n := by
  rw [head, size_slice h, Nat.sub_zero]

theorem lane_head {c : Column} {n i : Nat} (h : n ≤ c.size) (hi : i < n) :
    (c.head n).lane i = c.lane i := by
  rw [head, lane_slice h (by omega), Nat.zero_add]

@[simp] theorem size_replicate (s : Storage) (len : Nat) (cell : Unit → s.Cell) :
    (replicate s len cell).size = len := by
  by_cases h : len = 0 <;> simp [replicate, size, h]

theorem lane_replicate {s : Storage} {len i : Nat} (cell : Unit → s.Cell) (h : i < len) :
    (replicate s len cell).lane i = ⟨s, some (cell ())⟩ := by
  have hcell : (if len = 0 then #[] else Array.replicate len (cell ()))[i]? = some (cell ()) := by
    rw [if_neg (by omega), Array.getElem?_replicate, if_pos h]
  exact congrArg (Lane.mk s) hcell

@[simp] theorem storage_fresh (s : Storage) (len : Nat) : (fresh s len).storage = s := rfl

@[simp] theorem size_fresh (s : Storage) (len : Nat) : (fresh s len).size = len :=
  size_replicate s len _

theorem lane_fresh {s : Storage} {len i : Nat} (h : i < len) :
    (fresh s len).lane i = .fresh s :=
  lane_replicate _ h

/-! ## Writes -/

/-- Writes at distinct existing positions are all done. -/
theorem writeCells_spec {α : Type} (cells : Array α) (writes : List (Nat × α))
    (hin : ∀ w ∈ writes, w.1 < cells.size) (hnodup : (writes.map Prod.fst).Nodup) :
    ∃ cells', writeCells cells (writes.map fun w => (w.1, some w.2)) = (cells', true) ∧
      (∀ w ∈ writes, cells'[w.1]? = some w.2) ∧
      ∀ j, j ∉ writes.map Prod.fst → cells'[j]? = cells[j]? := by
  induction writes generalizing cells with
  | nil => exact ⟨cells, rfl, by simp, fun _ _ => rfl⟩
  | cons w rest ih =>
    obtain ⟨i, value⟩ := w
    have hi : i < cells.size := hin (i, value) (by simp)
    simp only [List.map_cons, List.nodup_cons] at hnodup
    obtain ⟨cells', hrun, hat, helse⟩ := ih (cells.set i value)
      (fun w hw => by simpa using hin w (by simp [hw])) hnodup.2
    refine ⟨cells', ?_, ?_, ?_⟩
    · simpa [writeCells, hi] using hrun
    · intro w hw
      rcases List.mem_cons.1 hw with rfl | hw
      · rw [helse i hnodup.1]
        simp [hi]
      · exact hat w hw
    · intro j hj
      simp only [List.map_cons, List.mem_cons, not_or] at hj
      rw [helse j hj.2, Array.getElem?_set_ne hi (Ne.symm hj.1)]

/-- `new` is `old` with the elements at some positions replaced: at the `k`-th
position stands `element k`. -/
structure Replaced (old : Column) (positions : List Nat) (element : Nat → Lane)
    (new : Column) : Prop where
  storage : new.storage = old.storage
  size : new.size = old.size
  at_position : ∀ k (h : k < positions.length), new.lane positions[k] = element k
  elsewhere : ∀ j, j ∉ positions → new.lane j = old.lane j

theorem Replaced.alike {old new : Column} {positions : List Nat} {element : Nat → Lane}
    (h : old.Replaced positions element new) : old.Alike new :=
  ⟨h.storage, h.size⟩

/-- What is replaced and by what leaves no choice. -/
theorem Replaced.unique {old new new' : Column} {positions : List Nat} {element : Nat → Lane}
    (h : old.Replaced positions element new) (h' : old.Replaced positions element new') :
    new = new' := by
  refine ext_lane (h.storage.trans h'.storage.symm) (h.size.trans h'.size.symm) fun i _ => ?_
  by_cases hi : i ∈ positions
  · obtain ⟨k, hk, rfl⟩ := List.mem_iff_getElem.1 hi
    rw [h.at_position k hk, h'.at_position k hk]
  · rw [h.elsewhere i hi, h'.elsewhere i hi]

/-- Elements of the same storage that go to distinct existing positions. -/
theorem scatter_replaced (dst src : Column) {offsets : List Nat}
    (hstorage : src.storage = dst.storage) (hlen : offsets.length = src.size)
    (hin : ∀ offset ∈ offsets, offset < dst.size) (hnodup : offsets.Nodup) :
    (dst.scatter src offsets).2 = true ∧
      dst.Replaced offsets src.lane (dst.scatter src offsets).1 := by
  obtain ⟨s', cells⟩ := dst
  obtain ⟨s, cells'⟩ := src
  obtain rfl : s = s' := hstorage
  have hfst : (offsets.zip cells'.toList).map Prod.fst = offsets :=
    List.map_fst_zip (by simpa [size] using Nat.le_of_eq hlen)
  obtain ⟨written, hrun, hat, helse⟩ := writeCells_spec cells
    (offsets.zip cells'.toList)
    (fun w hw => hin _ (List.of_mem_zip hw).1) (by rw [hfst]; exact hnodup)
  have heq : scatter ⟨s, cells⟩ ⟨s, cells'⟩ offsets = (⟨s, written⟩, true) := by
    simp [scatter, Storage.copy?_self, hrun]
  have hsize := size_scatter ⟨s, cells⟩ ⟨s, cells'⟩ offsets
  rw [heq] at hsize ⊢
  refine ⟨rfl, rfl, hsize, ?_, ?_⟩
  · intro k hk
    have hk' : k < cells'.size := by simpa [size, hlen] using hk
    have := hat (offsets[k], cells'[k]) (by
      rw [List.mem_iff_getElem]
      exact ⟨k, by rw [List.length_zip]; simp; omega, by simp⟩)
    simp [lane, this, hk']
  · intro j hj
    simp [lane, helse j (by rw [hfst]; exact hj)]

/-- The elements from `start` on. -/
theorem write_replaced (dst src : Column) (start : Nat) (hstorage : src.storage = dst.storage)
    (hin : start + src.size ≤ dst.size) :
    (dst.write start src).2 = true ∧
      dst.Replaced (List.range' start src.size) src.lane (dst.write start src).1 := by
  refine scatter_replaced dst src hstorage (by simp) ?_ List.nodup_range'
  intro offset hoffset
  simp only [List.mem_range'_1] at hoffset
  omega

/-- All elements are replaced. -/
theorem write_whole {dst src : Column} (h : dst.Alike src) : (dst.write 0 src).1 = src := by
  obtain ⟨-, hwrite⟩ := write_replaced dst src 0 h.storage
    (Nat.le_of_eq ((Nat.zero_add _).trans h.size))
  refine ext_lane (hwrite.storage.trans h.storage.symm) (hwrite.size.trans h.size.symm)
    fun i hi => ?_
  rw [hwrite.size, ← h.size] at hi
  have hlane := hwrite.at_position i (by simpa using hi)
  rwa [List.getElem_range', Nat.zero_add, Nat.one_mul] at hlane

/-- First elements that are put back. -/
theorem write_head {c : Column} {n : Nat} (h : n ≤ c.size) : (c.write 0 (c.head n)).1 = c := by
  have hsize := size_head h
  obtain ⟨-, hwrite⟩ := write_replaced c (c.head n) 0 (storage_head c n) (by omega)
  refine hwrite.unique ⟨rfl, rfl, fun k hk => ?_, fun _ _ => rfl⟩
  rw [List.length_range', hsize] at hk
  rw [List.getElem_range', Nat.zero_add, Nat.one_mul, lane_head h hk]

/-- Elements of the same storage that come from existing positions. -/
theorem gather_replaced (dst src : Column) {offsets : List Nat}
    (hstorage : src.storage = dst.storage) (hlen : offsets.length ≤ dst.size)
    (hin : ∀ offset ∈ offsets, offset < src.size) :
    (dst.gather src offsets).2 = true ∧
      dst.Replaced (List.range offsets.length) (fun k => src.lane (offsets.getD k 0))
        (dst.gather src offsets).1 := by
  obtain ⟨s', cells⟩ := dst
  obtain ⟨s, cells'⟩ := src
  obtain rfl : s = s' := hstorage
  simp only [size] at hlen hin
  -- the writes with their values taken out of the option
  let writes := (List.range offsets.length).pmap
    (fun k (hk : k < offsets.length) =>
      have : offsets[k] < cells'.size := hin _ (List.getElem_mem hk)
      (k, cells'[offsets[k]]))
    (fun k hk => List.mem_range.1 hk)
  have hfst : writes.map Prod.fst = List.range offsets.length := by
    simp [writes, List.map_pmap]
  obtain ⟨written, hrun, hat, helse⟩ := writeCells_spec cells writes
    (fun w hw => by
      have : w.1 ∈ writes.map Prod.fst := List.mem_map_of_mem hw
      rw [hfst, List.mem_range] at this
      omega)
    (by rw [hfst]; exact List.nodup_range)
  have hwrites : ((offsets.take cells.size).zipIdx.map fun x => (x.2, cells'[x.1]?.map id))
      = writes.map fun w => (w.1, some w.2) := by
    apply List.ext_getElem
    · simp [writes, hlen]
    · intro k hk hk'
      have hko : k < offsets.length := by simpa [writes] using hk'
      have : offsets[k] < cells'.size := hin _ (List.getElem_mem hko)
      simp [writes, this]
  have heq : gather ⟨s, cells⟩ ⟨s, cells'⟩ offsets = (⟨s, written⟩, true) := by
    simp only [gather, Storage.copy?_self, size]
    erw [hwrites, hrun]
  have hsize := size_gather ⟨s, cells⟩ ⟨s, cells'⟩ offsets
  rw [heq] at hsize ⊢
  refine ⟨rfl, rfl, hsize, ?_, ?_⟩
  · intro k hk
    have hko : k < offsets.length := by simpa using hk
    have ho : offsets[k] < cells'.size := hin _ (List.getElem_mem hko)
    have := hat (k, cells'[offsets[k]]) (by
      simp only [writes, List.mem_pmap, List.mem_range]
      exact ⟨k, hko, rfl⟩)
    simp [lane, this, hko, ho]
  · intro j hj
    simp [lane, helse j (by rw [hfst]; exact hj)]

/-- Writes that were all done had their values. -/
theorem isSome_of_writeCells {α : Type} {cells : Array α} {writes : List (Nat × Option α)}
    (h : (writeCells cells writes).2 = true) : ∀ w ∈ writes, w.2.isSome = true := by
  induction writes generalizing cells with
  | nil => simp
  | cons w rest ih =>
    obtain ⟨i, value | value⟩ := w
    · cases h
    · rw [writeCells] at h
      split at h
      · rw [List.forall_mem_cons]
        exact ⟨rfl, ih h⟩
      · cases h

/-- Elements that were gathered exist. -/
theorem lt_of_gather {dst src : Column} {offsets : List Nat}
    (h : (dst.gather src offsets).2 = true) : ∀ o ∈ offsets.take dst.size, o < src.size := by
  intro o ho
  unfold gather at h
  split at h
  · cases h
  · next copy _ =>
    obtain ⟨k, hk, rfl⟩ := List.mem_iff_getElem.1 ho
    have hmem : (k, src.cells[(offsets.take dst.size)[k]]?.map copy)
        ∈ (offsets.take dst.size).zipIdx.map fun x => (x.2, src.cells[x.1]?.map copy) :=
      List.mem_map.2 ⟨((offsets.take dst.size)[k], k), by
        rw [List.mem_zipIdx_iff_getElem?, List.getElem?_eq_getElem hk], rfl⟩
    have hcell := isSome_of_writeCells h _ hmem
    rw [Option.isSome_map, isSome_getElem?] at hcell
    exact hcell

/-! ## Reads -/

/-- Reading a column is reading its elements. -/
theorem values?_apply {c : Column} {t : ElementType} {values : Nat → Option t.Value}
    (h : c.values? t = some values) (i : Nat) : values i = (c.lane i).read? t := by
  simp only [values?, Option.bind_eq_bind, Option.bind_eq_some_iff, Option.pure_def,
    Option.some.injEq] at h
  obtain ⟨read, hread, rfl⟩ := h
  simp only [Lane.read?, lane, hread]
  cases c.cells[i]? <;> rfl

theorem isSome_values? (c : Column) (t : ElementType) :
    (c.values? t).isSome = c.elementType.accepts t := by
  rw [elementType, ← Storage.isSome_read?]
  unfold values?
  cases c.storage.read? t <;> rfl

/-- A revised element: its old value goes through the function and back. -/
theorem lane_of_revise? {c c' : Column} {n : Nat} {t : ElementType} {f : Nat → t.Value → t.Value}
    (h : c.revise? n t f = some c') {i : Nat} (hi : i < n) (hsize : i < c.size) :
    ∃ value, (c.lane i).read? t = some value ∧
      (c.lane i).write? t (f i value) = some (c'.lane i) := by
  simp only [revise?, Option.bind_eq_bind, Option.bind_eq_some_iff, Option.pure_def,
    Option.some.injEq] at h
  obtain ⟨read, hread, write, hwrite, rfl⟩ := h
  simp only [size] at hsize
  exact ⟨read c.cells[i], by simp [Lane.read?, lane, hread, hsize],
    by simp [Lane.write?, lane, hwrite, hsize, hi]⟩

theorem lane_of_revise?_of_le {c c' : Column} {n : Nat} {t : ElementType}
    {f : Nat → t.Value → t.Value} (h : c.revise? n t f = some c') {i : Nat} (hi : n ≤ i) :
    c'.lane i = c.lane i := by
  simp only [revise?, Option.bind_eq_bind, Option.bind_eq_some_iff, Option.pure_def,
    Option.some.injEq] at h
  obtain ⟨read, hread, write, hwrite, rfl⟩ := h
  have : ¬ i < n := by omega
  simp only [lane, Array.getElem?_mapIdx, this, if_false, Option.map_id']

end Column

/-- Reading several columns lane by lane. -/
theorem Values.ofColumns?_apply {ts : List ElementType} {cs : List Column}
    {lanes : Nat → Option (Values ts)} (h : ofColumns? ts cs = some lanes) (i : Nat) :
    lanes i = ofLanes? ts (cs.map fun c => c.lane i) := by
  induction ts generalizing cs with
  | nil =>
    cases cs with
    | nil => cases h; rfl
    | cons => cases h
  | cons t ts ih =>
    cases cs with
    | nil => cases h
    | cons c cs =>
      simp only [ofColumns?, Option.bind_eq_bind, Option.bind_eq_some_iff, Option.pure_def,
        Option.some.injEq] at h
      obtain ⟨first, hfirst, rest, hrest, rfl⟩ := h
      simp only [List.map_cons, ofLanes?, Column.values?_apply hfirst, ih hrest,
        Option.bind_eq_bind, Option.pure_def]

end Lanewise
