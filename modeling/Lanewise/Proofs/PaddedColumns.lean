import Lanewise.Traversal
import Lanewise.Proofs.Padding
import Lanewise.Proofs.SideBySide

/-!
# Columns of padded strings

Two columns hold the same strings at two widths (`Column.Akin`). Whatever is read from one
and the other is alike, and what is written to columns as wide as results are stays alike
(`Column.Held`): nothing is cut off, since a result takes every string there is.
-/

namespace Lanewise

variable {v : Vocabulary}

/-! ## Stored elements -/

namespace Storage

/-- Stored elements that are alike as whatever type they are read. -/
def Akin (v : Vocabulary) (s s' : Storage) (x : s.Cell) (y : s'.Cell) : Prop :=
  ∀ t read read', s.read? t = some read → s'.read? t = some read' → v.Akin t (read x) (read' y)

/-- Storages for results: strings are as wide as results are. -/
inductive Roomy (v : Vocabulary) : Storage → Storage → Prop
  | plain {s : Storage} (h : s.elementType ≠ .str) : Roomy v s s
  | str : Roomy v (.str v.width) (.str v.width')

variable {s s' t t' : Storage}

theorem Roomy.elementType (h : s.Roomy v s') : s.elementType = s'.elementType := by
  cases h <;> rfl

theorem eq_of_plain (h : s.elementType = s'.elementType) (hs : s.elementType ≠ .str) : s = s' := by
  cases s <;> cases s' <;> first | rfl | (cases h; done) | exact (hs rfl).elim

theorem ne_str_of_read? {e : ElementType} {read : s.Cell → e.Value} (h : s.read? e = some read)
    (hs : s.elementType ≠ .str) : e ≠ .str := by
  rintro rfl
  cases s <;> first | exact hs rfl | cases h

theorem akin_self (h : s.elementType ≠ .str) (x : s.Cell) : s.Akin v s x x := by
  intro t read read' hread hread'
  obtain rfl : read = read' := Option.some.inj (hread.symm.trans hread')
  exact (Vocabulary.akin_iff_eq (ne_str_of_read? hread h)).2 rfl

theorem eq_of_akin (hs : s.elementType ≠ .str) {x y : s.Cell} (h : s.Akin v s x y) : x = y := by
  cases s with
  | bool => exact h .bool _ _ rfl rfl
  | int => exact h .int _ _ rfl rfl
  | long => exact h .long _ _ rfl rfl
  | float => exact h .float _ _ rfl rfl
  | double => exact h .double _ _ rfl rfl
  | complex => exact h .complex _ _ rfl rfl
  | str => exact (hs rfl).elim

theorem akin_str {m n : Nat} {x : Vector UInt8 m} {y : Vector UInt8 n}
    (h : v.Akin .str x.toList y.toList) : (Storage.str m).Akin v (.str n) x y := by
  intro t read read' hread hread'
  cases t <;> cases hread
  cases hread'
  exact h

theorem ne_str_of_write? {e : ElementType} {write : e.Value → s.Cell}
    (h : s.write? e = some write) (hs : s.elementType ≠ .str) : e ≠ .str := by
  rintro rfl
  cases s <;> first | exact hs rfl | cases h

/-- What is written to a result can be read from it. -/
theorem Roomy.akin_write {e : ElementType} {write : e.Value → s.Cell} {write' : e.Value → s'.Cell}
    (h : s.Roomy v s') (hwrite : s.write? e = some write) (hwrite' : s'.write? e = some write')
    {x y : e.Value} (hxy : v.Akin e x y) : s.Akin v s' (write x) (write' y) := by
  cases h with
  | plain hs =>
    obtain rfl := (Vocabulary.akin_iff_eq (ne_str_of_write? hwrite hs)).1 hxy
    obtain rfl : write = write' := Option.some.inj (hwrite.symm.trans hwrite')
    exact akin_self hs _
  | str =>
    cases e <;> cases hwrite
    cases hwrite'
    exact akin_str (Vocabulary.Akin.padded hxy)

/-- Strings without a byte are alike at widths that results have. -/
theorem akin_zero (htype : s.elementType = s'.elementType) (h : s.stringWidth ≤ v.width)
    (h' : s'.stringWidth ≤ v.width') : s.Akin v s' s.zero s'.zero := by
  by_cases hs : s.elementType = .str
  · cases s <;> cases hs
    cases s' <;> cases htype
    have htrim : ∀ n, Text.trimPadding (Vector.replicate n (0 : UInt8)).toList = [] := fun n => by
      rw [Vector.toList_replicate]
      exact Text.trimPadding_append_zeros [] n
    refine akin_str ⟨(htrim _).trans (htrim _).symm, ?_, ?_, ?_⟩
    · exact (htrim _).symm ▸ v.empty
    · exact Nat.le_trans (Nat.le_of_eq Vector.length_toList) h
    · exact Nat.le_trans (Nat.le_of_eq Vector.length_toList) h'
  · obtain rfl := eq_of_plain htype hs
    exact akin_self hs _

theorem Roomy.akin_zero (h : s.Roomy v s') : s.Akin v s' s.zero s'.zero := by
  cases h with
  | plain hs => exact akin_self hs _
  | str => exact Storage.akin_zero rfl (Nat.le_refl _) (Nat.le_refl _)

theorem isSome_copy? (s t : Storage) :
    (s.copy? t).isSome = decide (s.elementType = t.elementType) := by
  cases s <;> cases t <;> rfl

theorem exists_of_copy? {type : ElementType} (htype : s.elementType = type)
    {copy : s.Cell → t.Cell} (h : s.copy? t = some copy) :
    ∃ read write, s.read? type = some read ∧ t.write? type = some write ∧
      write ∘ read = copy := by
  subst htype
  obtain ⟨_, -, h⟩ := Option.bind_eq_some_iff.1 h
  obtain ⟨read, hread, h⟩ := Option.bind_eq_some_iff.1 h
  obtain ⟨write, hwrite, h⟩ := Option.bind_eq_some_iff.1 h
  exact ⟨read, write, hread, hwrite, Option.some.inj h⟩

/-- An element moves to a result whole. -/
theorem Roomy.akin_copy {copy : s.Cell → t.Cell} {copy' : s'.Cell → t'.Cell} (h : t.Roomy v t')
    (hs : s.elementType = s'.elementType) (hcopy : s.copy? t = some copy)
    (hcopy' : s'.copy? t' = some copy') {x : s.Cell} {y : s'.Cell} (hxy : s.Akin v s' x y) :
    t.Akin v t' (copy x) (copy' y) := by
  obtain ⟨read, write, hread, hwrite, rfl⟩ := exists_of_copy? hs hcopy
  obtain ⟨read', write', hread', hwrite', rfl⟩ := exists_of_copy? rfl hcopy'
  exact h.akin_write hwrite hwrite' (hxy _ _ _ hread hread')

end Storage

/-! ## Columns -/

/-- Columns with the same elements, strings maybe at two widths. -/
structure Column.Akin (v : Vocabulary) (c d : Column) : Prop where
  elementType : c.elementType = d.elementType
  cells : ∀ i : Nat, Option.Rel (c.storage.Akin v d.storage) c.cells[i]? d.cells[i]?

theorem Column.akin_mk {s s' : Storage} {xs : Array s.Cell} {ys : Array s'.Cell}
    (h : s.elementType = s'.elementType)
    (hcells : ∀ i : Nat, Option.Rel (s.Akin v s') xs[i]? ys[i]?) :
    Column.Akin v ⟨s, xs⟩ ⟨s', ys⟩ :=
  ⟨h, hcells⟩

/-- Columns that hold results. -/
structure Column.Held (v : Vocabulary) (c d : Column) : Prop extends c.Akin v d where
  roomy : c.storage.Roomy v d.storage

namespace Column

variable {c d src src' : Column}

theorem akin_self (h : c.elementType ≠ .str) : c.Akin v c := by
  refine ⟨rfl, fun i => ?_⟩
  cases c.cells[i]? with
  | none => exact .none
  | some x => exact .some (Storage.akin_self h x)

theorem held_self (h : c.elementType ≠ .str) : c.Held v c :=
  ⟨akin_self h, .plain h⟩

theorem Akin.size_eq (h : c.Akin v d) : c.size = d.size :=
  size_eq_of_rel (R := fun _ => _) h.cells

/-- Columns of other types are the same. -/
theorem Akin.eq_of_plain (h : c.Akin v d) (hc : c.elementType ≠ .str) : c = d := by
  obtain ⟨s, xs⟩ := c
  obtain ⟨s', ys⟩ := d
  obtain rfl : s = s' := Storage.eq_of_plain h.elementType hc
  congr 1
  refine Array.ext h.size_eq fun i hi hi' => ?_
  have hcell := h.cells i
  rw [Array.getElem?_eq_getElem hi, Array.getElem?_eq_getElem hi'] at hcell
  cases hcell with
  | some hcell => exact Storage.eq_of_akin hc hcell

/-! ### Reading -/

theorem Akin.read? (h : c.Akin v d) (t : ElementType) :
    Option.Rel (fun read read' => ∀ x y, c.storage.Akin v d.storage x y →
      v.Akin t (read x) (read' y)) (c.storage.read? t) (d.storage.read? t) := by
  refine rel_of_isSome_eq ?_ fun read read' hread hread' x y hxy => hxy t read read' hread hread'
  rw [Storage.isSome_read?, Storage.isSome_read?]
  exact congrArg (ElementType.accepts · t) h.elementType

theorem Held.write? (h : c.Held v d) (t : ElementType) :
    Option.Rel (fun write write' => ∀ x y, v.Akin t x y →
      c.storage.Akin v d.storage (write x) (write' y))
      (c.storage.write? t) (d.storage.write? t) := by
  refine rel_of_isSome_eq ?_ fun write write' hwrite hwrite' x y hxy =>
    h.roomy.akin_write hwrite hwrite' hxy
  rw [Storage.isSome_write?, Storage.isSome_write?, h.roomy.elementType]

theorem Akin.values? (h : c.Akin v d) (t : ElementType) :
    Option.Rel (fun f g => ∀ i, Option.Rel (v.Akin t) (f i) (g i)) (c.values? t) (d.values? t) := by
  exact rel_bind (h.read? t) fun read read' hread => .some fun i => rel_map (h.cells i) hread

theorem Akin.slice (h : c.Akin v d) (start stop : Nat) :
    (c.slice start stop).Akin v (d.slice start stop) := by
  have hsize : c.cells.size = d.cells.size := h.size_eq
  refine akin_mk h.elementType fun i => ?_
  rw [Array.getElem?_extract, Array.getElem?_extract, hsize]
  split
  · exact h.cells _
  · exact .none

theorem Akin.head (h : c.Akin v d) (n : Nat) : (c.head n).Akin v (d.head n) :=
  h.slice 0 n

theorem Held.slice (h : c.Held v d) (start stop : Nat) :
    (c.slice start stop).Held v (d.slice start stop) :=
  ⟨h.toAkin.slice start stop, h.roomy⟩

theorem Held.head (h : c.Held v d) (n : Nat) : (c.head n).Held v (d.head n) :=
  h.slice 0 n

theorem Held.chunks (h : c.Held v d) (n : Nat) :
    List.Forall₂ (Held v) (c.chunks n) (d.chunks n) := by
  simp only [Column.chunks, h.toAkin.size_eq]
  refine List.forall₂_map_left_iff.2 (List.forall₂_map_right_iff.2 (List.forall₂_same.2 ?_))
  exact fun k _ => h.slice _ _

/-! ### Writing -/

theorem akin_replicate {s s' : Storage} {cell : Unit → s.Cell} {cell' : Unit → s'.Cell} (len : Nat)
    (htype : s.elementType = s'.elementType) (h : s.Akin v s' (cell ()) (cell' ())) :
    (replicate s len cell).Akin v (replicate s' len cell') := by
  refine akin_mk htype fun i => ?_
  split
  · exact .none
  · rw [Array.getElem?_replicate, Array.getElem?_replicate]
    split
    · exact .some h
    · exact .none

theorem Held.fresh {s s' : Storage} (h : s.Roomy v s') (len : Nat) :
    (Column.fresh s len).Held v (Column.fresh s' len) :=
  ⟨akin_replicate len h.elementType h.akin_zero, h⟩

theorem Held.revise? (h : c.Held v d) (n : Nat) {t : ElementType} {f g : Nat → t.Value → t.Value}
    (hfg : ∀ i x y, v.Akin t x y → v.Akin t (f i x) (g i y)) :
    Option.Rel (Held v) (c.revise? n t f) (d.revise? n t g) := by
  refine rel_bind (h.toAkin.read? t) fun read read' hread => ?_
  refine rel_bind (h.write? t) fun write write' hwrite => .some ⟨akin_mk h.elementType ?_, h.roomy⟩
  intro i
  rw [Array.getElem?_mapIdx, Array.getElem?_mapIdx]
  refine rel_map (h.cells i) fun x y hxy => ?_
  split
  · exact hwrite _ _ (hfg i _ _ (hread x y hxy))
  · exact hxy

theorem rel_writeCells {α β : Type} {R : α → β → Prop} {writes : List (Nat × Option α)}
    {writes' : List (Nat × Option β)}
    (hwrites : List.Forall₂ (fun w w' => w.1 = w'.1 ∧ Option.Rel R w.2 w'.2) writes writes')
    {xs : Array α} {ys : Array β} (h : ∀ i : Nat, Option.Rel R xs[i]? ys[i]?) :
    (∀ i : Nat, Option.Rel R (writeCells xs writes).1[i]? (writeCells ys writes').1[i]?) ∧
      (writeCells xs writes).2 = (writeCells ys writes').2 := by
  induction hwrites generalizing xs ys with
  | nil => exact ⟨h, rfl⟩
  | @cons w w' _ _ hw _ ih =>
    obtain ⟨i, x⟩ := w
    obtain ⟨j, y⟩ := w'
    dsimp only at hw
    obtain ⟨rfl, hxy⟩ := hw
    cases hxy with
    | none => exact ⟨h, rfl⟩
    | some hxy =>
      simp only [writeCells, size_eq_of_rel (R := fun _ => _) h]
      split
      · refine ih fun j => ?_
        rw [Array.getElem?_set, Array.getElem?_set]
        split
        · exact .some hxy
        · exact h j
      · exact ⟨h, rfl⟩

/-- Elements that are copied from columns that are alike are alike. -/
def Receives (v : Vocabulary) (c d src src' : Column) : Prop :=
  Option.Rel (fun copy copy' => ∀ x y, src.storage.Akin v src'.storage x y →
      c.storage.Akin v d.storage (copy x) (copy' y))
    (src.storage.copy? c.storage) (src'.storage.copy? d.storage)

theorem Held.receives (h : c.Held v d) (hsrc : src.Akin v src') : Receives v c d src src' := by
  refine rel_of_isSome_eq ?_ fun copy copy' hcopy hcopy' x y hxy =>
    h.roomy.akin_copy hsrc.elementType hcopy hcopy' hxy
  have hfrom : src.storage.elementType = src'.storage.elementType := hsrc.elementType
  rw [Storage.isSome_copy?, Storage.isSome_copy?, hfrom, h.roomy.elementType]

/-- A column as wide as another takes its strings whole. -/
theorem receives_same (h : src.storage = c.storage) (h' : src'.storage = d.storage) :
    Receives v c d src src' := by
  obtain ⟨s, xs⟩ := c
  obtain ⟨s', ys⟩ := d
  obtain ⟨_, zs⟩ := src
  obtain ⟨_, zs'⟩ := src'
  cases h
  cases h'
  simp only [Receives, Storage.copy?_self]
  exact .some fun _ _ hxy => hxy

theorem Akin.gather (h : c.Akin v d) (hcopy : Receives v c d src src') (hsrc : src.Akin v src')
    (offsets : List Nat) : (c.gather src offsets).1.Akin v (d.gather src' offsets).1 ∧
      (c.gather src offsets).2 = (d.gather src' offsets).2 := by
  unfold Receives at hcopy
  unfold Column.gather
  generalize src.storage.copy? c.storage = x at hcopy ⊢
  generalize src'.storage.copy? d.storage = y at hcopy ⊢
  cases hcopy with
  | none => exact ⟨h, rfl⟩
  | @some copy copy' hcopy =>
    have hwrites : List.Forall₂
        (fun w w' => w.1 = w'.1 ∧ Option.Rel (c.storage.Akin v d.storage) w.2 w'.2)
        ((offsets.take c.size).zipIdx.map fun w => (w.2, src.cells[w.1]?.map copy))
        ((offsets.take d.size).zipIdx.map fun w => (w.2, src'.cells[w.1]?.map copy')) := by
      rw [h.size_eq, List.forall₂_map_left_iff, List.forall₂_map_right_iff]
      exact List.forall₂_same.2 fun w _ => ⟨rfl, rel_map (hsrc.cells w.1) hcopy⟩
    obtain ⟨hcells, hdone⟩ := rel_writeCells hwrites h.cells
    exact ⟨akin_mk h.elementType hcells, hdone⟩

theorem Held.gather (h : c.Held v d) (hsrc : src.Akin v src') (offsets : List Nat) :
    (c.gather src offsets).1.Held v (d.gather src' offsets).1 ∧
      (c.gather src offsets).2 = (d.gather src' offsets).2 := by
  obtain ⟨hakin, hdone⟩ := h.toAkin.gather (h.receives hsrc) hsrc offsets
  refine ⟨⟨hakin, ?_⟩, hdone⟩
  rw [(alike_gather c src offsets).storage, (alike_gather d src' offsets).storage]
  exact h.roomy

/-- Where all elements are there, a copy only fails because of the types. -/
theorem fault_of_lt {other : Column} {role : OffsetRole} {offsets : List Nat}
    (h : ∀ o ∈ offsets, o < c.size) :
    c.fault other role offsets = .misuse (.offsetOutside role) := by
  have hnone : offsets.find? (c.size ≤ ·) = none := by
    rw [List.find?_eq_none]
    exact fun o ho => by simpa using h o ho
  unfold fault
  split
  · next hfound => cases hnone.symm.trans hfound
  · rfl

/-- Elements are collected in columns as wide as their own. -/
theorem Akin.collect (h : c.Akin v d) (hstorage : src.storage = c.storage)
    (hstorage' : src'.storage = d.storage) (hsrc : src.Akin v src') {offsets : List Nat}
    (hin : ∀ o ∈ offsets, o < src.size) :
    Concur (Akin v) (c.collect src offsets) (d.collect src' offsets) := by
  have hgather := h.gather (receives_same hstorage hstorage') hsrc offsets
  have htake (m : Nat) : ∀ o ∈ offsets.take m, o < src.size := fun o ho =>
    hin o (List.mem_of_mem_take ho)
  unfold Column.collect
  rw [fault_of_lt (htake _), fault_of_lt (hsrc.size_eq ▸ htake _)]
  generalize c.gather src offsets = x at hgather ⊢
  generalize d.gather src' offsets = y at hgather ⊢
  dsimp only
  rw [hgather.2]
  split
  · exact .ok hgather.1
  · exact .error _

theorem Held.scatter (h : c.Held v d) (hsrc : src.Akin v src') (offsets : List Nat) :
    (c.scatter src offsets).1.Held v (d.scatter src' offsets).1 ∧
      (c.scatter src offsets).2 = (d.scatter src' offsets).2 := by
  have hcopy := h.receives hsrc
  unfold Receives at hcopy
  unfold Column.scatter
  generalize src.storage.copy? c.storage = x at hcopy ⊢
  generalize src'.storage.copy? d.storage = y at hcopy ⊢
  cases hcopy with
  | none => exact ⟨h, rfl⟩
  | @some copy copy' hcopy =>
    have hwrites : List.Forall₂
        (fun w w' => w.1 = w'.1 ∧ Option.Rel (c.storage.Akin v d.storage) w.2 w'.2)
        ((offsets.zip src.cells.toList).map fun w => (w.1, some (copy w.2)))
        ((offsets.zip src'.cells.toList).map fun w => (w.1, some (copy' w.2))) := by
      rw [List.forall₂_map_left_iff, List.forall₂_map_right_iff]
      exact (forall₂_zip offsets (forall₂_toList_of_rel hsrc.cells)).imp
        fun w w' hw => ⟨hw.1, .some (hcopy _ _ hw.2)⟩
    obtain ⟨hcells, hdone⟩ := rel_writeCells hwrites h.cells
    exact ⟨⟨akin_mk h.elementType hcells, h.roomy⟩, hdone⟩

theorem Held.write (h : c.Held v d) (start : Nat) (hsrc : src.Akin v src') :
    (c.write start src).1.Held v (d.write start src').1 ∧
      (c.write start src).2 = (d.write start src').2 := by
  unfold Column.write
  rw [hsrc.size_eq]
  exact h.scatter hsrc _

end Column

/-! ## Rules over columns -/

theorem Values.rel_ofColumns? {cs ds : List Column} (h : List.Forall₂ (Column.Akin v) cs ds)
    (ts : List ElementType) :
    Option.Rel (fun f g => ∀ i, Option.Rel (Values.Akin v) (f i) (g i))
      (ofColumns? ts cs) (ofColumns? ts ds) := by
  induction ts generalizing cs ds with
  | nil =>
    cases h with
    | nil => exact .some fun _ => .some trivial
    | cons => exact .none
  | cons t ts ih =>
    cases h with
    | nil => exact .none
    | cons hcd hrest =>
      refine rel_bind (hcd.values? t) fun f g hfg => rel_bind (ih hrest) fun fs gs hrest => ?_
      exact .some fun i => rel_bind (hfg i) fun x y hxy => rel_bind (hrest i) fun xs ys hxys =>
        .some ⟨hxy, hxys⟩

/-- **A rule does the same to columns of either width.** -/
theorem Rule.Natural.onColumns? {rule : Rule} (hrule : rule.Natural v) (mode : Accumulation)
    (n : Nat) {cs ds : List Column} (hsources : List.Forall₂ (Column.Akin v) cs ds)
    {c d : Column} (htarget : c.Held v d) :
    Option.Rel (Column.Held v) (rule.onColumns? mode n cs c) (rule.onColumns? mode n ds d) := by
  cases rule with
  | map arguments result f =>
    refine rel_bind (Values.rel_ofColumns? hsources arguments) fun lanes lanes' hlanes => ?_
    exact htarget.revise? n fun i x y hxy => rel_getD (rel_map (hlanes i) hrule) hxy
  | fold t combine =>
    have ht : t ≠ .str := hrule
    cases hsources with
    | nil => exact .none
    | cons hcd hrest =>
      cases hrest with
      | cons => exact .none
      | nil =>
        -- no fold is over strings, so both sides see the same lanes
        refine rel_bind (hcd.values? t) fun lanes lanes' hlanes => ?_
        obtain rfl : lanes = lanes' := funext fun i => by
          have hlane := hlanes i
          generalize lanes i = x at hlane ⊢
          generalize lanes' i = y at hlane ⊢
          cases hlane with
          | none => rfl
          | some h => rw [(Vocabulary.akin_iff_eq ht).1 h]
        have hsame : ∀ f : Nat → t.Value → t.Value, ∀ i x y, v.Akin t x y →
            v.Akin t (f i x) (f i y) := by
          intro f i x y hxy
          rw [(Vocabulary.akin_iff_eq ht).1 hxy, Vocabulary.akin_iff_eq ht]
        rw [hcd.size_eq]
        cases mode with
        | single => exact htarget.revise? n (hsame _)
        | lanewise => exact htarget.revise? n (hsame _)

end Lanewise
