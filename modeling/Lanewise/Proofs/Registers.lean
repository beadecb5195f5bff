import Lanewise.RegisterFile
import Lanewise.Proofs.Columns
import Lanewise.Proofs.Valid

/-!
# Registers before and after a run

What a register file starts with, and what it keeps. A run replaces the elements
of the registers that its instructions write to and nothing else: no column
changes its storage or its length (`RegisterFile.After`).
-/

namespace Lanewise

theorem ElementType.accepts_trans {a b c : ElementType} (hab : a.accepts b = true)
    (hbc : b.accepts c = true) : a.accepts c = true := by
  revert hab hbc
  cases a <;> cases b <;> first | (intro h; cases h; done) | skip
  all_goals cases c <;> decide

/-! ## Roles -/

namespace RegisterLayout

variable {layout : RegisterLayout} {reg : Nat}

theorem role?_zero : layout.role? 0 = some .output := rfl

theorem role?_eq_output_iff : layout.role? reg = some .output ↔ reg = 0 := by
  unfold role?
  grind

theorem role?_eq_input_iff : layout.role? reg = some .input ↔ 0 < reg ∧ reg ≤ layout.inputs := by
  unfold role? firstConstant
  grind

theorem role?_eq_constant_iff : layout.role? reg = some .constant ↔
    layout.firstConstant ≤ reg ∧ reg - layout.firstConstant < layout.constants := by
  unfold role? firstTemporary firstConstant
  grind

/-- A register that instructions may write to and that is not the output. -/
theorem role?_of_isWritable (h : layout.isWritable reg = true) (hreg : reg ≠ 0) :
    layout.role? reg = some .temporary := by
  unfold isWritable at h
  cases hrole : layout.role? reg with
  | none => simp [hrole] at h
  | some role =>
    cases role with
    | output => exact absurd (role?_eq_output_iff.1 hrole) hreg
    | temporary => rfl
    | input => simp [hrole, RegisterRole.isWritable] at h
    | constant => simp [hrole, RegisterRole.isWritable] at h

theorem isSome_role? (h : reg < layout.size) : (layout.role? reg).isSome := by
  rw [Option.isSome_iff_ne_none, Ne, role?_eq_none_iff]
  omega

end RegisterLayout

namespace Kernel.Valid

variable {k : Kernel} {reg : Nat} {t : ElementType}

/-- A declared register has a role. -/
theorem exists_role (hk : k.Valid) (ht : k.fullSignature[reg]? = some t) :
    ∃ role, k.layout.role? reg = some role := by
  have hlt : reg < k.layout.size := by
    rw [hk.layout]
    exact (List.getElem?_eq_some_iff.1 ht).1
  exact Option.isSome_iff_exists.1 (RegisterLayout.isSome_role? hlt)

/-- The register of an input has its type. -/
theorem input_of_role (hk : k.Valid) (hrole : k.layout.role? reg = some .input)
    (ht : k.fullSignature[reg]? = some t) : k.inputSignature[reg - 1]? = some t := by
  obtain ⟨hreg, hle⟩ := RegisterLayout.role?_eq_input_iff.1 hrole
  change reg ≤ k.inputSignature.length at hle
  have hi : reg - 1 < k.inputSignature.length := by omega
  have hinput := hk.input (reg - 1) _ (List.getElem?_eq_getElem hi)
  rw [Nat.sub_add_cancel hreg, ht] at hinput
  rw [List.getElem?_eq_getElem hi, hinput]

/-- The register of a constant has a type that goes with it. -/
theorem constant_of_role (hk : k.Valid) (hrole : k.layout.role? reg = some .constant)
    (ht : k.fullSignature[reg]? = some t) :
    ∃ c, k.constants[reg - k.layout.firstConstant]? = some c ∧
      c.elementType.accepts t = true := by
  obtain ⟨hfirst, hcount⟩ := RegisterLayout.role?_eq_constant_iff.1 hrole
  have hc := List.getElem?_eq_getElem (l := k.constants) hcount
  exact ⟨_, hc, hk.constant _ _ t hc (by rwa [Nat.add_sub_cancel' hfirst])⟩

end Kernel.Valid

/-! ## Register files -/

namespace RegisterFile

/-- `new` is `old` after writes to some registers. -/
structure After (written : List Nat) (old new : RegisterFile) : Prop where
  layout : new.layout = old.layout
  size : new.size = old.size
  column : ∀ (reg : Nat) (c : Column), old.columns[reg]? = some c →
    ∃ c', new.columns[reg]? = some c' ∧ c.Alike c'
  unwritten : ∀ reg : Nat, reg ∉ written → new.columns[reg]? = old.columns[reg]?

variable {written : List Nat} {a b c : RegisterFile}

theorem After.refl (written : List Nat) (regs : RegisterFile) : regs.After written regs :=
  ⟨rfl, rfl, fun _ c h => ⟨c, h, .refl c⟩, fun _ _ => rfl⟩

theorem After.trans (hab : a.After written b) (hbc : b.After written c) : a.After written c := by
  refine ⟨hbc.layout.trans hab.layout, hbc.size.trans hab.size, ?_, ?_⟩
  · intro reg col h
    obtain ⟨col', h', halike⟩ := hab.column reg col h
    obtain ⟨col'', h'', halike'⟩ := hbc.column reg col' h'
    exact ⟨col'', h'', halike.trans halike'⟩
  · exact fun reg h => (hbc.unwritten reg h).trans (hab.unwritten reg h)

theorem After.mono {more : List Nat} (h : a.After written b) (hsub : written ⊆ more) :
    a.After more b :=
  ⟨h.layout, h.size, h.column, fun reg hreg => h.unwritten reg fun hmem => hreg (hsub hmem)⟩

theorem After.set {regs : RegisterFile} {reg : Nat} {old new : Column}
    (hold : regs.columns[reg]? = some old) (halike : old.Alike new) :
    regs.After [reg] (regs.set reg new) := by
  refine ⟨rfl, size_set _ _ _, ?_, ?_⟩
  · intro r col hcol
    simp only [RegisterFile.set, Array.getElem?_setIfInBounds]
    split
    · next heq =>
      subst heq
      obtain ⟨hlt, -⟩ := Array.getElem?_eq_some_iff.1 hold
      obtain rfl : old = col := Option.some.inj (hold.symm.trans hcol)
      exact ⟨new, by simp [hlt], halike⟩
    · exact ⟨col, hcol, .refl col⟩
  · intro r hr
    simp only [RegisterFile.set, Array.getElem?_setIfInBounds]
    rw [if_neg fun heq => hr (by simp [heq])]

/-! ## Before the first block -/

/-- The storage of a register that lives in the register file. Inputs and the
output are kept elsewhere. -/
def storage? (k : Kernel) (widths : List Nat) (reg : Nat) : Option Storage :=
  match k.layout.role? reg, k.fullSignature[reg]? with
  | some .constant, some t =>
    k.constants[reg - k.layout.firstConstant]?.map fun c =>
      t.storage (max (widths.getD reg 0) c.stringWidth)
  | some .temporary, some t => some (t.storage (widths.getD reg 0))
  | _, _ => none

theorem lt_of_storage? {k : Kernel} {widths : List Nat} {reg : Nat} {s : Storage}
    (h : storage? k widths reg = some s) : reg < k.fullSignature.length := by
  by_contra hreg
  rw [storage?, List.getElem?_eq_none (by omega)] at h
  split at h <;> simp_all

/-- What the column of a register holds before the first block: a constant in
every lane, or zeros for a temporary. -/
structure InitialColumn (k : Kernel) (widths : List Nat) (blockSize reg : Nat) (t : ElementType)
    (col : Column) : Prop where
  constant : k.layout.role? reg = some .constant →
    ∃ c, k.constants[reg - k.layout.firstConstant]? = some c ∧ col.elementType = t ∧
      col.size = blockSize ∧ ∀ i < blockSize, c.lane? t (widths.getD reg 0) = some (col.lane i)
  temporary : k.layout.role? reg = some .temporary →
    col = .fresh (t.storage (widths.getD reg 0)) blockSize

/-- The registers of a kernel before the first block. -/
structure Initial (k : Kernel) (widths : List Nat) (blockSize : Nat) (regs : RegisterFile) :
    Prop where
  layout : regs.layout = k.layout
  size : regs.size = k.fullSignature.length
  column : ∀ reg t, k.fullSignature[reg]? = some t →
    ∃ col, regs.columns[reg]? = some col ∧ InitialColumn k widths blockSize reg t col

end RegisterFile

section Room

variable [Allocator]

namespace Column

theorem reserve_eq_ok {s : Storage} {len : Nat} (h : len * s.cellSize ≤ Allocator.limit) :
    reserve s len = .ok () :=
  if_pos h

theorem zeros_eq_ok {s : Storage} {len : Nat} (h : len * s.cellSize ≤ Allocator.limit) :
    zeros s len = .ok (fresh s len) := by
  rw [zeros, reserve_eq_ok h]
  rfl

/-- A column of zeros is a fresh one. -/
theorem eq_fresh_of_zeros {s : Storage} {len : Nat} {col : Column} (h : zeros s len = .ok col) :
    col = fresh s len := by
  obtain ⟨_, -, hfresh⟩ := bind_eq_ok_iff.1 h
  exact (Except.ok.inj hfresh).symm

/-- A copy of a column is the column. -/
theorem eq_of_tryClone {c c' : Column} (h : c.tryClone = .ok c') : c' = c := by
  obtain ⟨_, -, heq⟩ := bind_eq_ok_iff.1 h
  exact (Except.ok.inj heq).symm

/-- What was laid out once can be laid out again. -/
theorem tryClone_eq_ok {c : Column} {t : ElementType} {width : Nat}
    (hstorage : c.storage = t.storage width) (hroom : reserve c.storage c.size = .ok ()) :
    c.tryClone = .ok c := by
  have hown : c.elementType.storage c.stringWidth = c.storage := by
    rw [elementType, stringWidth, hstorage, ElementType.storage_of_storage]
  rw [tryClone, hown, zeros, hroom]
  rfl

theorem tryClone_of_zeros {t : ElementType} {width len : Nat} {c : Column}
    (h : zeros (t.storage width) len = .ok c) : c.tryClone = .ok c := by
  obtain ⟨_, hroom, hfresh⟩ := bind_eq_ok_iff.1 h
  cases hfresh
  exact tryClone_eq_ok rfl (by rwa [size_fresh])

theorem tryClone_of_filled {k : Constant} {t : ElementType} {width len : Nat} {c : Column}
    (h : filled k t width len = .ok c) : c.tryClone = .ok c := by
  simp only [filled] at h
  split at h
  · obtain ⟨_, hroom, heq⟩ := bind_eq_ok_iff.1 h
    cases heq
    exact tryClone_eq_ok rfl (by rwa [size_replicate])
  · cases h

/-- What a column of a constant holds. -/
theorem of_filled {c : Constant} {t : ElementType} {width len : Nat} {col : Column}
    (h : filled c t width len = .ok col) :
    col.storage = t.storage (max width c.stringWidth) ∧ col.size = len ∧
      ∀ i < len, c.lane? t width = some (col.lane i) := by
  simp only [filled] at h
  split at h
  · next value write hvalue hwrite =>
    obtain ⟨_, -, heq⟩ := bind_eq_ok_iff.1 h
    cases heq
    refine ⟨rfl, size_replicate _ _ _, fun i hi => ?_⟩
    rw [lane_replicate _ hi]
    simp [Constant.lane?, hvalue, Lane.write?, Lane.unset, hwrite]
  · cases h

/-- A column of a constant can be laid out where there is room for it. -/
theorem filled_eq_ok {c : Constant} {t : ElementType} {width len : Nat}
    (haccepts : c.elementType.accepts t = true)
    (h : len * (t.storage (max width c.stringWidth)).cellSize ≤ Allocator.limit) :
    ∃ col, filled c t width len = .ok col ∧ col.storage = t.storage (max width c.stringWidth) ∧
      col.size = len ∧ ∀ i < len, c.lane? t width = some (col.lane i) := by
  obtain ⟨value, hvalue⟩ := Option.isSome_iff_exists.1 ((c.isSome_value? t).trans haccepts)
  obtain ⟨write, hwrite⟩ : ∃ write,
      (t.storage (max width c.stringWidth)).write? t = some write := by
    rw [← Option.isSome_iff_exists, Storage.isSome_write?, ElementType.elementType_storage]
    exact t.accepts_refl
  have hfilled : filled c t width len = .ok (replicate _ len fun _ => write value) := by
    simp only [filled, hvalue, hwrite, reserve_eq_ok h]
    rfl
  exact ⟨_, hfilled, of_filled hfilled⟩

end Column

namespace RegisterFile

variable {k : Kernel} {widths : List Nat} {blockSize : Nat}

theorem reserveTable_eq_ok {registers : Nat} (h : registers * slotSize ≤ Allocator.limit) :
    reserveTable registers = .ok () := by
  unfold reserveTable
  rw [if_pos h]
  rfl

/-- A copy of registers has the same ones. -/
theorem eq_of_tryClone {regs regs' : RegisterFile} (h : regs.tryClone = .ok regs') :
    regs' = regs := by
  obtain ⟨_, -, h⟩ := bind_eq_ok_iff.1 h
  obtain ⟨columns, hcolumns, heq⟩ := bind_eq_ok_iff.1 h
  have hsame : List.Forall₂ (· = ·) columns regs.columns.toList :=
    ((mapM_eq_ok_iff.1 hcolumns).imp fun _ _ => Column.eq_of_tryClone).flip
  rw [List.forall₂_eq_eq_eq] at hsame
  cases heq
  rw [hsame]

theorem tryClone_of_initialColumn {reg width : Nat} {t : ElementType} {col : Column}
    (h : initialColumn k blockSize reg t width = .ok col) : col.tryClone = .ok col := by
  unfold initialColumn at h
  split at h
  · exact Column.tryClone_of_filled h
  · exact Column.tryClone_of_zeros h
  · cases h
    exact @Column.tryClone_eq_ok _ .empty .bool 0 rfl (Column.reserve_eq_ok (Nat.zero_le _))

/-- Each register has the column that it starts with. -/
theorem exists_initialColumn_of_ofKernel {regs : RegisterFile}
    (h : ofKernel k widths blockSize = .ok regs) {reg : Nat} {c : Column}
    (hc : regs.columns[reg]? = some c) :
    ∃ t, initialColumn k blockSize reg t (widths.getD reg 0) = .ok c := by
  obtain ⟨_, -, h⟩ := bind_eq_ok_iff.1 h
  obtain ⟨_, -, h⟩ := bind_eq_ok_iff.1 h
  obtain ⟨columns, hcolumns, heq⟩ := bind_eq_ok_iff.1 h
  cases heq
  obtain ⟨hlt, rfl⟩ := List.getElem?_eq_some_iff.1 (by simpa using hc)
  have hspec := List.forall₂_iff_get.1 (mapM_eq_ok_iff.1 hcolumns)
  have hcolumn := hspec.2 reg (hspec.1 ▸ hlt) hlt
  simp only [List.get_eq_getElem, List.getElem_zipIdx, Nat.zero_add] at hcolumn
  exact ⟨_, hcolumn⟩

/-- Registers whose columns can be cloned are cloned as they are, where there is room for the
table. -/
theorem tryClone_eq {regs : RegisterFile}
    (h : ∀ (reg : Nat) (c : Column), regs.columns[reg]? = some c → c.tryClone = .ok c) :
    regs.tryClone = reserveTable regs.size >>= fun _ => .ok regs := by
  have hcolumns : regs.columns.toList.mapM Column.tryClone = .ok regs.columns.toList := by
    rw [mapM_eq_ok_iff, List.forall₂_same]
    intro c hc
    obtain ⟨reg, hreg⟩ := List.mem_iff_getElem?.1 hc
    exact h reg c (by simpa using hreg)
  rw [tryClone, hcolumns]
  cases reserveTable regs.size <;> rfl

/-- Registers that were laid out can be copied where there is room for the table. -/
theorem tryClone_of_ofKernel {regs : RegisterFile} (h : ofKernel k widths blockSize = .ok regs) :
    regs.tryClone = reserveTable regs.size >>= fun _ => .ok regs := by
  refine tryClone_eq fun reg c hc => ?_
  obtain ⟨t, hinitial⟩ := exists_initialColumn_of_ofKernel h hc
  exact tryClone_of_initialColumn hinitial

/-- A valid kernel has as many registers as there was room for. -/
theorem reserveTable_of_ofKernel (hk : k.Valid) {regs : RegisterFile}
    (h : ofKernel k widths blockSize = .ok regs) : reserveTable regs.size = .ok () := by
  obtain ⟨_, hcount, h⟩ := bind_eq_ok_iff.1 h
  obtain ⟨_, htable, h⟩ := bind_eq_ok_iff.1 h
  obtain ⟨columns, hcolumns, heq⟩ := bind_eq_ok_iff.1 h
  cases heq
  obtain rfl := Option.some.inj ((counted_eq_ok_iff.1 hcount).symm.trans hk.count?)
  have hlength : columns.length = k.layout.size := by
    rw [← (mapM_eq_ok_iff.1 hcolumns).length_eq, List.length_zipIdx, hk.layout]
  rw [← hlength] at htable
  exact htable

/-- A column that was laid out holds what its register starts with. -/
theorem initialColumn_spec {reg : Nat} {t : ElementType} {col : Column}
    (h : initialColumn k blockSize reg t (widths.getD reg 0) = .ok col) :
    InitialColumn k widths blockSize reg t col := by
  constructor
  · intro hrole
    have hc := List.getElem?_eq_getElem (l := k.constants)
      (RegisterLayout.role?_eq_constant_iff.1 hrole).2
    simp only [initialColumn, hrole, hc] at h
    obtain ⟨hstorage, hsize, hlane⟩ := Column.of_filled h
    refine ⟨_, hc, ?_, hsize, hlane⟩
    rw [Column.elementType, hstorage, ElementType.elementType_storage]
  · intro hrole
    simp only [initialColumn, hrole] at h
    exact Column.eq_fresh_of_zeros h

theorem exists_initialColumn (hk : k.Valid)
    (hroom : ∀ reg s, storage? k widths reg = some s →
      blockSize * s.cellSize ≤ Allocator.limit)
    {reg : Nat} {t : ElementType} (ht : k.fullSignature[reg]? = some t) :
    ∃ col, initialColumn k blockSize reg t (widths.getD reg 0) = .ok col := by
  obtain ⟨role, hrole⟩ := hk.exists_role ht
  cases role with
  | output => exact ⟨.empty, by simp [initialColumn, hrole]⟩
  | input => exact ⟨.empty, by simp [initialColumn, hrole]⟩
  | temporary =>
    have hr := hroom reg (t.storage (widths.getD reg 0)) (by simp only [storage?, hrole, ht])
    simp only [initialColumn, hrole]
    exact ⟨_, Column.zeros_eq_ok hr⟩
  | constant =>
    obtain ⟨c, hc, haccepts⟩ := hk.constant_of_role hrole ht
    have hr := hroom reg _ (by simp only [storage?, hrole, ht, hc]; rfl)
    obtain ⟨col, hcol, -⟩ := Column.filled_eq_ok haccepts hr
    exact ⟨col, by simp only [initialColumn, hrole, hc, hcol]⟩

/-- Registers that were laid out are those before the first block. -/
theorem initial_of_ofKernel {regs : RegisterFile} (h : ofKernel k widths blockSize = .ok regs) :
    regs.Initial k widths blockSize := by
  obtain ⟨_, -, h⟩ := bind_eq_ok_iff.1 h
  obtain ⟨_, -, h⟩ := bind_eq_ok_iff.1 h
  obtain ⟨columns, hcolumns, heq⟩ := bind_eq_ok_iff.1 h
  cases heq
  have hspec := mapM_eq_ok_iff.1 hcolumns
  have hlength : columns.length = k.fullSignature.length := by
    rw [← hspec.length_eq, List.length_zipIdx]
  refine ⟨rfl, by simpa [size] using hlength, fun reg t ht => ?_⟩
  obtain ⟨hlt, rfl⟩ := List.getElem?_eq_some_iff.1 ht
  have hcolumn := (List.forall₂_iff_get.1 hspec).2 reg (by simpa using hlt) (by omega)
  simp only [List.get_eq_getElem, List.getElem_zipIdx, Nat.zero_add] at hcolumn
  exact ⟨columns[reg], by simp [hlength, hlt], initialColumn_spec hcolumn⟩

/-- The registers of a valid kernel can be laid out where there is room for a table of
them and for each of them. -/
theorem exists_initial (hk : k.Valid) (htable : k.layout.size * slotSize ≤ Allocator.limit)
    (hroom : ∀ reg s, storage? k widths reg = some s →
      blockSize * s.cellSize ≤ Allocator.limit) :
    ∃ regs, ofKernel k widths blockSize = .ok regs ∧ regs.Initial k widths blockSize := by
  obtain ⟨columns, hcolumns, -⟩ := exists_mapM_eq_ok k.fullSignature.zipIdx
    (f := fun x => initialColumn k blockSize x.2 x.1 (widths.getD x.2 0)) (P := fun _ _ => True)
    fun x hmem => by
      obtain ⟨col, hcol⟩ := exists_initialColumn hk hroom (List.mem_zipIdx_iff_getElem?.1 hmem)
      exact ⟨col, hcol, trivial⟩
  have hregs : ofKernel k widths blockSize = .ok ⟨k.layout, columns.toArray, blockSize⟩ :=
    bind_eq_ok_iff.2 ⟨_, counted_eq_ok_iff.2 hk.count?,
      bind_eq_ok_iff.2 ⟨(), reserveTable_eq_ok htable,
        bind_eq_ok_iff.2 ⟨columns, hcolumns, rfl⟩⟩⟩
  exact ⟨_, hregs, initial_of_ofKernel hregs⟩

end RegisterFile

end Room

end Lanewise
