import Mathlib.Data.List.Forall2
import Lanewise.Rule.Columns
import Lanewise.Kernel
import Lanewise.Program.Walk

/-!
# The machine of one lane

What a program means for a single element. Each register of this machine holds
at most one stored element, and an instruction turns the elements of its sources
into the element of its destination. There are no blocks, columns or buffers.

A register that was not written holds nothing, and to read it is an error. A run
that goes well with some registers unset goes the same way whatever they hold
(`Lanes.Below.run`): this is why a program that writes its registers before it
reads them does not depend on what an earlier block left there.
-/

namespace Lanewise

instance : (t : ElementType) → DecidableEq t.Value
  | .bool => inferInstanceAs (DecidableEq Bool)
  | .int => inferInstanceAs (DecidableEq Int32)
  | .long => inferInstanceAs (DecidableEq Int64)
  | .float => inferInstanceAs (DecidableEq Single)
  | .double => inferInstanceAs (DecidableEq Double)
  | .complex => inferInstanceAs (DecidableEq Complex)
  | .str => inferInstanceAs (DecidableEq (List UInt8))

/-- One register of the machine: how it stores an element, and the element once
there is one. -/
structure Lane where
  storage : Storage
  cell? : Option storage.Cell

namespace Lane

/-- A register that was not written. -/
def unset (s : Storage) : Lane := ⟨s, none⟩

/-- A register that holds a fresh element. -/
def fresh (s : Storage) : Lane := ⟨s, some s.zero⟩

/-- The element as a value of a type, if there is one and it can be read so. -/
def read? (l : Lane) (t : ElementType) : Option t.Value := do
  let read ← l.storage.read? t
  return read (← l.cell?)

/-- Store a value of a type, if it can be stored. -/
def write? (l : Lane) (t : ElementType) (value : t.Value) : Option Lane := do
  let write ← l.storage.write? t
  return ⟨l.storage, some (write value)⟩

end Lane

/-- The element that a column holds at a position. -/
def Column.lane (c : Column) (i : Nat) : Lane := ⟨c.storage, c.cells[i]?⟩

/-- The values of several registers, each read as the type at its position. -/
def Values.ofLanes? : (ts : List ElementType) → List Lane → Option (Values ts)
  | [], [] => some .nil
  | t :: ts, l :: ls => do
    let first ← l.read? t
    let rest ← ofLanes? ts ls
    return .cons first rest
  | _, _ => none

/-- The registers of the machine, by index. -/
abbrev Lanes := Nat → Option Lane

/-- What an instruction computes. -/
def Instruction.rule? (inst : Instruction) : Option Rule :=
  inst.operation.rule? (inst.immediate?.getD 255)

namespace Lanes

/-- Replace a register. -/
def set (lanes : Lanes) (reg : Nat) (l : Lane) : Lanes := fun r =>
  if r = reg then some l else lanes r

/-- The registers that an instruction reads. -/
def sources? (lanes : Lanes) (inst : Instruction) : Option (List Lane) :=
  inst.sources.mapM fun reg => lanes reg.toNat

/-- Execute one instruction. Reductions combine several lanes and cannot be
executed here. -/
def execute? (lanes : Lanes) (inst : Instruction) : Option Lanes := do
  let sources ← lanes.sources? inst
  match ← inst.rule? with
  | .fold _ _ => none
  | .map arguments result f =>
    let values ← Values.ofLanes? arguments sources
    let target ← lanes inst.dest.toNat
    return lanes.set inst.dest.toNat (← target.write? result (f values))

/-- Execute instructions in order. -/
def run? (lanes : Lanes) (insts : List Instruction) : Option Lanes :=
  insts.foldlM execute? lanes

end Lanes

/-! ## The machine of a kernel -/

/-- The register of a constant: the constant stored as the type declared for it. -/
def Constant.lane? (c : Constant) (t : ElementType) (width : Nat) : Option Lane := do
  (Lane.unset (t.storage (max width c.stringWidth))).write? t (← c.value? t)

namespace Kernel

/-- The registers of a kernel before its first instruction, given the elements
of the inputs, what the output holds and what each temporary holds. The widths
are those of the string registers. -/
def lanesFrom (k : Kernel) (widths : List Nat) (inputs : List Lane) (output : Lane)
    (temporary : Nat → Storage → Lane) : Lanes :=
  fun reg =>
    match k.layout.role? reg, k.fullSignature[reg]? with
    | some .output, _ => some output
    | some .input, _ => inputs[reg - 1]?
    | some .constant, some t =>
      k.constants[reg - k.layout.firstConstant]?.bind (Constant.lane? · t (widths.getD reg 0))
    | some .temporary, some t => some (temporary reg (t.storage (widths.getD reg 0)))
    | _, _ => none

/-- The registers of a kernel with temporaries that are not written yet. -/
def lanes (k : Kernel) (widths : List Nat) (inputs : List Lane) (output : Lane) : Lanes :=
  k.lanesFrom widths inputs output fun _ s => .unset s

/-- The instructions of a kernel, up to the first fault. -/
def instructions (k : Kernel) : List Instruction :=
  (Lanewise.instructions k.program.code).1

/-- What a kernel leaves in its output register, run once on single elements. -/
def element? (k : Kernel) (widths : List Nat) (inputs : List Lane) (output : Lane) : Option Lane :=
  ((k.lanes widths inputs output).run? k.instructions).bind (· 0)

end Kernel

/-! ## Laws -/

namespace Lane

theorem read?_unset (s : Storage) (t : ElementType) : (unset s).read? t = none := by
  unfold read? unset
  cases s.read? t <;> rfl

theorem isSome_read? {l : Lane} {t : ElementType} (hcell : l.cell?.isSome)
    (haccepts : l.storage.elementType.accepts t = true) : (l.read? t).isSome := by
  obtain ⟨cell, hc⟩ := Option.isSome_iff_exists.1 hcell
  obtain ⟨read, hr⟩ := Option.isSome_iff_exists.1
    ((l.storage.isSome_read? t).trans haccepts)
  simp [read?, hc, hr]

theorem isSome_write? {l : Lane} {t : ElementType} (value : t.Value)
    (haccepts : l.storage.elementType.accepts t = true) : (l.write? t value).isSome := by
  obtain ⟨write, hw⟩ := Option.isSome_iff_exists.1
    ((l.storage.isSome_write? t).trans haccepts)
  simp [write?, hw]

/-- A write keeps the storage and leaves an element. -/
theorem of_write? {l l' : Lane} {t : ElementType} {value : t.Value}
    (h : l.write? t value = some l') : l'.storage = l.storage ∧ l'.cell?.isSome := by
  simp only [write?, Option.bind_eq_bind, Option.bind_eq_some_iff, Option.pure_def,
    Option.some.injEq] at h
  obtain ⟨_, _, rfl⟩ := h
  exact ⟨rfl, rfl⟩

/-- What a write leaves depends on the storage alone. -/
theorem write?_congr {l l' : Lane} (h : l.storage = l'.storage) {t : ElementType}
    (value : t.Value) : l.write? t value = l'.write? t value := by
  obtain ⟨s, _⟩ := l
  obtain ⟨s', _⟩ := l'
  cases h
  rfl

/-- A number that was written in its own type is read as it was. -/
theorem read?_of_write? {l l' : Lane} {t : ElementType} {value : t.Value}
    (h : l.write? t value = some l') (htype : l.storage.elementType = t) (hstr : t ≠ .str) :
    l'.read? t = some value := by
  obtain ⟨s, cell?⟩ := l
  subst htype
  cases s <;> first
    | exact absurd rfl hstr
    | · cases h
        rfl

/-- A number of its own type is all that a register holds. -/
theorem write?_of_read? {l : Lane} {t : ElementType} {value : t.Value}
    (h : l.read? t = some value) (htype : l.storage.elementType = t) (hstr : t ≠ .str) :
    l.write? t value = some l := by
  obtain ⟨s, cell?⟩ := l
  subst htype
  cases cell? with
  | none => exact nomatch (read?_unset s s.elementType).symm.trans h
  | some cell =>
    cases s <;> first
      | exact absurd rfl hstr
      | · cases h
          rfl

/-- The second register stores elements like the first one and holds the same
element, if the first one holds any. -/
def Below (l l' : Lane) : Prop :=
  l = l' ∨ l = unset l'.storage

theorem Below.refl (l : Lane) : l.Below l := .inl rfl

theorem Below.storage_eq {l l' : Lane} (h : l.Below l') : l.storage = l'.storage := by
  rcases h with rfl | rfl <;> rfl

theorem Below.unset {s : Storage} {l : Lane} (h : l.storage = s) : (unset s).Below l := by
  cases h
  exact .inr rfl

theorem Below.eq_of_isSome {l l' : Lane} (h : l.Below l') (hcell : l.cell?.isSome) : l = l' := by
  rcases h with rfl | rfl
  · rfl
  · cases hcell

theorem Below.read? {l l' : Lane} (h : l.Below l') {t : ElementType} {value : t.Value}
    (hread : l.read? t = some value) : l'.read? t = some value := by
  rcases h with rfl | rfl
  · exact hread
  · rw [read?_unset] at hread
    cases hread

end Lane

theorem Values.ofLanes?_below {ts : List ElementType} {ls ls' : List Lane}
    (h : List.Forall₂ Lane.Below ls ls') {values : Values ts}
    (hvalues : ofLanes? ts ls = some values) : ofLanes? ts ls' = some values := by
  induction h generalizing ts with
  | nil => exact hvalues
  | cons hl _ ih =>
    cases ts with
    | nil => cases hvalues
    | cons t ts =>
      simp only [ofLanes?, Option.bind_eq_bind, Option.bind_eq_some_iff, Option.pure_def,
        Option.some.injEq] at hvalues ⊢
      obtain ⟨first, hfirst, rest, hrest, rfl⟩ := hvalues
      exact ⟨first, hl.read? hfirst, rest, ih hrest, rfl⟩

namespace Lanes

theorem set_self (lanes : Lanes) (reg : Nat) (l : Lane) : lanes.set reg l reg = some l := by
  simp [set]

theorem set_ne (lanes : Lanes) {reg r : Nat} (l : Lane) (h : r ≠ reg) :
    lanes.set reg l r = lanes r := by
  simp [set, h]

theorem run?_cons (lanes : Lanes) (inst : Instruction) (rest : List Instruction) :
    lanes.run? (inst :: rest) = (lanes.execute? inst).bind (run? · rest) := rfl

/-- The parts of a successful execution. -/
theorem execute?_eq_some {lanes lanes' : Lanes} {inst : Instruction}
    (h : lanes.execute? inst = some lanes') :
    ∃ sources arguments result f values target written,
      lanes.sources? inst = some sources ∧ inst.rule? = some (.map arguments result f) ∧
      Values.ofLanes? arguments sources = some values ∧ lanes inst.dest.toNat = some target ∧
      target.write? result (f values) = some written ∧
      lanes' = lanes.set inst.dest.toNat written := by
  simp only [execute?, Option.bind_eq_bind, Option.bind_eq_some_iff] at h
  obtain ⟨sources, hsources, rule, hrule, h⟩ := h
  cases rule with
  | fold t combine => cases h
  | map arguments result f =>
    simp only [Option.bind_eq_some_iff, Option.pure_def, Option.some.injEq] at h
    obtain ⟨values, hvalues, target, htarget, written, hwritten, rfl⟩ := h
    exact ⟨sources, arguments, result, f, values, target, written, hsources, hrule, hvalues,
      htarget, hwritten, rfl⟩

/-- Every register of the first machine is below that of the second. -/
def Below (a b : Lanes) : Prop :=
  ∀ reg l, a reg = some l → ∃ l', b reg = some l' ∧ l.Below l'

theorem Below.sources? {a b : Lanes} (h : a.Below b) {inst : Instruction} {sources : List Lane}
    (hsources : a.sources? inst = some sources) :
    ∃ sources', b.sources? inst = some sources' ∧ List.Forall₂ Lane.Below sources sources' := by
  unfold Lanes.sources? at hsources ⊢
  generalize inst.sources = regs at hsources ⊢
  induction regs generalizing sources with
  | nil =>
    cases hsources
    exact ⟨[], rfl, .nil⟩
  | cons reg regs ih =>
    simp only [List.mapM_cons, Option.bind_eq_bind, Option.bind_eq_some_iff, Option.pure_def,
      Option.some.injEq] at hsources ⊢
    obtain ⟨l, hl, ls, hls, rfl⟩ := hsources
    obtain ⟨l', hl', hbelow⟩ := h _ _ hl
    obtain ⟨ls', hls', hrest⟩ := ih hls
    exact ⟨l' :: ls', ⟨l', hl', ls', hls', rfl⟩, .cons hbelow hrest⟩

theorem Below.set {a b : Lanes} (h : a.Below b) (reg : Nat) (l : Lane) :
    (a.set reg l).Below (b.set reg l) := by
  intro r m hm
  by_cases hr : r = reg
  · subst hr
    rw [set_self] at hm ⊢
    exact ⟨l, rfl, by cases hm; exact .refl l⟩
  · rw [set_ne _ _ hr] at hm ⊢
    exact h r m hm

/-- An instruction that can be executed does the same over registers that hold
more. -/
theorem Below.execute {a b a' : Lanes} (h : a.Below b) {inst : Instruction}
    (ha : a.execute? inst = some a') : ∃ b', b.execute? inst = some b' ∧ a'.Below b' := by
  obtain ⟨sources, arguments, result, f, values, target, written, hsources, hrule, hvalues,
    htarget, hwritten, rfl⟩ := execute?_eq_some ha
  obtain ⟨sources', hsources', hbelow⟩ := h.sources? hsources
  obtain ⟨target', htarget', htb⟩ := h _ _ htarget
  have hvalues' := Values.ofLanes?_below hbelow hvalues
  have hwritten' : target'.write? result (f values) = some written := by
    rw [← Lane.write?_congr htb.storage_eq, hwritten]
  refine ⟨b.set inst.dest.toNat written, ?_, h.set _ _⟩
  simp [execute?, hsources', hrule, hvalues', htarget', hwritten']

theorem Below.run {a b a' : Lanes} (h : a.Below b) {insts : List Instruction}
    (ha : a.run? insts = some a') : ∃ b', b.run? insts = some b' ∧ a'.Below b' := by
  induction insts generalizing a b with
  | nil =>
    cases ha
    exact ⟨b, rfl, h⟩
  | cons inst insts ih =>
    rw [run?_cons] at ha
    obtain ⟨a₁, ha₁, ha'⟩ := Option.bind_eq_some_iff.1 ha
    obtain ⟨b₁, hb₁, h₁⟩ := h.execute ha₁
    obtain ⟨b', hb', h'⟩ := ih h₁ ha'
    exact ⟨b', by rw [run?_cons, hb₁]; exact hb', h'⟩

end Lanes

end Lanewise
