import Lanewise.Proofs.PaddedEvaluations

/-!
# String widths

At which width the strings of an input are stored does not show in the result of an
evaluation, and no string is cut off on its way there (`Engine.evaluate_widen`). What a
larger width does need is memory, and an evaluation can be refused that
(`Engine.not_evaluate_widen`).
-/

namespace Lanewise

/-! ## The same items -/

/-- The column with more NULs behind its strings: they get the given width, unless they are
wider already. -/
def Column.widen (width : Nat) : Column → Column
  | ⟨.str w, cells⟩ =>
    ⟨.str (max w width), cells.map fun bytes => Text.padded (max w width) (Vector.toList bytes)⟩
  | c => c

def NdArray.widen (width : Nat) (a : NdArray) : NdArray :=
  { a with data := a.data.widen width }

/-- Arrays with the same elements. Strings are compared without their padding. -/
structure NdArray.SameItems (a b : NdArray) : Prop where
  shape : a.shape = b.shape
  elementType : a.elementType = b.elementType
  size : a.size = b.size
  plain : a.elementType ≠ .str → a = b
  strings : ∀ i, a.stringAt? i = b.stringAt? i

/-! ## Strings at a larger width -/

namespace Column

variable {v : Vocabulary} {c : Column} {width : Nat}

theorem stringWidth_le_widen (c : Column) (width : Nat) :
    c.stringWidth ≤ (c.widen width).stringWidth := by
  obtain ⟨s, cells⟩ := c
  cases s with
  | str w => exact Nat.le_max_left w width
  | _ => exact Nat.le_refl 0

/-- Strings that are as wide already stay as they are. -/
theorem widen_of_le (h : width ≤ c.stringWidth) : c.widen width = c := by
  obtain ⟨s, cells⟩ := c
  cases s with
  | str w =>
    have hsame : ∀ n, w = n →
        (⟨.str n, cells.map fun bytes => Text.padded n (Vector.toList bytes)⟩ : Column)
          = ⟨.str w, cells⟩ := by
      rintro n rfl
      have hcells : ∀ cells : Array (Vector UInt8 w),
          (cells.map fun bytes => Text.padded w bytes.toList) = cells := fun cells => by
        rw [funext Text.padded_toList, Array.map_id']
      exact congrArg (Column.mk (.str w)) (hcells cells)
    exact hsame _ (Nat.max_eq_left h).symm
  | _ => rfl

/-- The items stay the same. -/
theorem akin_widen (hhas : ∀ i s, (⟨c, []⟩ : NdArray).stringAt? i = some s → v.Has s)
    (hwidth : c.stringWidth ≤ v.width) (hwidth' : (c.widen width).stringWidth ≤ v.width') :
    c.Akin v (c.widen width) := by
  obtain ⟨s, cells⟩ := c
  cases s with
  | str w =>
    let fill : (Storage.str w).Cell → (Storage.str (max w width)).Cell :=
      fun bytes => Text.padded (max w width) (Vector.toList bytes)
    have hcell : ∀ i : Nat, Option.Rel ((Storage.str w).Akin v (.str (max w width))) cells[i]?
        (cells.map fill)[i]? := by
      intro i
      rw [Array.getElem?_map]
      cases hbytes : cells[i]? with
      | none => exact .none
      | some bytes =>
        have hstring : (⟨⟨.str w, cells⟩, []⟩ : NdArray).stringAt? i
            = some (Text.trimPadding (Vector.toList bytes)) := by
          have hread : (cells[i]?.map Vector.toList).bind (fun s => some (Text.trimPadding s))
              = some (Text.trimPadding (Vector.toList bytes)) := by
            rw [hbytes]
            rfl
          exact hread
        have hfits : (Vector.toList bytes).length ≤ max w width :=
          Nat.le_trans (Nat.le_of_eq Vector.length_toList) (Nat.le_max_left w width)
        refine .some (Storage.akin_str ⟨?_, hhas i _ hstring, ?_, ?_⟩)
        · exact (Text.trimPadding_padded hfits).symm
        · exact Nat.le_trans (Nat.le_of_eq Vector.length_toList) hwidth
        · exact Nat.le_trans (Nat.le_of_eq Vector.length_toList) hwidth'
    exact akin_mk rfl hcell
  | _ => exact akin_self nofun

end Column

theorem NdArray.widen_zero (a : NdArray) : a.widen 0 = a := by
  rw [widen, Column.widen_of_le (Nat.zero_le _)]

/-- A string that an input or a constant brings along, without its padding. -/
def Kernel.Brings (k : Kernel) (inputs : List NdArray) (s : List UInt8) : Prop :=
  (∃ a ∈ inputs, ∃ i, a.stringAt? i = some s) ∨
    ∃ bytes, Constant.str bytes ∈ k.constants ∧ s = Text.trimPadding bytes

/-- The vocabulary of two evaluations of a kernel. -/
def Kernel.vocabulary (k : Kernel) (inputs inputs' : List NdArray) : Vocabulary where
  width := max (k.widestString (inputs.map NdArray.stringWidth)) 1
  width' := max (k.widestString (inputs'.map NdArray.stringWidth)) 1
  Has s := s = [] ∨ k.Brings inputs s
  empty := .inl rfl

namespace Engine

theorem covers_widen (k : Kernel) (inputs : List (NdArray × Nat)) :
    (k.vocabulary (inputs.map Prod.fst) (inputs.map fun x => x.1.widen x.2)).Covers k
      (inputs.map Prod.fst) (inputs.map fun x => x.1.widen x.2) := by
  have hwide := Kernel.widestString_le_iff.1 (Nat.le_refl (k.widestString
    ((inputs.map fun x => x.1.widen x.2).map NdArray.stringWidth)))
  have hnarrow := Kernel.widestString_le_iff.1 (Nat.le_refl (k.widestString
    ((inputs.map Prod.fst).map NdArray.stringWidth)))
  refine ⟨?_, fun bytes hbytes => .inr (.inr ⟨bytes, hbytes, rfl⟩), rfl, rfl⟩
  rw [List.forall₂_map_left_iff, List.forall₂_map_right_iff, List.forall₂_same]
  intro x hx
  have hfits : (x.1.widen x.2).stringWidth ≤ k.widestString
      ((inputs.map fun x => x.1.widen x.2).map NdArray.stringWidth) :=
    hwide.1 _ (List.mem_map_of_mem (List.mem_map_of_mem hx))
  have hfits' : x.1.stringWidth ≤ k.widestString ((inputs.map Prod.fst).map NdArray.stringWidth) :=
    hnarrow.1 _ (List.mem_map_of_mem (List.mem_map_of_mem hx))
  have hle := x.1.data.stringWidth_le_widen x.2
  have hnarrowest := Nat.le_trans hfits' (Nat.le_max_left _ 1)
  have hwidest := Nat.le_trans hfits (Nat.le_max_left _ 1)
  refine ⟨rfl, hle, hnarrowest, hwidest, Column.akin_widen ?_ hnarrowest hwidest⟩
  intro i s hs
  exact .inr (.inl ⟨x.1, List.mem_map_of_mem hx, i, hs⟩)

theorem covers_self (k : Kernel) (inputs : List NdArray) :
    (k.vocabulary inputs inputs).Covers k inputs inputs := by
  have hfst : (inputs.map fun a => (a, 0)).map Prod.fst = inputs := by
    rw [List.map_map]
    exact List.map_id inputs
  have hwiden : (inputs.map fun a => (a, 0)).map (fun x => x.1.widen x.2) = inputs := by
    rw [List.map_map]
    exact (List.map_congr_left fun a _ => a.widen_zero).trans (List.map_id inputs)
  have hcovers := covers_widen k (inputs.map fun a => (a, 0))
  rwa [hfst, hwiden] at hcovers

end Engine

theorem NdArray.rel_stringAt? {v : Vocabulary} {a b : NdArray} (h : a.data.Akin v b.data)
    (i : Nat) : Option.Rel (fun s s' => s = s' ∧ v.Has s) (a.stringAt? i) (b.stringAt? i) :=
  rel_bind (h.values? .str) fun _ _ hstrings => rel_bind (hstrings i) fun _ _ hxy =>
    .some ⟨hxy.1, hxy.2.1⟩

theorem NdArray.SameItems.of_akin {v : Vocabulary} {a b : NdArray} (hshape : a.shape = b.shape)
    (hdata : a.data.Akin v b.data) : a.SameItems b := by
  refine ⟨hshape, hdata.elementType, hdata.size_eq, fun hplain => ?_, fun i => ?_⟩
  · obtain ⟨data, shape⟩ := a
    obtain ⟨data', shape'⟩ := b
    obtain rfl : shape = shape' := hshape
    obtain rfl : data = data' := hdata.eq_of_plain hplain
    rfl
  · have hstring := rel_stringAt? hdata i
    generalize a.stringAt? i = x at hstring ⊢
    generalize b.stringAt? i = y at hstring ⊢
    cases hstring with
    | none => rfl
    | some h => rw [h.1]

/-- `eq_bss r0, r1, r1` -/
def Kernel.equalsItself : Kernel :=
  ⟨⟨[25, 0, 1, 1]⟩, [.bool, .str], [.str], [], 0⟩

/-- `copy_ss r2, r1` and `copy_ss r0, r2` -/
def Kernel.copyTwice : Kernel :=
  ⟨⟨[99, 2, 1, 0, 99, 0, 2, 0]⟩, [.str, .str, .str], [.str], [], 1⟩

namespace Engine

/-- **The width of strings does not matter.** Inputs with their strings at larger widths make
an evaluation fail with the same error or give the same items, unless it is refused memory for
such strings. No string is cut off: each one that comes out has gone in as it is. -/
theorem evaluate_widen [Allocator] [Scheduler] (engine : Engine) (k : Kernel)
    (inputs : List (NdArray × Nat)) (hinputs : ∀ x ∈ inputs, x.1.WellFormed) :
    let narrow := (engine.evaluate k (inputs.map Prod.fst)).1
    let wide := (engine.evaluate k (inputs.map fun x => x.1.widen x.2)).1
    (((∃ n, wide = .error (.allocation n)) ∧
        engine.Outgrows k (inputs.map fun x => x.1.widen x.2)) ∨
      (∃ e, narrow = .error e ∧ wide = .error e) ∨
      ∃ a b, narrow = .ok a ∧ wide = .ok b ∧ a.SameItems b) ∧
    ∀ a, narrow = .ok a → ∀ i s, a.stringAt? i = some s →
      s = [] ∨ k.Brings (inputs.map Prod.fst) s := by
  intro narrow wide
  have hinputs : ∀ a ∈ inputs.map Prod.fst, a.WellFormed := List.forall_mem_map.2 hinputs
  constructor
  · rcases withstands_evaluate (covers_widen k inputs) hinputs engine with hrefused | hagree
    · exact .inl hrefused
    · right
      rcases concur_iff.1 hagree with herror | ⟨a, b, ha, hb, hshape, hdata⟩
      · exact .inl herror
      · exact .inr ⟨a, b, ha, hb, .of_akin hshape hdata.toAkin⟩
  · intro a ha i s hs
    -- the evaluation beside itself: its strings are of its own vocabulary
    have hcovers := covers_self k (inputs.map Prod.fst)
    rcases withstands_evaluate hcovers hinputs engine with ⟨⟨n, hrefused⟩, -⟩ | hagree
    · rw [show narrow = _ from hrefused] at ha
      cases ha
    · rcases concur_iff.1 hagree with ⟨e, herror, -⟩ | ⟨b, b', hb, -, -, hdata⟩
      · rw [show narrow = _ from herror] at ha
        cases ha
      · obtain rfl : b = a := Except.ok.inj (hb.symm.trans ha)
        have hstring := NdArray.rel_stringAt? hdata.toAkin i
        rw [hs] at hstring
        generalize b'.stringAt? i = y at hstring
        cases hstring with
        | some h => exact h.2

attribute [local instance] Allocator.roomy Scheduler.inOrder

/-- Two strings of at most two bytes come out of two copies at any widths; here they are
stored with five bytes. -/
theorem evaluate_widen_copyTwice :
    let words : NdArray := .ofVector (.ofStrings [[97, 98], [99]] 2)
    words.WellFormed ∧ ∃ a b, ((usual .serial).evaluate .copyTwice [words]).1 = .ok a ∧
      ((usual .serial).evaluate .copyTwice [words.widen 5]).1 = .ok b ∧ a.SameItems b ∧
      b.stringAt? 0 = some [97, 98] := by
  intro words
  have hwell : ∀ x ∈ [(words, 5)], x.1.WellFormed := by decide +kernel
  have hdone : (((usual .serial).evaluate .copyTwice [words.widen 5]).1.toOption.bind
      (·.stringAt? 0)) = some [97, 98] := by decide +kernel
  refine ⟨hwell _ (.head _), ?_⟩
  rcases (evaluate_widen (usual .serial) .copyTwice [(words, 5)] hwell).1 with
    ⟨⟨n, hrefused⟩, -⟩ | ⟨e, -, herror⟩ | ⟨a, b, ha, hb, hsame⟩
  · rw [show ((usual .serial).evaluate .copyTwice [words.widen 5]).1 = _ from hrefused] at hdone
    cases hdone
  · rw [show ((usual .serial).evaluate .copyTwice [words.widen 5]).1 = _ from herror] at hdone
    cases hdone
  · rw [show ((usual .serial).evaluate .copyTwice [words.widen 5]).1 = _ from hb] at hdone
    exact ⟨a, b, ha, hb, hsame, hdone⟩

/-- At a width of 2^60 bytes there is no room for a block. -/
theorem not_evaluate_widen : ¬ ∀ (engine : Engine) (k : Kernel) (inputs : List (NdArray × Nat)),
    k.validate = .ok () → (∀ x ∈ inputs, x.1.WellFormed) →
    let narrow := (engine.evaluate k (inputs.map Prod.fst)).1
    let wide := (engine.evaluate k (inputs.map fun x => x.1.widen x.2)).1
    (∃ e, narrow = .error e ∧ wide = .error e) ∨
      ∃ a b, narrow = .ok a ∧ wide = .ok b ∧ a.SameItems b := by
  intro h
  have hnarrow : ((usual .serial).evaluate .equalsItself [.ofVector (.ofStrings [] 1)]).1
      = .ok (.ofVector ⟨.bool, #[]⟩) := by decide +kernel
  have hwide : ((usual .serial).evaluate .equalsItself
      [(NdArray.ofVector (.ofStrings [] 1)).widen (2 ^ 60)]).1
      = .error (.allocation (2 ^ 64 - 1)) := by decide +kernel
  rcases h (usual .serial) .equalsItself [(.ofVector (.ofStrings [] 1), 2 ^ 60)]
    (by decide +kernel) (by decide +kernel) with ⟨e, herror, -⟩ | ⟨_, b, -, hb, -⟩
  · cases hnarrow.symm.trans herror
  · cases hwide.symm.trans hb

end Engine

end Lanewise
