import Lanewise.Kernel.Digest
import Lanewise.Proofs.Containers

/-!
# Digested bytes

The bytes that are hashed determine the kernel, field by field
(`Kernel.digestInput_eq_iff`). Each field ends where its reader stops, whatever
stands behind it. Only the constants are not counted: eight bytes behind them are
the number of temporaries, and what is left takes apart constant by constant.
-/

namespace Lanewise

namespace Container

/-- What a reader takes ends at the same place in equal bytes. -/
theorem Takes.inj {α : Type} {reader : Reader α} {xs ys r s : List UInt8} {a b : α}
    (ha : Takes reader xs a) (hb : Takes reader ys b) (h : xs ++ r = ys ++ s) :
    a = b ∧ r = s := by
  have hread : Except.ok (a, r) = (Except.ok (b, s) : Except BodyError (α × List UInt8)) := by
    rw [← ha r, ← hb s, h]
  exact Prod.mk.inj (Except.ok.inj hread)

end Container

open Container

namespace ElementType

theorem toByte_inj {s t : ElementType} (h : s.toByte = t.toByte) : s = t := by
  cases s <;> cases t <;> first | rfl | exact absurd h (by decide)

theorem toByte_ne_signatureMark (t : ElementType) : t.toByte ≠ Kernel.signatureMark := by
  cases t <;> decide

end ElementType

/-- A signature ends at the mark. -/
theorem Signature.digest_inj {sig sig' : Signature} {r s : List UInt8}
    (h : sig.map ElementType.toByte ++ Kernel.signatureMark :: r
      = sig'.map ElementType.toByte ++ Kernel.signatureMark :: s) : sig = sig' ∧ r = s := by
  induction sig generalizing sig' with
  | nil =>
    cases sig' with
    | nil => exact ⟨rfl, (List.cons.inj h).2⟩
    | cons t' sig' => exact absurd (List.cons.inj h).1.symm t'.toByte_ne_signatureMark
  | cons t sig ih =>
    cases sig' with
    | nil => exact absurd (List.cons.inj h).1 t.toByte_ne_signatureMark
    | cons t' sig' =>
      obtain ⟨htype, hrest⟩ := List.cons.inj h
      obtain ⟨rfl, rfl⟩ := ih hrest
      exact ⟨by rw [ElementType.toByte_inj htype], rfl⟩

namespace Constant

/-- Behind the letter a constant is digested as containers write it. -/
theorem digestInput_eq (c : Constant) :
    ∃ value, c.digestInput = c.elementType.toByte :: value ∧
      writeConstant c = writeType c.elementType ++ value := by
  cases c <;> exact ⟨_, rfl, rfl⟩

/-- The letter tells how a constant goes on. -/
theorem digestInput_append_inj {c c' : Constant} {r s : List UInt8}
    (hc : c.stringWidth < UInt64.size) (hc' : c'.stringWidth < UInt64.size)
    (h : c.digestInput ++ r = c'.digestInput ++ s) : c = c' ∧ r = s := by
  obtain ⟨value, hdigest, hwrite⟩ := c.digestInput_eq
  obtain ⟨value', hdigest', hwrite'⟩ := c'.digestInput_eq
  rw [hdigest, hdigest'] at h
  obtain ⟨htype, hvalue⟩ := List.cons.inj h
  refine (takes_readConstant hc).inj (takes_readConstant hc') ?_
  rw [hwrite, hwrite', ElementType.toByte_inj htype, List.append_assoc, List.append_assoc]
  exact congrArg _ hvalue

theorem flatMap_digestInput_inj {cs cs' : List Constant}
    (hcs : ∀ c ∈ cs, c.stringWidth < UInt64.size) (hcs' : ∀ c ∈ cs', c.stringWidth < UInt64.size)
    (h : cs.flatMap digestInput = cs'.flatMap digestInput) : cs = cs' := by
  induction cs generalizing cs' with
  | nil =>
    cases cs' with
    | nil => rfl
    | cons c' cs' => cases h
  | cons c cs ih =>
    cases cs' with
    | nil => cases h
    | cons c' cs' =>
      rw [List.flatMap_cons, List.flatMap_cons] at h
      obtain ⟨rfl, hrest⟩ := digestInput_append_inj (hcs c (.head _)) (hcs' c' (.head _)) h
      rw [ih (fun c hc => hcs c (.tail _ hc)) (fun c hc => hcs' c (.tail _ hc)) hrest]

end Constant

/-! ## Whole kernels -/

/-- What is digested as a number of eight bytes fits there, as it does in every kernel that a
machine of 64 bits can hold. -/
structure Kernel.Countable (k : Kernel) : Prop where
  code : k.program.code.length < UInt64.size
  strings : ∀ c ∈ k.constants, c.stringWidth < UInt64.size
  temporaries : k.temporaries < UInt64.size

theorem Container.Fits.countable {k : Kernel} (h : Fits k) : k.Countable :=
  ⟨h.code, h.strings, h.temporaries⟩

/-- Kernels whose digested bytes are equal are equal. -/
theorem Kernel.eq_of_digestInput {a b : Kernel} (ha : a.Countable) (hb : b.Countable)
    (h : a.digestInput = b.digestInput) : a = b := by
  simp only [digestInput, List.append_assoc, List.singleton_append] at h
  rw [← List.append_assoc, ← List.append_assoc (Bytes.littleEndian 8 b.program.length)] at h
  obtain ⟨hcode, h⟩ := (takes_readString ha.code).inj (takes_readString hb.code) h
  obtain ⟨hfull, h⟩ := Signature.digest_inj h
  obtain ⟨hinputs, h⟩ := Signature.digest_inj h
  obtain ⟨hconstants, h⟩ := List.append_inj' h (by simp)
  have hconstants := Constant.flatMap_digestInput_inj ha.strings hb.strings hconstants
  have htemporaries := ((takes_readLength ha.temporaries).inj (takes_readLength hb.temporaries)
    (congrArg (· ++ []) h)).1
  obtain ⟨⟨code⟩, full, inputs, constants, temporaries⟩ := a
  obtain ⟨⟨code'⟩, full', inputs', constants', temporaries'⟩ := b
  subst hcode hfull hinputs hconstants htemporaries
  rfl

/-- No two kernels that differ in a field are digested alike: constants and strings cannot be
bracketed in another way, and the count behind them cannot be read as one of them. -/
theorem Kernel.digestInput_eq_iff {a b : Kernel} (ha : a.Countable) (hb : b.Countable) :
    a.digestInput = b.digestInput ↔
      a.program.code = b.program.code ∧ a.fullSignature = b.fullSignature ∧
        a.inputSignature = b.inputSignature ∧ a.constants = b.constants ∧
        a.temporaries = b.temporaries := by
  constructor
  · intro h
    obtain rfl := Kernel.eq_of_digestInput ha hb h
    exact ⟨rfl, rfl, rfl, rfl, rfl⟩
  · rintro ⟨hcode, hfull, hinputs, hconstants, htemporaries⟩
    simp only [digestInput, Program.length, hcode, hfull, hinputs, hconstants, htemporaries]

/-- A string that spells the bytes of the constant behind it is not taken for the two of them. -/
theorem Kernel.digestInput_eq_iff_spelled :
    let apart : Kernel := ⟨⟨[]⟩, [.str], [], [.str [7], .bool true], 0⟩
    let spelled : Kernel := ⟨⟨[]⟩, [.str], [], [.str (7 :: (Constant.bool true).digestInput)], 0⟩
    apart.Countable ∧ spelled.Countable ∧ apart.digestInput ≠ spelled.digestInput := by
  intro apart spelled
  have happart : apart.Countable := ⟨by decide, by decide, by decide⟩
  have hspelled : spelled.Countable := ⟨by decide, by decide, by decide⟩
  refine ⟨happart, hspelled, fun h => ?_⟩
  have hconstants := ((Kernel.digestInput_eq_iff happart hspelled).1 h).2.2.2.1
  exact absurd hconstants (by decide)

end Lanewise
