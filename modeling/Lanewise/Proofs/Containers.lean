import Lanewise.Container
import Lanewise.Proofs.Sequences

/-!
# Containers round trip

What the writers produce, the readers take from the front of any bytes
(`Container.Takes`), so a container reads back as the kernel that was written,
whatever stands behind it. The sizes in the header make every shorter container
an error (`Kernel.toBytes_roundTrip`).
-/

namespace Lanewise

namespace Container

/-! ## Readers -/

/-- A reader takes the bytes for a value and leaves all that stands behind them. -/
def Takes {α : Type} (reader : Reader α) (bytes : List UInt8) (a : α) : Prop :=
  ∀ rest, reader (bytes ++ rest) = .ok (a, rest)

section Readers

variable {α β : Type} {reader : Reader α} {bytes : List UInt8} {a : α}

theorem Takes.nothing (a : α) : Takes (pure a) [] a :=
  fun _ => rfl

theorem Takes.bind (h : Takes reader bytes a) {f : α → Reader β} {more : List UInt8} {b : β}
    (hf : Takes (f a) more b) : Takes (reader >>= f) (bytes ++ more) b := by
  intro rest
  rw [List.append_assoc]
  exact bind_eq_ok_iff.2 ⟨(a, more ++ rest), h (more ++ rest), hf rest⟩

/-- A step that only makes something of the value read. -/
theorem Takes.finish (h : Takes reader bytes a) {f : α → Reader β} {b : β} (hf : f a = pure b) :
    Takes (reader >>= f) bytes b := by
  have hbind := h.bind (f := f) (show Takes (f a) [] b from hf ▸ .nothing b)
  rwa [List.append_nil] at hbind

theorem Takes.map (h : Takes reader bytes a) (f : α → β) : Takes (f <$> reader) bytes (f a) := by
  rw [map_eq_pure_bind]
  exact h.finish rfl

/-- A reader that is done with the last bytes. -/
theorem Takes.eq_ok (h : Takes reader bytes a) : reader bytes = .ok (a, []) := by
  have hread := h []
  rwa [List.append_nil] at hread

/-- As many values as were written, one after the other. -/
theorem takes_readMany {item : Reader α} {write : α → List UInt8} {as : List α}
    (h : ∀ a ∈ as, Takes item (write a) a) :
    Takes (readMany item as.length) (as.flatMap write) as := by
  induction as with
  | nil => exact .nothing []
  | cons a as ih =>
    exact (h a (.head _)).bind ((ih fun a ha => h a (.tail _ ha)).finish rfl)

end Readers

/-! ## Fields -/

theorem takes_readBytes (bytes : List UInt8) : Takes (readBytes bytes.length) bytes bytes := by
  intro rest
  have hlength : ¬ (bytes ++ rest).length < bytes.length := by simp
  simp only [readBytes, if_neg hlength, List.take_left, List.drop_left]

theorem takes_readNumber {width n : Nat} (h : n < Nat.pow 256 width) :
    Takes (readNumber width) (Bytes.littleEndian width n) n := by
  have hread := (takes_readBytes (Bytes.littleEndian width n)).map Bytes.ofLittleEndian
  rwa [Bytes.length_littleEndian, Bytes.ofLittleEndian_littleEndian, Nat.mod_eq_of_lt h] at hread

/-- A length takes eight bytes. -/
theorem takes_readLength {n : Nat} (h : n < UInt64.size) :
    Takes (readNumber 8) (writeCount n) n :=
  takes_readNumber h

theorem takes_readString {bytes : List UInt8} (h : bytes.length < UInt64.size) :
    Takes readString (writeBytes bytes) bytes :=
  (takes_readLength h).bind (takes_readBytes bytes)

theorem takes_readList {α : Type} {item : Reader α} {write : α → List UInt8} {as : List α}
    (hlength : as.length < UInt64.size) (h : ∀ a ∈ as, Takes item (write a) a) :
    Takes (readList item) (writeCount as.length ++ as.flatMap write) as :=
  (takes_readLength hlength).bind (takes_readMany h)

theorem takes_readType (t : ElementType) : Takes readType (writeType t) t := by
  have htag : typeTag t < Nat.pow 256 4 := by cases t <;> decide
  have hfound : ElementType.all[typeTag t]? = some t := by cases t <;> rfl
  exact (takes_readNumber htag).finish (by rw [hfound])

theorem takes_readSignature {sig : Signature} (h : sig.length < UInt64.size) :
    Takes (readList readType) (writeSignature sig) sig :=
  takes_readList h fun t _ => takes_readType t

theorem takes_readBool (value : Bool) : Takes readBool [if value then 1 else 0] value := by
  intro rest
  cases value <;> rfl

theorem takes_readConstant {c : Constant} (h : c.stringWidth < UInt64.size) :
    Takes readConstant (writeConstant c) c := by
  refine (takes_readType c.elementType).bind ?_
  cases c with
  | bool value => exact (takes_readBool value).map Constant.bool
  | int value =>
    exact (takes_readNumber value.toUInt32.toNat_lt).finish (by simp)
  | long value =>
    exact (takes_readNumber value.toUInt64.toNat_lt).finish (by simp)
  | float bits => exact (takes_readNumber bits.toNat_lt).finish (by simp)
  | double bits => exact (takes_readNumber bits.toNat_lt).finish (by simp)
  | complex re im =>
    exact (takes_readNumber re.toNat_lt).bind
      ((takes_readNumber im.toNat_lt).finish (by simp))
  | str bytes => exact (takes_readString h).map Constant.str

/-! ## Bodies -/

/-- What the lengths of a kernel must be for eight bytes each. -/
structure Fits (k : Kernel) : Prop where
  code : k.program.code.length < UInt64.size
  full : k.fullSignature.length < UInt64.size
  inputs : k.inputSignature.length < UInt64.size
  constants : k.constants.length < UInt64.size
  strings : ∀ c ∈ k.constants, c.stringWidth < UInt64.size
  temporaries : k.temporaries < UInt64.size

theorem takes_readBody {k : Kernel} (h : Fits k) : Takes readBody (writeBody k) k := by
  simp only [writeBody, List.append_assoc]
  refine (takes_readString h.code).bind ?_
  refine (takes_readSignature h.full).bind ?_
  refine (takes_readSignature h.inputs).bind ?_
  rw [← List.append_assoc]
  refine (takes_readList h.constants fun c hc => takes_readConstant (h.strings c hc)).bind ?_
  exact (takes_readLength h.temporaries).finish rfl

theorem length_le_flatMap {α : Type} (write : α → List UInt8) (as : List α)
    (h : ∀ a ∈ as, 0 < (write a).length) : as.length ≤ (as.flatMap write).length := by
  induction as with
  | nil => exact Nat.le_refl 0
  | cons a as ih =>
    have hhead := h a (.head _)
    have htail := ih fun a ha => h a (.tail _ ha)
    rw [List.flatMap_cons, List.length_append, List.length_cons]
    omega

theorem length_le_flatMap_of_mem {α : Type} (write : α → List UInt8) {as : List α} {a : α}
    (h : a ∈ as) : (write a).length ≤ (as.flatMap write).length :=
  (List.sublist_flatten_of_mem (List.mem_map_of_mem h)).length_le

@[simp] theorem length_writeCount (n : Nat) : (writeCount n).length = 8 :=
  Bytes.length_littleEndian 8 n

@[simp] theorem length_writeType (t : ElementType) : (writeType t).length = 4 :=
  Bytes.length_littleEndian 4 (typeTag t)

theorem stringWidth_le_writeConstant (c : Constant) :
    c.stringWidth ≤ (writeConstant c).length := by
  cases c <;> simp [Constant.stringWidth, writeConstant, writeBytes]
  omega

/-- Nothing in a kernel is longer than its body. -/
theorem fits_of_length_lt {k : Kernel} (h : (writeBody k).length < UInt64.size)
    (htemporaries : k.temporaries < UInt64.size) : Fits k := by
  have hfull := length_le_flatMap writeType k.fullSignature (by simp)
  have hinputs := length_le_flatMap writeType k.inputSignature (by simp)
  have hconstants := length_le_flatMap writeConstant k.constants fun c _ => by
    unfold writeConstant
    rw [List.length_append, length_writeType]
    exact Nat.add_pos_left (by decide) _
  simp only [writeBody, writeBytes, writeSignature, List.length_append, length_writeCount] at h
  refine ⟨by omega, by omega, by omega, by omega, fun c hc => ?_, htemporaries⟩
  have hstring := stringWidth_le_writeConstant c
  have hconstant := length_le_flatMap_of_mem writeConstant hc
  omega

/-! ## Headers -/

theorem drop_littleEndian {width offset : Nat} (n : Nat) (h : width ≤ offset) :
    (Bytes.littleEndian width n).drop offset = [] :=
  List.drop_eq_nil_of_le (by simpa using h)

theorem toUInt16_ofLittleEndian (n : UInt16) :
    (Bytes.ofLittleEndian (Bytes.littleEndian 2 n.toNat)).toUInt16 = n := by
  rw [Bytes.ofLittleEndian_littleEndian, Nat.mod_eq_of_lt n.toNat_lt]
  simp

theorem toUInt32_ofLittleEndian (n : UInt32) :
    (Bytes.ofLittleEndian (Bytes.littleEndian 4 n.toNat)).toUInt32 = n := by
  rw [Bytes.ofLittleEndian_littleEndian, Nat.mod_eq_of_lt n.toNat_lt]
  simp

@[simp] theorem Header.length_toBytes (h : Header) : h.toBytes.length = headerSize := by
  simp [Header.toBytes, headerSize]

theorem Header.ofBytes_toBytes {h : Header} (hmagic : h.magic = Container.magic)
    (hversion : h.version = Container.version) (rest : List UInt8) :
    Header.ofBytes (h.toBytes ++ rest) = .ok h := by
  have hlong : ¬ (h.toBytes ++ rest).length < headerSize := by simp
  obtain ⟨magic, version, inputs, constants, temporaries, flags, codeSize, bodySize⟩ := h
  subst hmagic hversion
  rw [Header.ofBytes, if_neg hlong]
  -- Each field is what the fields in front of it leave, cut to its width.
  simp [Header.toBytes, List.drop_append, drop_littleEndian, toUInt16_ofLittleEndian,
    toUInt32_ofLittleEndian]

theorem Header.ofBytes_short {bytes : List UInt8} (h : bytes.length < headerSize) :
    Header.ofBytes bytes = .error (.shortHeader headerSize bytes.length) :=
  if_pos h

/-- What the header in front of the body of a kernel says. -/
structure Header.Describes (h : Header) (k : Kernel) : Prop where
  magic : h.magic = Container.magic
  version : h.version = Container.version
  inputs : h.inputs.toNat = k.inputSignature.length
  constants : h.constants.toNat = k.constants.length
  temporaries : h.temporaries.toNat = k.temporaries
  codeSize : h.codeSize.toNat = k.program.length
  bodySize : h.bodySize.toNat = (writeBody k).length

end Container

namespace Kernel

open Container

variable {k : Kernel}

/-! ## Containers -/

/-- Counts that the header has room for. -/
structure CountsFit (k : Kernel) : Prop where
  inputs : k.inputSignature.length ≤ 65535
  constants : k.constants.length ≤ 65535
  temporaries : k.temporaries ≤ 65535

theorem narrowCount_eq_ok_iff {field : CountField} {n : Nat} {count : UInt16} :
    narrowCount field n = .ok count ↔ n ≤ 65535 ∧ n.toUInt16 = count := by
  rw [narrowCount]
  split
  · rename_i hlt
    simp [Nat.le_of_lt_succ hlt]
  · rename_i hlt
    have hn : ¬ n ≤ 65535 := fun h => hlt (Nat.lt_succ_of_le h)
    simp [hn]

/-- The header of a kernel whose counts it has room for. -/
theorem header_eq_ok_iff {bodySize : Nat} {h : Header} :
    k.header bodySize = .ok h ↔
      k.CountsFit ∧
        h = {
          magic := Container.magic
          version := Container.version
          inputs := k.inputSignature.length.toUInt16
          constants := k.constants.length.toUInt16
          temporaries := k.temporaries.toUInt16
          flags := if k.isReduction then 1 else 0
          codeSize := k.program.length.toUInt32
          bodySize := bodySize.toUInt32 } := by
  simp only [header, bind_eq_ok_iff, narrowCount_eq_ok_iff]
  constructor
  · rintro ⟨_, ⟨hinputs, rfl⟩, _, ⟨hconstants, rfl⟩, _, ⟨htemporaries, rfl⟩, hheader⟩
    exact ⟨⟨hinputs, hconstants, htemporaries⟩, (Except.ok.inj hheader).symm⟩
  · rintro ⟨⟨hinputs, hconstants, htemporaries⟩, rfl⟩
    exact ⟨_, ⟨hinputs, rfl⟩, _, ⟨hconstants, rfl⟩, _, ⟨htemporaries, rfl⟩, rfl⟩

/-- A container is the header in front of the body. -/
theorem toBytes_eq_ok_iff {bytes : List UInt8} :
    k.toBytes = .ok bytes ↔
      ∃ h, k.header (writeBody k).length = .ok h ∧ bytes = h.toBytes ++ writeBody k := by
  simp only [toBytes, bind_eq_ok_iff, pure, Except.pure, Except.ok.injEq, eq_comm (a := bytes)]

theorem exists_toBytes_iff : (∃ bytes, k.toBytes = .ok bytes) ↔ k.CountsFit := by
  simp only [toBytes_eq_ok_iff, header_eq_ok_iff]
  constructor
  · rintro ⟨_, _, ⟨hcounts, -⟩, -⟩
    exact hcounts
  · intro hcounts
    exact ⟨_, _, ⟨hcounts, rfl⟩, rfl⟩

@[simp] theorem checkCount_self (field : CountField) (n : Nat) : checkCount field n n = .ok () :=
  if_pos rfl

/-- A container whose sizes have 32 bits is a header that describes the kernel,
in front of the body. -/
theorem exists_describes {bytes : List UInt8} (hsize : (writeBody k).length < UInt32.size)
    (h : k.toBytes = .ok bytes) :
    ∃ header : Header, header.Describes k ∧ bytes = header.toBytes ++ writeBody k := by
  obtain ⟨header, hheader, rfl⟩ := toBytes_eq_ok_iff.1 h
  obtain ⟨hcounts, rfl⟩ := header_eq_ok_iff.1 hheader
  have hcode : k.program.length < UInt32.size := by
    refine Nat.lt_of_le_of_lt ?_ hsize
    simp [writeBody, writeBytes, Program.length]
    omega
  refine ⟨_, ⟨rfl, rfl, ?_, ?_, ?_, ?_, ?_⟩, rfl⟩
  · exact UInt16.toNat_ofNat_of_lt' (Nat.lt_succ_of_le hcounts.inputs)
  · exact UInt16.toNat_ofNat_of_lt' (Nat.lt_succ_of_le hcounts.constants)
  · exact UInt16.toNat_ofNat_of_lt' (Nat.lt_succ_of_le hcounts.temporaries)
  · exact UInt32.toNat_ofNat_of_lt' hcode
  · exact UInt32.toNat_ofNat_of_lt' hsize

section Reading

variable {header : Header}

theorem ofBytes_toBytes_append (h : header.Describes k) {bytes rest : List UInt8}
    (hlong : ¬ bytes.length < header.bodySize.toNat)
    (hbody : readBody (bytes.take header.bodySize.toNat) = .ok (k, rest)) :
    ofBytes (header.toBytes ++ bytes) = .ok k := by
  have hread := Header.ofBytes_toBytes h.magic h.version bytes
  have hdrop : (header.toBytes ++ bytes).drop headerSize = bytes := by
    rw [← header.length_toBytes, List.drop_left]
  simp only [ofBytes, hread, hdrop, bind, Except.bind, if_neg hlong, hbody, pure, Except.pure,
    h.inputs, h.constants, h.temporaries, h.codeSize, checkCount_self]

/-- A body shorter than the header says. -/
theorem ofBytes_toBytes_short (h : header.Describes k) {bytes : List UInt8}
    (hshort : bytes.length < header.bodySize.toNat) :
    ofBytes (header.toBytes ++ bytes) =
      .error (.countMismatch .bodySize header.bodySize.toNat bytes.length) := by
  have hread := Header.ofBytes_toBytes h.magic h.version bytes
  have hdrop : (header.toBytes ++ bytes).drop headerSize = bytes := by
    rw [← header.length_toBytes, List.drop_left]
  simp only [ofBytes, hread, hdrop, bind, Except.bind, if_pos hshort]
  rfl

end Reading

section RoundTrip

variable {bytes : List UInt8} (hsize : (writeBody k).length < UInt32.size)
  (h : k.toBytes = .ok bytes)
include hsize h

/-- A container reads back, whatever stands behind it. -/
theorem ofBytes_append (trailing : List UInt8) : ofBytes (bytes ++ trailing) = .ok k := by
  obtain ⟨header, hheader, rfl⟩ := exists_describes hsize h
  have htemporaries : k.temporaries < UInt64.size := by
    rw [← hheader.temporaries]
    exact Nat.lt_trans header.temporaries.toNat_lt (by decide)
  have hfits : Fits k := fits_of_length_lt (Nat.lt_trans hsize (by decide)) htemporaries
  rw [List.append_assoc]
  have hbody : readBody ((writeBody k ++ trailing).take header.bodySize.toNat) = .ok (k, []) := by
    rw [hheader.bodySize, List.take_left]
    exact (takes_readBody hfits).eq_ok
  exact ofBytes_toBytes_append hheader (by simp [hheader.bodySize]) hbody

/-- A container cut short anywhere is an error. -/
theorem ofBytes_front {front : List UInt8} (hfront : front <+: bytes) (hne : front ≠ bytes) :
    ∃ e, ofBytes front = .error e := by
  obtain ⟨header, hheader, rfl⟩ := exists_describes hsize h
  have hlt : front.length < (header.toBytes ++ writeBody k).length :=
    Nat.lt_of_le_of_ne hfront.length_le fun heq => hne (hfront.eq_of_length heq)
  by_cases hshort : front.length < headerSize
  · exact ⟨_, by rw [ofBytes, Header.ofBytes_short hshort]; rfl⟩
  · obtain ⟨body, rfl⟩ : header.toBytes <+: front :=
      List.prefix_of_prefix_length_le (List.prefix_append ..) hfront (by simpa using hshort)
    refine ⟨_, ofBytes_toBytes_short hheader ?_⟩
    rw [hheader.bodySize]
    simpa using hlt

end RoundTrip

/-- Containers round trip. For a kernel whose body the header can measure there
is a container exactly if the header has room for the counts. The container
reads back as the kernel with anything behind it, and not at all when it is cut
short. -/
theorem toBytes_roundTrip (k : Kernel) (hsize : (writeBody k).length < UInt32.size) :
    ((∃ bytes, k.toBytes = .ok bytes) ↔
        k.inputSignature.length ≤ 65535 ∧ k.constants.length ≤ 65535 ∧ k.temporaries ≤ 65535) ∧
      ∀ bytes, k.toBytes = .ok bytes →
        (∀ trailing, ofBytes (bytes ++ trailing) = .ok k) ∧
          ∀ front, front <+: bytes → front ≠ bytes → ∃ e, ofBytes front = .error e := by
  refine ⟨?_, fun bytes h => ⟨ofBytes_append hsize h, fun front => ofBytes_front hsize h⟩⟩
  rw [exists_toBytes_iff]
  exact ⟨fun h => ⟨h.inputs, h.constants, h.temporaries⟩, fun ⟨hi, hc, ht⟩ => ⟨hi, hc, ht⟩⟩

/-- A copy of longs that carries constants of three shapes, a NaN among them. -/
def copyWithConstants : Kernel :=
  ⟨⟨[39, 0, 1, 0]⟩, [.long, .long, .bool, .double, .str], [.long],
    [.bool true, .double 0x7ff8000000000001, .str [97, 0, 255]], 0⟩

/-- There is a container of a kernel with constants. -/
theorem toBytes_roundTrip_copyWithConstants :
    (writeBody copyWithConstants).length < UInt32.size ∧
      ∃ bytes, copyWithConstants.toBytes = .ok bytes ∧
        (∀ trailing, ofBytes (bytes ++ trailing) = .ok copyWithConstants) ∧
          ∀ front, front <+: bytes → front ≠ bytes → ∃ e, ofBytes front = .error e := by
  have hsize : (writeBody copyWithConstants).length < UInt32.size := by decide +kernel
  obtain ⟨hcounts, hreads⟩ := toBytes_roundTrip copyWithConstants hsize
  obtain ⟨bytes, hbytes⟩ := hcounts.2 (by decide)
  exact ⟨hsize, bytes, hbytes, hreads bytes hbytes⟩

end Kernel

end Lanewise
