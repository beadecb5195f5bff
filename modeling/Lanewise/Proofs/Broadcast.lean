import Lanewise.Proofs.Shape

/-!
# Broadcasting

Where an array is read over a larger shape: shapes are aligned at their last
dimension, and a dimension of extent 1 is read at index 0 throughout
(`broadcastPosition`). A common shape fits every shape it was made from
(`fits_of_broadcast`), and the strides found for a shape that fits lead to these
positions (`dot_broadcastStrides`).
-/

namespace Lanewise

namespace Shape

/-- Indices with 0 along every dimension of extent 1. -/
def clamp (shape is : List Nat) : List Nat :=
  shape.zipWith (fun d i => if d = 1 then 0 else i) is

/-- Where the element for a position of a target shape lies in an array. -/
def broadcastPosition (shape target : Shape) (p : Nat) : Nat :=
  shape.position (clamp shape ((target.index p).drop (target.length - shape.length)))

/-- Extents that are those of a target, or 1. -/
abbrev Aligned (shape target : List Nat) : Prop :=
  List.Forall₂ (fun d t => d = t ∨ d = 1) shape target

/-- Whether an array can be read over a target shape. -/
def Fits (shape target : Shape) : Prop :=
  ∃ lead aligned, target = lead ++ aligned ∧ Aligned shape aligned

/-! ## Common shapes -/

/-- The same with the innermost dimension first. -/
def FitsInner (shape target : List Nat) : Prop :=
  ∃ aligned lead, target = aligned ++ lead ∧ Aligned shape aligned

theorem FitsInner.reverse {shape target : List Nat} (h : FitsInner shape target) :
    Fits shape.reverse target.reverse := by
  obtain ⟨aligned, lead, rfl, haligned⟩ := h
  exact ⟨lead.reverse, aligned.reverse, List.reverse_append, List.rel_reverse haligned⟩

theorem FitsInner.refl (shape : List Nat) : FitsInner shape shape :=
  ⟨shape, [], (List.append_nil _).symm, List.forall₂_same.2 fun _ _ => .inl rfl⟩

theorem FitsInner.cons {d t : Nat} {shape target : List Nat} (hd : d = t ∨ d = 1)
    (h : FitsInner shape target) : FitsInner (d :: shape) (t :: target) := by
  obtain ⟨aligned, lead, rfl, haligned⟩ := h
  exact ⟨t :: aligned, lead, rfl, .cons hd haligned⟩

theorem fitsInner_of_joinInner? {a b out : List Nat} (h : joinInner? a b = some out) :
    FitsInner a out ∧ FitsInner b out := by
  induction a generalizing b out with
  | nil =>
    obtain rfl : b = out := by simpa [joinInner?] using h
    exact ⟨⟨[], b, rfl, .nil⟩, .refl b⟩
  | cons d a ih =>
    cases b with
    | nil =>
      obtain rfl : d :: a = out := by simpa [joinInner?] using h
      exact ⟨.refl _, ⟨[], _, rfl, .nil⟩⟩
    | cons e b =>
      simp only [joinInner?, Option.bind_eq_bind, Option.bind_eq_some_iff, Option.pure_def,
        Option.some.injEq] at h
      obtain ⟨t, ht, rest, hrest, rfl⟩ := h
      obtain ⟨ha, hb⟩ := ih hrest
      have hjoin : (d = t ∨ d = 1) ∧ (e = t ∨ e = 1) := by
        unfold joinExtent? at ht
        grind
      exact ⟨.cons hjoin.1 ha, .cons hjoin.2 hb⟩

theorem fits_of_join? {a b out : Shape} (h : a.join? b = some out) : Fits a out ∧ Fits b out := by
  unfold join? at h
  obtain ⟨inner, hinner, rfl⟩ := Option.map_eq_some_iff.1 h
  obtain ⟨ha, hb⟩ := fitsInner_of_joinInner? hinner
  exact ⟨by simpa using ha.reverse, by simpa using hb.reverse⟩

theorem Fits.refl (shape : Shape) : Fits shape shape :=
  ⟨[], shape, rfl, List.forall₂_same.2 fun _ _ => .inl rfl⟩

theorem Aligned.trans {a b c : List Nat} (hab : Aligned a b) (hbc : Aligned b c) : Aligned a c := by
  induction hab generalizing c with
  | nil => exact hbc
  | cons hd _ ih =>
    obtain ⟨t, rest, ht, hrest, rfl⟩ := List.forall₂_cons_left_iff.1 hbc
    exact .cons (by grind) (ih hrest)

theorem Fits.trans {a b c : Shape} (hab : Fits a b) (hbc : Fits b c) : Fits a c := by
  obtain ⟨lead, aligned, rfl, hab⟩ := hab
  obtain ⟨lead', aligned', rfl, hbc⟩ := hbc
  obtain ⟨hlead, haligned⟩ : Aligned lead (aligned'.take lead.length) ∧
      Aligned aligned (aligned'.drop lead.length) := by
    refine ⟨?_, ?_⟩
    · have := List.forall₂_take lead.length hbc
      rwa [List.take_left] at this
    · have := List.forall₂_drop lead.length hbc
      rwa [List.drop_left] at this
  refine ⟨lead' ++ aligned'.take lead.length, aligned'.drop lead.length, ?_, hab.trans haligned⟩
  rw [List.append_assoc, List.take_append_drop]

/-- The shape so far and the shapes to come fit the one that broadcasting ends
with. -/
theorem fits_of_foldlM {shapes : List Shape} {out target : Shape}
    (h : shapes.foldlM (fun (out : Shape) shape =>
      match out.join? shape with
      | some out => Except.ok out
      | none => .error (EvalError.shape (.notBroadcastable shape))) out = .ok target) :
    Fits out target ∧ ∀ shape ∈ shapes, Fits shape target := by
  induction shapes generalizing out with
  | nil =>
    cases h
    exact ⟨.refl target, by simp⟩
  | cons shape shapes ih =>
    rw [List.foldlM_cons] at h
    obtain ⟨next, hnext, hrest⟩ := bind_eq_ok_iff.1 h
    cases hjoin : out.join? shape with
    | none => simp [hjoin] at hnext
    | some joined =>
      rw [hjoin] at hnext
      cases hnext
      obtain ⟨hout, hshape⟩ := fits_of_join? hjoin
      obtain ⟨hall, hmem⟩ := ih hrest
      refine ⟨hout.trans hall, fun s hs => ?_⟩
      rcases List.mem_cons.1 hs with rfl | hs
      · exact hshape.trans hall
      · exact hmem s hs

/-- Every shape fits the common one. -/
theorem fits_of_broadcast {shapes : List Shape} {target : Shape}
    (h : broadcast shapes = .ok target) {shape : Shape} (hmem : shape ∈ shapes) :
    Fits shape target :=
  (fits_of_foldlM h).2 shape hmem

/-! ## Strides -/

theorem size_ne_zero_of_fits {shape target : Shape} (h : Fits shape target)
    (hpos : size target ≠ 0) : size shape ≠ 0 := by
  obtain ⟨lead, aligned, rfl, haligned⟩ := h
  rw [size_ne_zero_iff] at hpos ⊢
  intro d hd
  obtain ⟨t, ht, hdt⟩ := exists_of_mem_of_forall₂ haligned.flip hd
  have := hpos t (List.mem_append_right _ ht)
  omega

/-- Strides over dimensions that shape and target have in common. -/
theorem exists_alignStrides? {shape target strides : List Nat} (h : Aligned shape target)
    (hlen : strides.length = shape.length) :
    ∃ out, alignStrides? shape strides target = some out ∧
      ∀ is : List Nat, is.length = target.length → dot is out = dot (clamp shape is) strides := by
  induction h generalizing strides with
  | nil =>
    obtain rfl := List.length_eq_zero_iff.1 hlen
    exact ⟨[], rfl, fun is his => by rw [dot_nil_right, dot_nil_right]⟩
  | @cons d t shape target hd _ ih =>
    cases strides with
    | nil => cases hlen
    | cons s strides =>
      obtain ⟨out, hout, hdot⟩ := ih (Nat.succ.inj hlen)
      have hstride : ∃ stride, alignStride? d s t = some stride ∧
          ∀ i, i * stride = (if d = 1 then 0 else i) * s := by
        unfold alignStride?
        by_cases hdt : d = t
        · rw [if_pos hdt]
          refine ⟨_, rfl, fun i => ?_⟩
          split <;> simp
        · rw [if_neg hdt, if_pos (hd.resolve_left hdt)]
          refine ⟨0, rfl, fun i => ?_⟩
          rw [if_pos (hd.resolve_left hdt), Nat.mul_zero, Nat.zero_mul]
      obtain ⟨stride, hstride, hmul⟩ := hstride
      refine ⟨stride :: out, by simp [alignStrides?, hstride, hout], fun is his => ?_⟩
      cases is with
      | nil => cases his
      | cons i is =>
        rw [clamp, List.zipWith_cons_cons, dot_cons, dot_cons, hmul,
          hdot is (Nat.succ.inj his)]
        rfl

theorem dot_replicate_zero (is : List Nat) (n : Nat) : dot is (List.replicate n 0) = 0 := by
  induction n generalizing is with
  | zero => rw [List.replicate_zero, dot_nil_right]
  | succ n ih =>
    cases is with
    | nil => rfl
    | cons i is => rw [List.replicate_succ, dot_cons, ih, Nat.mul_zero]

theorem dot_append {is js ss ts : List Nat} (h : is.length = ss.length) :
    dot (is ++ js) (ss ++ ts) = dot is ss + dot js ts := by
  induction is generalizing ss with
  | nil =>
    obtain rfl := List.length_eq_zero_iff.1 h.symm
    simp [dot_nil_left]
  | cons i is ih =>
    cases ss with
    | nil => cases h
    | cons s ss =>
      rw [List.cons_append, List.cons_append, dot_cons, dot_cons, ih (Nat.succ.inj h),
        Nat.add_assoc]

theorem inBounds_clamp {shape target is : List Nat} (h : Aligned shape target)
    (his : InBounds is target) : InBounds (clamp shape is) shape := by
  induction h generalizing is with
  | nil => cases is <;> exact .nil
  | @cons d t shape target hd _ ih =>
    cases his with
    | cons hi his =>
      refine .cons ?_ (ih his)
      change (if d = 1 then 0 else _) < d
      split <;> omega

/-- The element for some indices of a target exists. -/
theorem inBounds_clamp_drop {shape target : Shape} (h : Fits shape target) {is : List Nat}
    (his : InBounds is target) :
    InBounds (clamp shape (is.drop (target.length - shape.length))) shape := by
  obtain ⟨lead, aligned, rfl, haligned⟩ := h
  refine inBounds_clamp haligned ?_
  have := List.forall₂_drop lead.length his
  rwa [List.drop_left, show lead.length = (lead ++ aligned).length - shape.length by
    rw [List.length_append, haligned.length_eq, Nat.add_sub_cancel]] at this

/-- Strides for a shape that fits: they lead from indices of the target where the
strides of the shape lead from the indices that stand for them. -/
theorem exists_broadcastStrides? {shape target : Shape} (h : Fits shape target)
    {strides : List Nat} (hstrides : strides.length = shape.length) :
    ∃ out, shape.broadcastStrides? strides target = some out ∧
      ∀ is : List Nat, is.length = target.length →
        dot is out = dot (clamp shape (is.drop (target.length - shape.length))) strides := by
  obtain ⟨lead, aligned, rfl, haligned⟩ := h
  have hlen : shape.length = aligned.length := haligned.length_eq
  have hmissing : (lead ++ aligned).length - shape.length = lead.length := by
    rw [List.length_append, hlen, Nat.add_sub_cancel]
  obtain ⟨out, hout, hdot⟩ := exists_alignStrides? haligned hstrides
  refine ⟨List.replicate lead.length 0 ++ out, ?_, fun is his => ?_⟩
  · have hle : shape.length ≤ (lead ++ aligned).length := by
      rw [List.length_append]
      omega
    simp only [broadcastStrides?, if_pos hle, hmissing, List.drop_left, hout, Option.map_some]
  · rw [List.length_append] at his
    have htake : (is.take lead.length).length = (List.replicate lead.length 0).length := by
      rw [List.length_take, List.length_replicate]
      omega
    calc dot is (List.replicate lead.length 0 ++ out)
        = dot (is.take lead.length ++ is.drop lead.length)
            (List.replicate lead.length 0 ++ out) := by rw [List.take_append_drop]
      _ = dot (is.drop lead.length) out := by
        rw [dot_append htake, dot_replicate_zero, Nat.zero_add]
      _ = dot (clamp shape (is.drop lead.length)) strides :=
        hdot _ (by rw [List.length_drop]; omega)
      _ = _ := by rw [hmissing]

/-- The shape with at least one element along every dimension. -/
def occupied (shape : Shape) : Shape :=
  shape.map (max · 1)

theorem size_occupied_cons (d : Nat) (shape : Shape) :
    size (occupied (d :: shape)) = max d 1 * size (occupied shape) := by
  rw [occupied, List.map_cons, size_cons]
  rfl

/-- Steps are at home in the occupied shape. -/
theorem outerStep_le (shape : Shape) : outerStep shape ≤ size (occupied shape) := by
  induction shape with
  | nil => exact Nat.le_refl 1
  | cons d shape ih =>
    have hstep : outerStep (d :: shape) = min (outerStep shape * max d 1) maxSize := rfl
    rw [hstep, size_occupied_cons, Nat.mul_comm (max d 1)]
    exact Nat.le_trans (Nat.min_le_left _ _) (Nat.mul_le_mul_right _ ih)

/-- Contiguous strides lead nowhere beyond the occupied shape. -/
theorem dot_contiguousStrides_lt {shape : Shape} {is : List Nat}
    (h : InBounds is (occupied shape)) :
    dot is shape.contiguousStrides < size (occupied shape) := by
  induction shape generalizing is with
  | nil =>
    rw [List.forall₂_nil_right_iff.1 h]
    exact Nat.one_pos
  | cons d shape ih =>
    obtain ⟨i, rest, hi, hrest, rfl⟩ := List.forall₂_cons_right_iff.1 h
    have hrow : i * outerStep shape ≤ i * size (occupied shape) :=
      Nat.mul_le_mul_left _ (outerStep_le shape)
    have hin : (i + 1) * size (occupied shape) ≤ max d 1 * size (occupied shape) :=
      Nat.mul_le_mul_right _ hi
    have hdot := ih hrest
    rw [contiguousStrides_cons, dot_cons, size_occupied_cons]
    rw [Nat.succ_mul] at hin
    omega

/-- Indices of an occupied target stand for indices of the shape, occupied too. -/
theorem inBounds_clamp_occupied {shape target is : List Nat} (h : Aligned shape target)
    (his : InBounds is (occupied target)) : InBounds (clamp shape is) (occupied shape) := by
  induction h generalizing is with
  | nil => cases is <;> exact .nil
  | @cons d t shape target hd _ ih =>
    obtain ⟨i, rest, hi, hrest, rfl⟩ := List.forall₂_cons_right_iff.1 his
    refine .cons ?_ (ih hrest)
    change i < max t 1 at hi
    change (if d = 1 then 0 else i) < max d 1
    split <;> omega

theorem size_occupied_le {shape target : Shape} (h : Fits shape target) :
    size (occupied shape) ≤ size (occupied target) := by
  obtain ⟨lead, aligned, rfl, haligned⟩ := h
  induction lead with
  | nil =>
    induction haligned with
    | nil => exact Nat.le_refl _
    | cons hd _ ih =>
      rw [List.nil_append, size_occupied_cons, size_occupied_cons]
      exact Nat.mul_le_mul (by omega) ih
  | cons d lead ih =>
    rw [List.cons_append, size_occupied_cons]
    exact Nat.le_trans ih (Nat.le_mul_of_pos_left _ (Nat.lt_of_lt_of_le Nat.one_pos
      (Nat.le_max_right _ _)))

theorem clamp_eq_self {shape is : List Nat} (h : InBounds is shape) : clamp shape is = is := by
  induction h with
  | nil => rfl
  | @cons i d is shape hi _ ih =>
    have hhead : (if d = 1 then 0 else i) = i := by
      split <;> omega
    rw [clamp, List.zipWith_cons_cons, hhead]
    exact congrArg (i :: ·) ih

/-- An array is read over its own shape where it stands. -/
theorem broadcastPosition_self {shape : Shape} {p : Nat} (h : p < size shape) :
    shape.broadcastPosition shape p = p := by
  rw [broadcastPosition, Nat.sub_self, List.drop_zero, clamp_eq_self (inBounds_index h),
    position_index h]

end Shape

end Lanewise
