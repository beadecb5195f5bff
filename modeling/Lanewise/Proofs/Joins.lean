import Lanewise.Proofs.Sequences
import Lanewise.Shape

/-!
# Common shapes

Broadcasting goes through the shapes one after the other and keeps a shape that it
widens. What it ends with does not depend on the way: the shapes have a common one
exactly if no two of them clash, and the common one is determined by what they have
along each dimension (`Shape.IsJoin`, `Shape.broadcast_join`).
-/

namespace Lanewise

namespace Shape

/-- The extent along the `i`-th dimension from the innermost one. A dimension that is
missing counts as 1. -/
def extent (shape : Shape) (i : Nat) : Nat :=
  shape.reverse.getD i 1

/-- Whether two shapes have different extents along one dimension, neither of them 1. -/
def Clashes (a b : Shape) : Prop :=
  ∃ i, a.extent i ≠ b.extent i ∧ a.extent i ≠ 1 ∧ b.extent i ≠ 1

/-- A shape with the largest rank of some shapes, and along each dimension with the
extent that all of them have but those that are 1 there. -/
structure IsJoin (shapes : List Shape) (out : Shape) : Prop where
  rank_le : ∀ s ∈ shapes, s.length ≤ out.length
  rank_mem : out = [] ∨ ∃ s ∈ shapes, s.length = out.length
  common : ∀ s ∈ shapes, ∀ i, s.extent i ≠ 1 → s.extent i = out.extent i
  extent_mem : ∀ i, out.extent i ≠ 1 → ∃ s ∈ shapes, s.extent i = out.extent i

theorem ext_extent {a b : Shape} (hlength : a.length = b.length)
    (h : ∀ i, a.extent i = b.extent i) : a = b := by
  refine List.reverse_injective (List.ext_getElem (by simpa using hlength) fun i ha hb => ?_)
  rw [List.getElem_eq_getD 1, List.getElem_eq_getD 1]
  exact h i

/-! ## Two shapes -/

theorem joinExtent?_eq_none_iff {a b : Nat} :
    joinExtent? a b = none ↔ a ≠ b ∧ a ≠ 1 ∧ b ≠ 1 := by
  unfold joinExtent?
  grind

theorem joinExtent?_one_right (a : Nat) : joinExtent? a 1 = some a := by
  unfold joinExtent?
  grind

theorem of_joinExtent? {a b c : Nat} (h : joinExtent? a b = some c) :
    (a ≠ 1 → a = c) ∧ (b ≠ 1 → b = c) ∧ (a = c ∨ b = c) := by
  unfold joinExtent? at h
  grind

/-- The innermost dimensions are joined one by one. -/
theorem joinInner?_getD (as bs : List Nat) :
    (joinInner? as bs = none ∧ ∃ i, joinExtent? (as.getD i 1) (bs.getD i 1) = none) ∨
      ∃ cs, joinInner? as bs = some cs ∧ cs.length = max as.length bs.length ∧
        ∀ i, joinExtent? (as.getD i 1) (bs.getD i 1) = some (cs.getD i 1) := by
  induction as generalizing bs with
  | nil =>
    refine .inr ⟨bs, rfl, by simp, fun i => ?_⟩
    simp [joinExtent?]
  | cons a as ih =>
    cases bs with
    | nil => exact .inr ⟨a :: as, rfl, by simp, fun i => joinExtent?_one_right _⟩
    | cons b bs =>
      rw [joinInner?]
      cases hhead : joinExtent? a b with
      | none => exact .inl ⟨rfl, 0, hhead⟩
      | some c =>
        rcases ih bs with ⟨hnone, i, hi⟩ | ⟨cs, hcs, hlength, hextent⟩
        · exact .inl ⟨by rw [hnone]; rfl, i + 1, hi⟩
        · refine .inr ⟨c :: cs, by rw [hcs]; rfl, by simp [hlength], fun i => ?_⟩
          cases i with
          | zero => exact hhead
          | succ i => exact hextent i

/-- Two shapes have a common one unless they clash. -/
theorem join?_extent (a b : Shape) :
    (a.join? b = none ∧ a.Clashes b) ∨
      ∃ c, a.join? b = some c ∧ c.length = max a.length b.length ∧
        ∀ i, joinExtent? (a.extent i) (b.extent i) = some (c.extent i) := by
  rw [join?]
  rcases joinInner?_getD a.reverse b.reverse with ⟨hnone, i, hi⟩ | ⟨cs, hcs, hlength, hextent⟩
  · exact .inl ⟨by rw [hnone]; rfl, i, joinExtent?_eq_none_iff.1 hi⟩
  · refine .inr ⟨cs.reverse, by rw [hcs]; rfl, by simpa using hlength, fun i => ?_⟩
    rw [extent, extent, extent, List.reverse_reverse]
    exact hextent i

/-! ## Many shapes -/

namespace IsJoin

variable {shapes more : List Shape} {out : Shape}

theorem nil : IsJoin [] [] :=
  ⟨nofun, .inl rfl, nofun, fun _ h => absurd rfl h⟩

/-- Shapes with a common one do not clash. -/
theorem not_clashes (h : IsJoin shapes out) {a b : Shape} (ha : a ∈ shapes) (hb : b ∈ shapes) :
    ¬ a.Clashes b := by
  rintro ⟨i, hne, hone, hone'⟩
  exact hne ((h.common a ha i hone).trans (h.common b hb i hone').symm)

/-- There is one common shape at most. -/
theorem unique {a b : Shape} (ha : IsJoin shapes a) (hb : IsJoin shapes b) : a = b := by
  have hlength : ∀ {a b : Shape}, IsJoin shapes a → IsJoin shapes b → a.length ≤ b.length := by
    intro a b ha hb
    rcases ha.rank_mem with rfl | ⟨s, hs, hrank⟩
    · exact Nat.zero_le _
    · exact hrank ▸ hb.rank_le s hs
  have hextent : ∀ {a b : Shape}, IsJoin shapes a → IsJoin shapes b →
      ∀ i, a.extent i ≠ 1 → a.extent i = b.extent i := by
    intro a b ha hb i hone
    obtain ⟨s, hs, hi⟩ := ha.extent_mem i hone
    rw [← hi] at hone ⊢
    exact hb.common s hs i hone
  refine ext_extent (Nat.le_antisymm (hlength ha hb) (hlength hb ha)) fun i => ?_
  by_cases hone : a.extent i = 1
  · by_cases hone' : b.extent i = 1
    · exact hone.trans hone'.symm
    · exact (hextent hb ha i hone').symm
  · exact hextent ha hb i hone

/-- A common shape is still one with shapes from among them, and with itself. -/
theorem of_subset (h : IsJoin shapes out) (hsub : shapes ⊆ more)
    (hmem : ∀ s ∈ more, s ∈ shapes ∨ s = out) : IsJoin more out where
  rank_le s hs := by
    rcases hmem s hs with hs | rfl
    · exact h.rank_le s hs
    · exact Nat.le_refl _
  rank_mem := h.rank_mem.imp_right fun ⟨s, hs, hrank⟩ => ⟨s, hsub hs, hrank⟩
  common s hs i hone := by
    rcases hmem s hs with hs | rfl
    · exact h.common s hs i hone
    · rfl
  extent_mem i hone :=
    have ⟨s, hs, hi⟩ := h.extent_mem i hone
    ⟨s, hsub hs, hi⟩

/-- One more shape is joined with the common one of those before it. -/
theorem snoc (h : IsJoin shapes out) {shape next : Shape}
    (hrank : next.length = max out.length shape.length)
    (hextent : ∀ i, joinExtent? (out.extent i) (shape.extent i) = some (next.extent i)) :
    IsJoin (shapes ++ [shape]) next where
  rank_le s hs := by
    rw [hrank]
    rcases List.mem_append.1 hs with hs | hs
    · exact Nat.le_trans (h.rank_le s hs) (Nat.le_max_left _ _)
    · rw [List.mem_singleton.1 hs]
      exact Nat.le_max_right _ _
  rank_mem := by
    right
    rcases Nat.le_total out.length shape.length with hle | hle
    · exact ⟨shape, by simp, by rw [hrank, Nat.max_eq_right hle]⟩
    · rw [hrank, Nat.max_eq_left hle]
      rcases h.rank_mem with rfl | ⟨s, hs, hlength⟩
      · exact ⟨shape, by simp, Nat.le_zero.1 hle⟩
      · exact ⟨s, List.mem_append_left _ hs, hlength⟩
  common s hs i hone := by
    obtain ⟨hout, hshape, -⟩ := of_joinExtent? (hextent i)
    rcases List.mem_append.1 hs with hs | hs
    · have hi := h.common s hs i hone
      rw [hi] at hone ⊢
      exact hout hone
    · rw [List.mem_singleton.1 hs] at hone ⊢
      exact hshape hone
  extent_mem i hone := by
    rcases (of_joinExtent? (hextent i)).2.2 with hi | hi
    · rw [← hi] at hone ⊢
      obtain ⟨s, hs, hsi⟩ := h.extent_mem i hone
      exact ⟨s, List.mem_append_left _ hs, hsi⟩
    · exact ⟨shape, by simp, hi⟩

end IsJoin

/-- From the common shape of some shapes on, broadcasting either goes through the rest
and ends with the common shape of all, or stops at a shape that clashes with one
before it. -/
theorem foldlM_isJoin {seen : List Shape} {out : Shape} (h : IsJoin seen out)
    (rest : List Shape) :
    let run := rest.foldlM (fun (out : Shape) shape =>
      match out.join? shape with
      | some out => Except.ok out
      | none => .error (EvalError.shape (.notBroadcastable shape))) out
    (∃ joined, run = .ok joined ∧ IsJoin (seen ++ rest) joined) ∨
      ∃ a ∈ seen ++ rest, ∃ b ∈ rest, a.Clashes b ∧
        run = .error (.shape (.notBroadcastable b)) := by
  induction rest generalizing seen out with
  | nil => exact .inl ⟨out, rfl, by rwa [List.append_nil]⟩
  | cons shape rest ih =>
    rw [List.foldlM_cons]
    rcases out.join?_extent shape with ⟨hnone, i, hne, hone, hone'⟩ | ⟨next, hnext, hrank, hextent⟩
    · -- what keeps the shape from being joined came from one of the shapes before it
      obtain ⟨a, ha, hai⟩ := h.extent_mem i hone
      rw [← hai] at hne hone
      refine .inr ⟨a, List.mem_append_left _ ha, shape, .head _, ⟨i, hne, hone, hone'⟩, ?_⟩
      rw [hnone]
      rfl
    · rw [hnext]
      have hall := ih (h.snoc hrank hextent)
      rw [List.append_assoc] at hall
      exact hall.imp_right fun ⟨a, ha, b, hb, hrun⟩ => ⟨a, ha, b, .tail _ hb, hrun⟩

/-- Shapes are broadcast to their common one, or two of them clash. -/
theorem broadcast_isJoin (shapes : List Shape) :
    (∃ out, broadcast shapes = .ok out ∧ IsJoin shapes out) ∨
      ∃ a ∈ shapes, ∃ b ∈ shapes, a.Clashes b ∧
        broadcast shapes = .error (.shape (.notBroadcastable b)) :=
  foldlM_isJoin .nil shapes

/-- Broadcasting finds the common shape of any number of shapes, in whatever order they
come. It fails exactly if two of them clash. Otherwise the result has the largest rank,
and along each dimension the extent, be it 0, that some of them have there and that
the others have as well unless theirs is 1. Only what shapes there are matters: others in
their place, with any of them again and with the result among them, fail or lead to the
same result. -/
theorem broadcast_join (shapes : List Shape) :
    ((∃ s ∈ shapes, broadcast shapes = .error (.shape (.notBroadcastable s))) ↔
        ∃ a ∈ shapes, ∃ b ∈ shapes, a.Clashes b) ∧
      ((¬ ∃ a ∈ shapes, ∃ b ∈ shapes, a.Clashes b) →
        ∃ out, broadcast shapes = .ok out ∧ IsJoin shapes out) ∧
      ∀ shapes' : List Shape, shapes ⊆ shapes' →
        (∀ s ∈ shapes', s ∈ shapes ∨ broadcast shapes = .ok s) →
        (broadcast shapes').toOption = (broadcast shapes).toOption := by
  rcases broadcast_isJoin shapes with ⟨out, hok, hjoin⟩ | ⟨a, ha, b, hb, hclash, herror⟩
  · have hnone : ¬ ∃ a ∈ shapes, ∃ b ∈ shapes, a.Clashes b :=
      fun ⟨a, ha, b, hb, hclash⟩ => hjoin.not_clashes ha hb hclash
    refine ⟨⟨fun ⟨_, _, herror⟩ => ?_, fun hclash => absurd hclash hnone⟩,
      fun _ => ⟨out, hok, hjoin⟩, fun shapes' hsub hmem => ?_⟩
    · cases hok.symm.trans herror
    · have hjoin' : IsJoin shapes' out := hjoin.of_subset hsub fun s hs =>
        (hmem s hs).imp_right fun hs => Except.ok.inj (hs.symm.trans hok)
      rcases broadcast_isJoin shapes' with ⟨out', hok', hout'⟩ | ⟨a, ha, b, hb, hclash, -⟩
      · rw [hok, hok', hout'.unique hjoin']
      · exact absurd hclash (hjoin'.not_clashes ha hb)
  · refine ⟨⟨fun _ => ⟨a, ha, b, hb, hclash⟩, fun _ => ⟨b, hb, herror⟩⟩,
      fun hnone => absurd ⟨a, ha, b, hb, hclash⟩ hnone, fun shapes' hsub _ => ?_⟩
    rcases broadcast_isJoin shapes' with ⟨out', -, hout'⟩ | ⟨_, -, _, -, -, herror'⟩
    · exact absurd hclash (hout'.not_clashes (hsub ha) (hsub hb))
    · rw [herror, herror']
      rfl

/-- An extent of 0 among extents of 1, and the same shapes in another order, one of
them twice, with the result. -/
theorem broadcast_join_zero :
    let shapes : List Shape := [[3], [0, 1], [1, 1]]
    (∃ out, broadcast shapes = .ok out ∧ IsJoin shapes out) ∧
      (broadcast [[1, 1], [0, 3], [3], [0, 1], [3]]).toOption = some [0, 3] := by
  intro shapes
  have hok : broadcast shapes = .ok [0, 3] := rfl
  obtain ⟨hfails, hjoin, hsame⟩ := broadcast_join shapes
  refine ⟨hjoin fun hclash => ?_, (hsame _ (by decide) ?_).trans (congrArg _ hok)⟩
  · obtain ⟨s, -, herror⟩ := hfails.2 hclash
    cases hok.symm.trans herror
  · rw [hok]
    simp [shapes]

end Shape

end Lanewise
