import Lanewise.Proofs.Groups

/-!
# Integer reductions at another width

The two integer types stand for each other, so an integer fold may go into an output
of the other width. The fold runs at the width of its operation, but its accumulator is
an element of the output: it starts from the identity at the width of the output, and
every run stores it there.

Sums and products come out right all the same, since narrowing respects both
(`Storage.tolerates_sum_prod`). A minimum or maximum starts from an extreme of the
wrong width. In a narrower output that does no harm to a result that fits there; in a
wider one the start is read as -1 or 0 and takes part in the result
(`Lane.Absorbs.stored_integer`).
-/

namespace Lanewise

open Shape (size maxSize)

/-! ## Integers -/

def ElementType.IsInteger (t : ElementType) : Prop :=
  t = .int ∨ t = .long

instance (t : ElementType) : Decidable t.IsInteger :=
  inferInstanceAs (Decidable (_ ∨ _))

/-- A type that goes with an integer type is one. -/
theorem ElementType.IsInteger.of_accepts {s t : ElementType} (ht : t.IsInteger)
    (h : s.accepts t = true) : s.IsInteger := by
  rcases ht with rfl | rfl <;> cases s <;> first
    | exact .inl rfl
    | exact .inr rfl
    | cases h

theorem ElementType.IsInteger.ne_str {t : ElementType} (ht : t.IsInteger) : t ≠ .str := by
  rcases ht with rfl | rfl <;> nofun

/-- Storages of integers. -/
theorem Storage.eq_of_isInteger {s : Storage} (h : s.elementType.IsInteger) :
    s = .int ∨ s = .long := by
  cases s <;> first
    | exact .inl rfl
    | exact .inr rfl
    | rcases h with h | h <;> cases h

namespace Reducer

variable {r : Reducer} {t : ElementType} {combine : t.Value → t.Value → t.Value} {first : t.Value}

/-- Integers are combined in any grouping. -/
theorem combine_assoc (ht : t.IsInteger) (h : r.on? t = some combine) (a b c : t.Value) :
    combine (combine a b) c = combine a (combine b c) := by
  rcases ht with rfl | rfl
  · cases r with
    | sum => cases h; exact Int32.add_assoc a b c
    | prod => cases h; exact Int32.mul_assoc a b c
    | min => cases h; grind
    | max => cases h; grind
  · cases r with
    | sum => cases h; exact Int64.add_assoc a b c
    | prod => cases h; exact Int64.mul_assoc a b c
    | min => cases h; grind
    | max => cases h; grind

/-- The identity changes no integer. -/
theorem combine_identity (ht : t.IsInteger) (h : r.on? t = some combine)
    (hfirst : (r.identity? t).bind (·.value? t) = some first) (a : t.Value) :
    combine a first = a ∧ combine first a = a := by
  rcases ht with rfl | rfl
  · cases r with
    | sum => cases h; cases hfirst; exact ⟨Int32.add_zero a, Int32.zero_add a⟩
    | prod => cases h; cases hfirst; exact ⟨Int32.mul_one a, Int32.one_mul a⟩
    | min => cases h; cases hfirst; have := Int32.le_maxValue a; grind
    | max => cases h; cases hfirst; have := Int32.minValue_le a; grind
  · cases r with
    | sum => cases h; cases hfirst; exact ⟨Int64.add_zero a, Int64.zero_add a⟩
    | prod => cases h; cases hfirst; exact ⟨Int64.mul_one a, Int64.one_mul a⟩
    | min => cases h; cases hfirst; have := Int64.le_maxValue a; grind
    | max => cases h; cases hfirst; have := Int64.minValue_le a; grind

/-- A fold from a start is the start combined with the fold from the identity. -/
theorem foldl_eq_combine (ht : t.IsInteger) (h : r.on? t = some combine)
    (hfirst : (r.identity? t).bind (·.value? t) = some first) (seed : t.Value)
    (values : List t.Value) :
    values.foldl combine seed = combine seed (values.foldl combine first) := by
  have hshift : ∀ a, values.foldl combine (combine seed a)
      = combine seed (values.foldl combine a) := by
    induction values with
    | nil => intro a; rfl
    | cons v values ih =>
      intro a
      rw [List.foldl_cons, List.foldl_cons, combine_assoc ht h, ih]
  rw [← hshift, (combine_identity ht h hfirst seed).1]

end Reducer

/-! ## What a storage of the other width keeps -/

namespace Storage

/-- 32 bits are kept by both storages. -/
theorem keeps_int {s : Storage} (hs : s.elementType.IsInteger) (n : Int32) :
    s.Keeps (t := .int) n := by
  rcases eq_of_isInteger hs with rfl | rfl
  · rfl
  · exact congrArg some (Int32.toInt32_toInt64 n)

/-- 64 bits are kept by 32 bits where they fit. -/
theorem int_keeps_long_iff {n : Int64} : int.Keeps (t := .long) n ↔
    Int32.minValue.toInt64 ≤ n ∧ n ≤ Int32.maxValue.toInt64 := by
  have hnarrow : int.Keeps (t := .long) n ↔ n.toInt32.toInt64 = n :=
    ⟨fun h => Option.some.inj h, fun h => congrArg some h⟩
  rw [hnarrow, ← Int64.toInt_inj, Int64.le_iff_toInt_le, Int64.le_iff_toInt_le,
    Int32.toInt_toInt64, Int64.toInt_toInt32, Int32.toInt_toInt64, Int32.toInt_toInt64,
    Int32.toInt_maxValue, Int32.toInt_minValue, Int.bmod_def]
  have := n.toInt_lt
  have := n.le_toInt
  split <;> omega

/-- The start of a fold is kept by the storage whose identity it is. -/
theorem keeps_seed {s : Storage} {t : ElementType} {r : Reducer} {seed : t.Value}
    (hs : s.elementType.IsInteger) (ht : t.IsInteger)
    (hseed : (r.identity? s.elementType).bind (·.value? t) = some seed) : s.Keeps seed := by
  rcases ht with rfl | rfl
  · exact keeps_int hs seed
  rcases eq_of_isInteger hs with rfl | rfl
  · cases r <;> cases hseed <;> exact int_keeps_long_iff.2 (by decide)
  · exact keeps_of_elementType (s := .long) rfl (by decide) seed

/-- Narrowing respects sums and products, so that it may as well come last. -/
theorem toInt32_foldl {r : Reducer} (hr : r = .sum ∨ r = .prod)
    {combine : Int64 → Int64 → Int64} (h : r.on? .long = some combine) {a b : Int64}
    (hab : a.toInt32 = b.toInt32) (values : List Int64) :
    (values.foldl combine a).toInt32 = (values.foldl combine b).toInt32 := by
  induction values generalizing a b with
  | nil => exact hab
  | cons v values ih =>
    apply ih
    rcases hr with rfl | rfl <;> cases h
    · rw [Int64.toInt32_add, Int64.toInt32_add, hab]
    · rw [Int64.toInt32_mul, Int64.toInt32_mul, hab]

variable {s : Storage} {t : ElementType} {r : Reducer} {combine : t.Value → t.Value → t.Value}
  {seed : t.Value}

/-- Integer storages tolerate runs of sums and products. -/
theorem tolerates_sum_prod (hs : s.elementType.IsInteger) (ht : t.IsInteger)
    (hr : r = .sum ∨ r = .prod) (h : r.on? t = some combine) (values : List t.Value) :
    s.Tolerates combine seed values := by
  rcases ht with rfl | rfl
  · exact tolerates_of_keeps fun _ _ => keeps_int hs _
  · rcases eq_of_isInteger hs with rfl | rfl
    · intro before after _ l l' old hl hwrite hold
      obtain ⟨_, cell?⟩ := l
      cases hl
      cases hwrite
      cases hold
      have hsame := toInt32_foldl hr h (Int32.toInt32_toInt64 (before.foldl combine seed).toInt32)
        after
      exact congrArg (fun n => some (⟨.int, some n⟩ : Lane)) hsame
    · exact tolerates_of_keeps fun _ _ => keeps_of_elementType rfl (by decide) _

/-- What lies between two values that are kept is kept. -/
theorem int_keeps_between {low n high : Int64} (hlow : int.Keeps (t := .long) low)
    (hhigh : int.Keeps (t := .long) high) (hle : low ≤ n) (hge : n ≤ high) :
    int.Keeps (t := .long) n := by
  rw [int_keeps_long_iff] at *
  exact ⟨Int64.le_trans hlow.1 hle, Int64.le_trans hge hhigh.2⟩

/-- A minimum or maximum only ever moves in one direction. -/
theorem foldl_min_le (values : List Int64) (a : Int64) :
    values.foldl (fun a b => if b < a then b else a) a ≤ a := by
  induction values generalizing a with
  | nil => exact Int64.le_refl a
  | cons v values ih =>
    specialize ih (if v < a then v else a)
    rw [List.foldl_cons]
    grind

theorem le_foldl_max (values : List Int64) (a : Int64) :
    a ≤ values.foldl (fun a b => if a < b then b else a) a := by
  induction values generalizing a with
  | nil => exact Int64.le_refl a
  | cons v values ih =>
    specialize ih (if a < v then v else a)
    rw [List.foldl_cons]
    grind

/-- 32 bits tolerate runs of a minimum or maximum whose start and result fit: what is
stored in between lies between the two. -/
theorem int_tolerates_min_max (hr : r = .min ∨ r = .max)
    {combine : ElementType.long.Value → ElementType.long.Value → ElementType.long.Value}
    (h : r.on? .long = some combine) {seed : ElementType.long.Value}
    {values : List ElementType.long.Value} (hseed : int.Keeps seed)
    (hlast : int.Keeps (values.foldl combine seed)) : int.Tolerates combine seed values := by
  refine tolerates_of_keeps fun before hpre => ?_
  obtain ⟨after, rfl⟩ := hpre
  rw [List.foldl_append] at hlast
  rcases hr with rfl | rfl <;> cases h
  · exact int_keeps_between hlast hseed (foldl_min_le _ _) (foldl_min_le _ _)
  · exact int_keeps_between hseed hlast (le_foldl_max _ _) (le_foldl_max _ _)

end Storage

/-! ## One element -/

section Element

variable {t : ElementType} {r : Reducer} {combine : t.Value → t.Value → t.Value}
  {first seed : t.Value} {s : Storage}

/-- An integer element that absorbed values: their fold, combined with what the element
started from, as the storage has it. A 32-bit element that takes a minimum or maximum of
64 bits must be able to keep that. -/
theorem Lane.Absorbs.stored_integer {l l' : Lane} {values : List t.Value}
    (h : l.Absorbs combine values l') (ht : t.IsInteger) (hs : l.storage.elementType.IsInteger)
    (hcombine : r.on? t = some combine)
    (hfirst : (r.identity? t).bind (·.value? t) = some first)
    (hseed : (r.identity? l.storage.elementType).bind (·.value? t) = some seed)
    (hread : l.read? t = some seed) (hvalues : values ≠ [])
    (hkeeps : r = .sum ∨ r = .prod ∨ l.storage.Keeps (combine seed (values.foldl combine first))) :
    l.write? t (combine seed (values.foldl combine first)) = some l' := by
  rw [← Reducer.foldl_eq_combine ht hcombine hfirst] at hkeeps ⊢
  have htolerates : l.storage.Tolerates combine seed values := by
    rcases ht with rfl | rfl
    · exact Storage.tolerates_of_keeps fun _ _ => Storage.keeps_int hs _
    · rcases Storage.eq_of_isInteger hs with hint | hlong
      · have hstart := Storage.keeps_seed hs (.inr rfl) hseed
        rw [hint] at hstart hkeeps ⊢
        cases r with
        | sum => exact Storage.tolerates_sum_prod (.inl rfl) (.inr rfl) (.inl rfl) hcombine _
        | prod => exact Storage.tolerates_sum_prod (.inl rfl) (.inr rfl) (.inr rfl) hcombine _
        | min =>
          have hkept := (hkeeps.resolve_left nofun).resolve_left nofun
          exact Storage.int_tolerates_min_max (.inl rfl) hcombine hstart hkept
        | max =>
          have hkept := (hkeeps.resolve_left nofun).resolve_left nofun
          exact Storage.int_tolerates_min_max (.inr rfl) hcombine hstart hkept
      · rw [hlong]
        exact Storage.tolerates_of_keeps fun _ _ => Storage.keeps_of_elementType rfl (by decide) _
  exact ((h.stored hread htolerates).2.resolve_left fun h => hvalues h.1)

/-- Results that come out right: sums and products, results at the width of the output,
and 64-bit results that the output can keep. -/
def Reducer.ExactIn (r : Reducer) (s : Storage) {t : ElementType} (result : t.Value) : Prop :=
  r = .sum ∨ r = .prod ∨ s.elementType = t ∨ t = .long ∧ s.Keeps result

/-- Sums and products start from one number, whatever the width of the output is. -/
theorem Reducer.seed_sum_prod (hr : r = .sum ∨ r = .prod) (ht : t.IsInteger)
    (hs : s.elementType.IsInteger)
    (hseed : (r.identity? s.elementType).bind (·.value? t) = some seed) :
    (r.identity? t).bind (·.value? t) = some seed := by
  rcases ht with rfl | rfl <;> rcases Storage.eq_of_isInteger hs with rfl | rfl <;>
    rcases hr with rfl | rfl <;> exact hseed

/-- What 32 bits can keep is not beyond the extremes of 32 bits. -/
theorem Reducer.combine_seed_of_keeps
    {combine : ElementType.long.Value → ElementType.long.Value → ElementType.long.Value}
    {seed result : ElementType.long.Value} (hcombine : r.on? .long = some combine)
    (hseed : (r.identity? .int).bind (·.value? .long) = some seed)
    (hkeeps : Storage.int.Keeps result) : combine seed result = result := by
  obtain ⟨hlow, hhigh⟩ := Storage.int_keeps_long_iff.1 hkeeps
  cases r with
  | sum => cases hcombine; cases hseed; exact Int64.zero_add result
  | prod => cases hcombine; cases hseed; exact Int64.one_mul result
  | min => cases hcombine; cases hseed; grind
  | max => cases hcombine; cases hseed; grind

/-- The start does not show in a result that comes out right. -/
theorem Reducer.ExactIn.combine_seed {result : t.Value} (h : r.ExactIn s result)
    (ht : t.IsInteger) (hs : s.elementType.IsInteger) (hcombine : r.on? t = some combine)
    (hseed : (r.identity? s.elementType).bind (·.value? t) = some seed) :
    combine seed result = result ∧
      (r = .sum ∨ r = .prod ∨ s.Keeps (combine seed result)) := by
  have hsame : combine seed result = result := by
    rcases h with hsum | hprod | htype | ⟨rfl, hkeeps⟩
    · have hfirst := Reducer.seed_sum_prod (.inl hsum) ht hs hseed
      exact (Reducer.combine_identity ht hcombine hfirst result).2
    · have hfirst := Reducer.seed_sum_prod (.inr hprod) ht hs hseed
      exact (Reducer.combine_identity ht hcombine hfirst result).2
    · rw [htype] at hseed
      exact (Reducer.combine_identity ht hcombine hseed result).2
    · rcases Storage.eq_of_isInteger hs with rfl | rfl
      · exact Reducer.combine_seed_of_keeps hcombine hseed hkeeps
      · exact (Reducer.combine_identity ht hcombine hseed result).2
  refine ⟨hsame, ?_⟩
  rw [hsame]
  rcases h with hsum | hprod | htype | ⟨-, hkeeps⟩
  · exact .inl hsum
  · exact .inr (.inl hprod)
  · exact .inr (.inr (Storage.keeps_of_elementType htype ht.ne_str result))
  · exact .inr (.inr hkeeps)

end Element

/-! ## Whole outputs -/

namespace Geometry

variable {g : Geometry} {t : ElementType}

/-- Where there is something to go over, it goes into every element. -/
theorem group_ne_nil (hpos : size g.shape ≠ 0)
    (haxis : ∀ axis, g.reduction? = some (.axis axis) → axis < g.shape.length) (q : Nat) :
    g.group q ≠ [] := by
  intro hnil
  cases htarget : g.reduction? with
  | none =>
    rw [group, htarget] at hnil
    exact hpos (List.range_eq_nil.1 hnil)
  | some target =>
    cases target with
    | all =>
      rw [group, htarget] at hnil
      exact hpos (List.range_eq_nil.1 hnil)
    | axis axis =>
      have hlt := haxis axis htarget
      rw [g.group_axis htarget hlt, List.map_eq_nil_iff, List.range_eq_nil] at hnil
      rw [Shape.size_eraseIdx hlt, hnil, Nat.zero_mul] at hpos
      exact hpos rfl

/-- The reduction of a group: the fold of its values from the identity. -/
def reduced (g : Geometry) (combine : t.Value → t.Value → t.Value) (first : t.Value)
    (value : Nat → t.Value) (q : Nat) : t.Value :=
  (g.group q).foldl (fun acc p => combine acc (value p)) first

/-- Elements are the reductions of their groups, converted to the width of the output,
where these come out right. In any case they are the reductions combined with the start
at the width of the output, as long as that can be kept. -/
def ReducesIntegers (g : Geometry) (r : Reducer) (combine : t.Value → t.Value → t.Value)
    (first seed : t.Value) (value : Nat → t.Value) (c : Column) : Prop :=
  ∀ q < c.size,
    (r.ExactIn c.storage (g.reduced combine first value q) →
      (Lane.unset c.storage).write? t (g.reduced combine first value q) = some (c.lane q)) ∧
    (r = .sum ∨ r = .prod ∨ c.storage.Keeps (combine seed (g.reduced combine first value q)) →
      (Lane.unset c.storage).write? t (combine seed (g.reduced combine first value q))
        = some (c.lane q))

theorem AbsorbsGroups.reducesIntegers {r : Reducer} {combine : t.Value → t.Value → t.Value}
    {first seed : t.Value} {value : Nat → t.Value} {start c : Column}
    (h : g.AbsorbsGroups start combine value c) (halike : start.Alike c) (ht : t.IsInteger)
    (hs : c.elementType.IsInteger) (hcombine : r.on? t = some combine)
    (hfirst : (r.identity? t).bind (·.value? t) = some first)
    (hseed : (r.identity? c.elementType).bind (·.value? t) = some seed)
    (hstart : ∀ q < c.size, (start.lane q).read? t = some seed)
    (hgroups : ∀ q, g.group q ≠ []) : g.ReducesIntegers r combine first seed value c := by
  intro q hq
  have hstorage : (start.lane q).storage = c.storage := halike.storage.symm
  have hvalues : (g.group q).map value ≠ [] := fun hnil => hgroups q (List.map_eq_nil_iff.1 hnil)
  have hgeneral : (r = .sum ∨ r = .prod ∨
      c.storage.Keeps (combine seed (g.reduced combine first value q)) →
      (Lane.unset c.storage).write? t (combine seed (g.reduced combine first value q))
        = some (c.lane q)) := by
    intro hkeeps
    have hstored := (h q hq).stored_integer ht (by rwa [hstorage]) hcombine hfirst
      (by rwa [hstorage]) (hstart q hq) hvalues
      (by rwa [hstorage, List.foldl_map])
    rw [List.foldl_map] at hstored
    rw [Lane.write?_congr hstorage.symm]
    exact hstored
  refine ⟨fun hexact => ?_, hgeneral⟩
  obtain ⟨hsame, hkeeps⟩ := hexact.combine_seed ht hs hcombine hseed
  have hwrite := hgeneral hkeeps
  rwa [hsame] at hwrite

end Geometry

/-- An output for a program that ends in a fold goes with the type of the fold. -/
theorem Accepted.accepts {k : Kernel} {operands : List Operand} {out : NdArray} {g : Geometry}
    {before : List Instruction} {last : Instruction} {r : Reducer} {t : ElementType}
    (h : Accepted k operands out g) (hvalid : k.Valid) (hk : k.EndsInFold before last r t) :
    out.elementType.accepts t = true := by
  obtain ⟨-, found, hfound, hout⟩ := of_checkOperands h.checked
  obtain ⟨declared, hdeclared, haccepts⟩ :=
    (hvalid.wellTyped last hk.last_mem).dest t (by rw [hk.operation]; rfl)
  rw [Kernel.outputType?, List.head?_eq_getElem?] at hfound
  rw [hk.dest, show (0 : UInt8).toNat = 0 from rfl, hfound] at hdeclared
  cases hdeclared
  exact ElementType.accepts_trans hout haccepts

/-- An output for a program that ends in an integer fold holds integers. -/
theorem Accepted.isInteger {k : Kernel} {operands : List Operand} {out : NdArray} {g : Geometry}
    {before : List Instruction} {last : Instruction} {r : Reducer} {t : ElementType}
    (h : Accepted k operands out g) (hvalid : k.Valid) (hk : k.EndsInFold before last r t)
    (ht : t.IsInteger) : out.elementType.IsInteger :=
  ht.of_accepts (h.accepts hvalid hk)

/-- Integer types have an identity for every reducer, which both of them can read. -/
theorem Reducer.exists_seed {r : Reducer} {s t : ElementType} (hs : s.IsInteger)
    (ht : t.IsInteger) : ∃ seed, (r.identity? s).bind (·.value? t) = some seed := by
  rcases hs with rfl | rfl <;> rcases ht with rfl | rfl <;> cases r <;> exact ⟨_, rfl⟩

section Calls

variable [Allocator] [Scheduler] {k : Kernel} {operands : List Operand} {out : NdArray}
  {g : Geometry} {before : List Instruction} {last : Instruction} {r : Reducer} {t : ElementType}
  {combine : t.Value → t.Value → t.Value} {first seed : t.Value}

/-- One plan for a program that ends in an integer fold. -/
theorem evaluateValid_reducesIntegers {config : EngineConfig} {policy : PlanPolicy}
    {plan : ExecutionPlan} (hvalid : k.Valid) (hk : k.EndsInFold before last r t) (ht : t.IsInteger)
    (hcombine : r.on? t = some combine)
    (hfirst : (r.identity? t).bind (·.value? t) = some first)
    (hseed : (r.identity? out.elementType).bind (·.value? t) = some seed)
    (haccepted : Accepted k operands out g) (hpos : size g.shape ≠ 0)
    (hcount : size g.shape ≤ maxSize) (hconfig : config.validate = .ok ())
    (hout : out.WellFormed) (harrays : ∀ o ∈ operands, (o.resolve out).WellFormed)
    (hroom : HasRoom config k operands out)
    (hplan : policy ⟨g.shape, operands.length, g.reduction?⟩ config = some plan)
    (hfits : g.fits plan = true) (hsuits : g.Suits config operands.length plan) :
    (∀ p < size g.shape, (k.valueAt? before last t operands out g.shape p).isSome) ∧
      ∃ final, evaluateValid config policy k operands out = (.ok (), { out with data := final }) ∧
        out.data.Alike final ∧ g.ReducesIntegers r combine first seed
          (fun p => (k.valueAt? before last t operands out g.shape p).getD seed) final := by
  obtain ⟨hvalues, start, final, hrun, hstart, hfinal, hlanes, habsorbs⟩ :=
    evaluateValid_absorbs hvalid hk hcombine hseed haccepted hcount hconfig hout harrays hroom hplan
      hfits hsuits
  have htype : final.elementType = out.elementType := congrArg Storage.elementType hfinal.storage
  have halike : start.Alike final :=
    ⟨hfinal.storage.trans hstart.storage.symm, hfinal.size.trans hstart.size.symm⟩
  have hs : final.elementType.IsInteger := htype ▸ haccepted.isInteger hvalid hk ht
  have hgroups := g.group_ne_nil hpos fun axis htarget =>
    (haccepted.axis_spec (hk.isReduction hvalid) htarget).1
  refine ⟨hvalues, final, hrun, hfinal, habsorbs.reducesIntegers halike ht hs hcombine hfirst
    (by rwa [htype]) (fun q hq => hlanes q ?_) hgroups⟩
  rwa [← halike.size]

namespace Engine

variable {engine : Engine}

/-- A call with a program that ends in an integer fold, into an output of either width.
Sums and products, results at the width of the output and 64-bit results that fit into
32 bits are the reductions of the groups, converted to the width of the output. Any
other minimum or maximum is combined with the identity at the width of the output, read
at the width of the fold. It is the same with every plan that can carry out the program,
under every configuration. -/
theorem evaluateInto_reducesIntegers (h : engine.Admits k operands out)
    (hvalid : k.validate = .ok ()) (hk : k.EndsInFold before last r t) (ht : t.IsInteger)
    (haccepted : Accepted k operands out g) (hpos : size g.shape ≠ 0)
    (hcount : size g.shape < UInt64.size) :
    (∃ byte, last.immediate? = some byte ∧
      Geometry.target? g.shape (some (.ofByte byte)) = .ok g.reduction?) ∧
    ∃ (combine : t.Value → t.Value → t.Value) (first seed : t.Value) (value : Nat → t.Value),
      r.on? t = some combine ∧ (r.identity? t).bind (·.value? t) = some first ∧
      (r.identity? out.elementType).bind (·.value? t) = some seed ∧
      (∀ p < size g.shape, k.valueAt? before last t operands out g.shape p = some (value p)) ∧
      (engine.evaluateInto k operands out).result = .ok () ∧
      (engine.evaluateInto k operands out).output.shape = out.shape ∧
      out.data.Alike (engine.evaluateInto k operands out).output.data ∧
      g.ReducesIntegers r combine first seed value
        (engine.evaluateInto k operands out).output.data ∧
      ∀ config plan, config.validate = .ok () → HasRoom config k operands out →
        g.fits plan = true → g.Suits config operands.length plan →
        ∃ final, evaluateValid config (.fixed plan) k operands out
            = (.ok (), { out with data := final }) ∧
          out.data.Alike final ∧ g.ReducesIntegers r combine first seed value final := by
  have hkernel := Kernel.valid_of_validate hvalid
  obtain ⟨-, byte, hbyte, haxis⟩ := hkernel.reduction?_eq hk.last_mem (by rw [hk.operation]; rfl)
  have hs := haccepted.isInteger hkernel hk ht
  obtain ⟨combine, hcombine⟩ := Option.isSome_iff_exists.1 (hk.isSome_on? hkernel)
  obtain ⟨first, hfirst⟩ := Reducer.exists_seed (r := r) ht ht
  obtain ⟨seed, hseed⟩ := Reducer.exists_seed (r := r) hs ht
  have hcountable : size g.shape ≤ maxSize := by
    unfold maxSize
    omega
  obtain ⟨usual, husual⟩ := PlanPolicy.exists_byThresholds
    ⟨g.shape, operands.length, g.reduction?⟩ engine.config (Shape.size?_eq_some hpos hcountable)
  -- a reduction is never cut into tasks
  obtain ⟨hfits, hsuits⟩ := g.suits_byThresholds husual fun hnone =>
    absurd hnone (haccepted.reduction?_ne_none (hk.isReduction hkernel))
  obtain ⟨hvalues, final, heq, hfinal, hreduces⟩ := evaluateValid_reducesIntegers hkernel hk ht
    hcombine hfirst hseed haccepted hpos hcountable h.config h.output h.arrays h.room husual hfits
    hsuits
  obtain ⟨hresult, houtput⟩ := engine.evaluateInto_valid operands out (.inr hvalid)
  rw [hresult, houtput, h.policy, heq]
  refine ⟨⟨byte, hbyte, haxis ▸ haccepted.geometry.2.1⟩, combine, first, seed, _, hcombine,
    hfirst, hseed, fun p hp => ?_, rfl, rfl, hfinal, hreduces, fun config plan hconfig hroom hfits
      hsuits => ?_⟩
  · obtain ⟨v, hv⟩ := Option.isSome_iff_exists.1 (hvalues p hp)
    rw [hv, Option.getD_some]
  · have hfixed : PlanPolicy.fixed plan ⟨g.shape, operands.length, g.reduction?⟩ config
        = some plan := rfl
    exact (evaluateValid_reducesIntegers hkernel hk ht hcombine hfirst hseed haccepted hpos
      hcountable hconfig h.output h.arrays hroom hfixed hfits hsuits).2

end Engine

end Calls

/-- 32-bit integers as an array. -/
def NdArray.ints (shape : Shape) (values : List Int32) : NdArray :=
  ⟨⟨.int, (values.toArray : Array Int32)⟩, shape⟩

/-- `min_lln r0, r1, 255` -/
def Kernel.minLongs : Kernel :=
  ⟨⟨[111, 0, 1, 255]⟩, [.long, .long], [.long], [], 0⟩

/-- `min_iin r0, r1, 255` -/
def Kernel.minInts : Kernel :=
  ⟨⟨[110, 0, 1, 255]⟩, [.int, .int], [.int], [], 0⟩

namespace Engine

attribute [local instance] Allocator.roomy Scheduler.inOrder

/-- The least of three 64-bit integers, into 32 bits. -/
theorem evaluateInto_reducesIntegers_minLongs :
    Shape.size [3] ≠ 0 ∧
    ((usual .serial).evaluateInto .minLongs [.array (.longs [3] [5, 3, 7])]
      (.ints [] [0])).result = .ok () ∧
    ∃ (combine : ElementType.long.Value → ElementType.long.Value → ElementType.long.Value)
      (first seed : ElementType.long.Value) (value : Nat → ElementType.long.Value),
      Reducer.on? .min .long = some combine ∧
      (⟨[3], some .all, []⟩ : Geometry).ReducesIntegers .min combine first seed value
        ((usual .serial).evaluateInto .minLongs [.array (.longs [3] [5, 3, 7])]
          (.ints [] [0])).output.data := by
  have hadmits : (usual .serial).Admits .minLongs [.array (.longs [3] [5, 3, 7])]
      (.ints [] [0]) := by decide +kernel
  have haccepted : Accepted .minLongs [.array (.longs [3] [5, 3, 7])] (.ints [] [0])
      ⟨[3], some .all, []⟩ := by decide +kernel
  have hprogram : Kernel.minLongs.EndsInFold [] (Kernel.minLongs.instructions.getLast
      (by decide +kernel)) .min .long := by decide +kernel
  have hpos : Shape.size [3] ≠ 0 := by decide
  obtain ⟨-, combine, first, seed, value, hcombine, -, -, -, hresult, -, -, hreduces, -⟩ :=
    evaluateInto_reducesIntegers hadmits (by decide +kernel) hprogram (.inr rfl) haccepted hpos
      (by decide +kernel)
  exact ⟨hpos, hresult, combine, first, seed, value, hcombine, hreduces⟩

/-- A 32-bit minimum into 64 bits starts from the greatest 64-bit integer, which reads
as -1. -/
theorem not_evaluateInto_reducesIntegers : ¬ ∀ (engine : Engine) (k : Kernel)
    (operands : List Operand) (out : NdArray) (g : Geometry) (before : List Instruction)
    (last : Instruction) (r : Reducer) (t : ElementType), engine.Admits k operands out →
    k.validate = .ok () → k.EndsInFold before last r t → t.IsInteger →
    Accepted k operands out g → size g.shape ≠ 0 → size g.shape < UInt64.size →
    ∀ (combine : t.Value → t.Value → t.Value) (first : t.Value) (value : Nat → t.Value),
      r.on? t = some combine → (r.identity? t).bind (·.value? t) = some first →
      (∀ p < size g.shape, k.valueAt? before last t operands out g.shape p = some (value p)) →
      ∀ q < out.data.size, (Lane.unset out.data.storage).write? t (g.reduced combine first value q)
        = some ((engine.evaluateInto k operands out).output.data.lane q) := by
  intro h
  have haccepted : Accepted .minInts [.array (.ints [2] [5, 7])] (.longs [] [0])
      ⟨[2], some .all, []⟩ := by decide +kernel
  have hprogram : Kernel.minInts.EndsInFold [] (Kernel.minInts.instructions.getLast
      (by decide +kernel)) .min .int := by decide +kernel
  have hleast := h (usual .serial) .minInts [.array (.ints [2] [5, 7])] (.longs [] [0])
    ⟨[2], some .all, []⟩ [] _ .min .int (by decide +kernel) (by decide +kernel) hprogram
    (.inl rfl) haccepted (by decide) (by decide +kernel) _ _
    (fun p => ([5, 7] : List Int32).getD p 0) rfl rfl (by decide +kernel) 0 (by decide)
  exact absurd (congrArg (·.bind (·.read? .long)) hleast) (by decide +kernel)

example : ((usual .serial).evaluateInto .minInts [.array (.ints [2] [5, 7])]
    (.longs [] [0])).output = .longs [] [-1] := by decide +kernel

end Engine

end Lanewise
