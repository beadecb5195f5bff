import Mathlib
import Lanewise.Rendezvous

/-!
# Cycles of a rendezvous

The parties take their steps in any order: they arrive, and look whether they may
go on as often as they happen to wake up. The record of a run (`Gathering.log`)
shows when calls are entered and left. The calls of a cycle are left only after
all of them were entered, the last party to enter leads, and whoever has not left
yet does so with its next step (`Gathering.run_cycles`).

A party never is more than one generation behind, since the next one cannot end
without it. So generations may wrap around.
-/

namespace Lanewise

namespace Rendezvous

/-! ## The record of a run -/

/-- What a step shows of a call. The calls of a party are counted from 1. -/
inductive Event where
  | enter (party call : Nat)
  /-- The call returns; it answers whether the party leads the cycle. -/
  | leave (party call : Nat) (leads : Bool)
  deriving DecidableEq

/-- Calls that have begun. -/
def Party.entered (p : Party) : Nat :=
  if p.waiting?.isSome then p.returned + 1 else p.returned

namespace Gathering

/-- What the next step of a party shows. -/
def events (g : Gathering) (party : Nat) : List Event :=
  match g.members[party]?, (g.step party).members[party]? with
  | some p, some q =>
    (if p.entered < q.entered then [.enter party q.entered] else [])
      ++ (if p.returned < q.returned then [.leave party q.returned (p.led < q.led)] else [])
  | _, _ => []

/-- What the steps of a schedule show. -/
def log (g : Gathering) : List Nat → List Event
  | [] => []
  | party :: schedule => g.events party ++ (g.step party).log schedule

/-- Parties that wait for the present generation to end. -/
def blocked (g : Gathering) : Nat :=
  g.members.countP fun p => p.waiting? = some g.barrier.generation

@[simp] theorem run_snoc (g : Gathering) (schedule : List Nat) (party : Nat) :
    g.run (schedule ++ [party]) = (g.run schedule).step party := by
  simp [run]

@[simp] theorem log_snoc (g : Gathering) (schedule : List Nat) (party : Nat) :
    g.log (schedule ++ [party]) = g.log schedule ++ (g.run schedule).events party := by
  induction schedule generalizing g with
  | nil => simp [log, run]
  | cons first schedule ih =>
    show g.events first ++ (g.step first).log (schedule ++ [party]) = _
    rw [ih, log, List.append_assoc]
    rfl

end Gathering

/-! ## Where the parties stand -/

/-- Where a party stands when a number of cycles are over. -/
inductive Party.Stands (cycle : Nat) (p : Party) : Prop
  | away (waiting : p.waiting? = none) (returned : p.returned = cycle)
  /-- It waits for the cycle under way to end. -/
  | blocked (waiting : p.waiting? = some (UInt64.ofNat cycle)) (returned : p.returned = cycle)
  /-- The cycle it waited for is over, and it has not woken up yet. -/
  | released (waiting : p.waiting? = some (UInt64.ofNat p.returned))
    (returned : p.returned + 1 = cycle)

theorem ofNat_succ_ne (n : Nat) : UInt64.ofNat (n + 1) ≠ UInt64.ofNat n := by
  intro h
  have hmod := congrArg UInt64.toNat h
  simp only [UInt64.toNat_ofNat'] at hmod
  omega

namespace Party.Stands

variable {p : Party} {cycle : Nat}

theorem returned_le (h : p.Stands cycle) : p.returned ≤ cycle := by
  cases h <;> omega

theorem cycle_le_entered (h : p.Stands cycle) : cycle ≤ p.entered := by
  cases h with
  | away hwaiting hreturned => simp [entered, hwaiting, hreturned]
  | blocked hwaiting hreturned => simp [entered, hwaiting, hreturned]
  | released hwaiting hreturned => simp [entered, hwaiting, hreturned]

/-- Only who waits for the cycle under way has entered a further call. -/
theorem waiting_of_cycle_lt_entered (h : p.Stands cycle) (hlt : cycle < p.entered) :
    p.waiting? = some (UInt64.ofNat cycle) := by
  cases h with
  | away hwaiting hreturned => simp [entered, hwaiting, hreturned] at hlt
  | blocked hwaiting hreturned => exact hwaiting
  | released hwaiting hreturned => simp [entered, hwaiting, hreturned] at hlt

theorem returned_of_away (h : p.Stands cycle) (haway : p.waiting? = none) :
    p.returned = cycle := by
  cases h with
  | away _ hreturned => exact hreturned
  | blocked hwaiting _ => simp [haway] at hwaiting
  | released hwaiting _ => simp [haway] at hwaiting

/-- One generation is told from the next even when they wrap around. -/
theorem returned_of_blocked (h : p.Stands cycle)
    (hblocked : p.waiting? = some (UInt64.ofNat cycle)) : p.returned = cycle := by
  cases h with
  | away hwaiting _ => simp [hblocked] at hwaiting
  | blocked _ hreturned => exact hreturned
  | released hwaiting hreturned =>
    subst hreturned
    rw [hblocked, Option.some.injEq] at hwaiting
    exact absurd hwaiting (ofNat_succ_ne _)

theorem returned_of_released (h : p.Stands cycle) {generation : UInt64}
    (hwaiting : p.waiting? = some generation) (hended : generation ≠ UInt64.ofNat cycle) :
    p.returned + 1 = cycle := by
  cases h with
  | away haway _ => simp [hwaiting] at haway
  | blocked hblocked _ =>
    rw [hwaiting, Option.some.injEq] at hblocked
    exact absurd hblocked hended
  | released _ hreturned => exact hreturned

end Party.Stands

namespace Gathering

/-! ## One step -/

/-- What a step of a party can do, and what it shows. -/
inductive Steps (g : Gathering) (party : Nat) (p : Party) : Gathering → List Event → Prop
  | arrives (away : p.waiting? = none) (more : g.barrier.count + 1 ≠ g.barrier.parties) :
    Steps g party p ⟨⟨g.barrier.parties, g.barrier.count + 1, g.barrier.generation⟩,
        g.members.set party { p with waiting? := some g.barrier.generation }⟩
      [.enter party (p.returned + 1)]
  | completes (away : p.waiting? = none) (last : g.barrier.count + 1 = g.barrier.parties) :
    Steps g party p ⟨⟨g.barrier.parties, 0, g.barrier.generation + 1⟩,
        g.members.set party ⟨none, p.returned + 1, p.led + 1⟩⟩
      [.enter party (p.returned + 1), .leave party (p.returned + 1) true]
  | stays (blocked : p.waiting? = some g.barrier.generation) : Steps g party p g []
  | wakes {generation : UInt64} (waiting : p.waiting? = some generation)
    (ended : generation ≠ g.barrier.generation) :
    Steps g party p { g with members := g.members.set party ⟨none, p.returned + 1, p.led⟩ }
      [.leave party (p.returned + 1) false]

theorem events_of_set {g : Gathering} {party : Nat} {p q : Party}
    (hp : g.members[party]? = some p) (hq : (g.step party).members = g.members.set party q) :
    g.events party = (if p.entered < q.entered then [.enter party q.entered] else [])
      ++ (if p.returned < q.returned then [.leave party q.returned (p.led < q.led)] else []) := by
  have hset : (g.step party).members[party]? = some q := by
    rw [hq, List.getElem?_set_self (List.getElem?_eq_some_iff.1 hp).1]
  simp only [events, hp, hset]

theorem steps_step {g : Gathering} {party : Nat} {p : Party} (hp : g.members[party]? = some p) :
    g.Steps party p (g.step party) (g.events party) := by
  cases hwaiting : p.waiting? with
  | none =>
    by_cases hlast : g.barrier.count + 1 = g.barrier.parties
    · have hstep : g.step party = ⟨⟨g.barrier.parties, 0, g.barrier.generation + 1⟩,
          g.members.set party ⟨none, p.returned + 1, p.led + 1⟩⟩ := by
        simp only [step, hp, hwaiting, arrive, hlast, if_true]
      have hevents : g.events party
          = [.enter party (p.returned + 1), .leave party (p.returned + 1) true] := by
        rw [events_of_set hp (congrArg members hstep)]
        simp [Party.entered, hwaiting]
      rw [hstep, hevents]
      exact .completes hwaiting hlast
    · have hstep : g.step party = ⟨⟨g.barrier.parties, g.barrier.count + 1, g.barrier.generation⟩,
          g.members.set party { p with waiting? := some g.barrier.generation }⟩ := by
        simp only [step, hp, hwaiting, arrive, hlast, if_false, Bool.false_eq_true]
      have hevents : g.events party = [.enter party (p.returned + 1)] := by
        rw [events_of_set hp (congrArg members hstep)]
        simp [Party.entered, hwaiting]
      rw [hstep, hevents]
      exact .arrives hwaiting hlast
  | some generation =>
    by_cases hended : generation = g.barrier.generation
    · subst hended
      have hstep : g.step party = g := by
        simp [step, hp, hwaiting, isReleased]
      have hevents : g.events party = [] := by
        simp [events, hp, hstep]
      rw [hstep, hevents]
      exact .stays hwaiting
    · have hstep : g.step party
          = { g with members := g.members.set party ⟨none, p.returned + 1, p.led⟩ } := by
        simp [step, hp, hwaiting, isReleased, Ne.symm hended]
      have hevents : g.events party = [.leave party (p.returned + 1) false] := by
        rw [events_of_set hp (congrArg members hstep)]
        simp [Party.entered, hwaiting]
      rw [hstep, hevents]
      exact .wakes hwaiting hended

theorem step_of_absent {g : Gathering} {party : Nat} (hp : g.members[party]? = none) :
    g.step party = g ∧ g.events party = [] := by
  simp [step, events, hp]

/-! ## The state of the barrier -/

/-- The barrier and its parties after a number of cycles. -/
structure AtCycle (n cycle : Nat) (g : Gathering) : Prop where
  length : g.members.length = n
  parties : g.barrier.parties = n
  generation : g.barrier.generation = UInt64.ofNat cycle
  stands : ∀ (i : Nat) (p : Party), g.members[i]? = some p → p.Stands cycle
  count : g.barrier.count = g.blocked
  count_lt : g.barrier.count < n

/-- The members after one of them has changed. -/
theorem member_of_set {members : List Party} {party i : Nat} {q r : Party}
    (h : (members.set party q)[i]? = some r) :
    (i = party ∧ r = q) ∨ (i ≠ party ∧ members[i]? = some r) := by
  by_cases hi : i = party
  · subst hi
    rw [List.getElem?_set_self'] at h
    obtain ⟨_, -, rfl⟩ := Option.map_eq_some_iff.1 h
    exact .inl ⟨rfl, rfl⟩
  · rw [List.getElem?_set_ne (Ne.symm hi)] at h
    exact .inr ⟨hi, h⟩

namespace AtCycle

variable {n cycle : Nat} {g : Gathering} {party : Nat} {p : Party}

theorem start (h : 1 ≤ n) : AtCycle n 0 (ofParties n) := by
  have hmax : max n 1 = n := Nat.max_eq_left h
  refine ⟨?_, hmax, rfl, ?_, ?_, h⟩
  · simp [ofParties, Rendezvous.ofParties, hmax]
  · intro i p hp
    have hmem := List.mem_of_getElem? hp
    simp only [ofParties, List.mem_replicate] at hmem
    rw [hmem.2]
    exact .away rfl rfl
  · simp [ofParties, Rendezvous.ofParties, blocked, List.countP_replicate]

/-- A party that is away is not counted, and is counted once it waits. -/
theorem countP_set_waiting (hp : g.members[party]? = some p) (haway : p.waiting? = none) :
    (g.members.set party { p with waiting? := some g.barrier.generation }).countP
      (fun p => p.waiting? = some g.barrier.generation) = g.blocked + 1 := by
  obtain ⟨hlt, rfl⟩ := List.getElem?_eq_some_iff.1 hp
  rw [List.countP_set hlt]
  simp [haway, blocked]

theorem arrives (h : g.AtCycle n cycle) (hp : g.members[party]? = some p)
    (haway : p.waiting? = none) (hmore : g.barrier.count + 1 ≠ g.barrier.parties) :
    AtCycle n cycle ⟨⟨g.barrier.parties, g.barrier.count + 1, g.barrier.generation⟩,
      g.members.set party { p with waiting? := some g.barrier.generation }⟩ := by
  refine ⟨?_, h.parties, h.generation, ?_, ?_, ?_⟩
  · simpa using h.length
  · intro i q hq
    rcases member_of_set hq with ⟨-, rfl⟩ | ⟨-, hq⟩
    · exact .blocked (congrArg some h.generation) ((h.stands _ _ hp).returned_of_away haway)
    · exact h.stands i q hq
  · show g.barrier.count + 1 = _
    rw [h.count]
    exact (countP_set_waiting hp haway).symm
  · have := h.count_lt
    have := h.parties
    show g.barrier.count + 1 < n
    omega

/-- When the last party arrives, all others wait for the cycle under way. -/
theorem blocked_of_last (h : g.AtCycle n cycle) (hp : g.members[party]? = some p)
    (haway : p.waiting? = none) (hlast : g.barrier.count + 1 = g.barrier.parties) {i : Nat}
    (hi : i ≠ party) {q : Party} (hq : g.members[i]? = some q) :
    q.waiting? = some (UInt64.ofNat cycle) := by
  have hcount := countP_set_waiting hp haway
  have hall : g.blocked + 1
      = (g.members.set party { p with waiting? := some g.barrier.generation }).length := by
    rw [List.length_set, h.length, ← h.count, hlast, h.parties]
  rw [hall, List.countP_eq_length] at hcount
  have hmem : q ∈ g.members.set party { p with waiting? := some g.barrier.generation } := by
    refine List.mem_of_getElem? (i := i) ?_
    rw [List.getElem?_set_ne (Ne.symm hi), hq]
  rw [← h.generation]
  simpa using hcount q hmem

theorem completes (h : g.AtCycle n cycle) (hp : g.members[party]? = some p)
    (haway : p.waiting? = none) (hlast : g.barrier.count + 1 = g.barrier.parties) :
    AtCycle n (cycle + 1) ⟨⟨g.barrier.parties, 0, g.barrier.generation + 1⟩,
      g.members.set party ⟨none, p.returned + 1, p.led + 1⟩⟩ := by
  have hgeneration : g.barrier.generation + 1 = UInt64.ofNat (cycle + 1) := by
    rw [h.generation, UInt64.ofNat_add]
    rfl
  have hmembers : ∀ (i : Nat) (q : Party),
      (g.members.set party ⟨none, p.returned + 1, p.led + 1⟩)[i]? = some q →
      q.Stands (cycle + 1) ∧ q.waiting? ≠ some (UInt64.ofNat (cycle + 1)) := by
    intro i q hq
    rcases member_of_set hq with ⟨-, rfl⟩ | ⟨hi, hq⟩
    · exact ⟨.away rfl (congrArg (· + 1) ((h.stands _ _ hp).returned_of_away haway)), nofun⟩
    · have hwaiting := h.blocked_of_last hp haway hlast hi hq
      have hreturned := (h.stands i q hq).returned_of_blocked hwaiting
      refine ⟨.released (hreturned ▸ hwaiting) (congrArg (· + 1) hreturned), ?_⟩
      rw [hwaiting, Ne, Option.some.injEq]
      exact (ofNat_succ_ne cycle).symm
  refine ⟨?_, h.parties, hgeneration, fun i q hq => (hmembers i q hq).1, ?_, ?_⟩
  · simpa using h.length
  · refine (List.countP_eq_zero.2 ?_).symm
    intro q hq
    obtain ⟨i, hi⟩ := List.mem_iff_getElem?.1 hq
    simpa [hgeneration] using (hmembers i q hi).2
  · have := h.parties
    show 0 < n
    omega

theorem wakes (h : g.AtCycle n cycle) (hp : g.members[party]? = some p) {generation : UInt64}
    (hwaiting : p.waiting? = some generation) (hended : generation ≠ g.barrier.generation) :
    AtCycle n cycle
      { g with members := g.members.set party ⟨none, p.returned + 1, p.led⟩ } := by
  have hreturned := (h.stands _ _ hp).returned_of_released hwaiting (h.generation ▸ hended)
  refine ⟨?_, h.parties, h.generation, ?_, ?_, h.count_lt⟩
  · simpa using h.length
  · intro i q hq
    rcases member_of_set hq with ⟨-, rfl⟩ | ⟨-, hq⟩
    · exact .away rfl hreturned
    · exact h.stands i q hq
  · obtain ⟨hlt, rfl⟩ := List.getElem?_eq_some_iff.1 hp
    show g.barrier.count = _
    rw [h.count, blocked, blocked, List.countP_set hlt]
    simp [hwaiting, hended]

end AtCycle

/-! ## The order of the record -/

/-- A call is left only after all parties have entered theirs. -/
def Ordered (n : Nat) (log : List Event) : Prop :=
  ∀ before party call leads after, log = before ++ .leave party call leads :: after →
    ∀ other < n, .enter other call ∈ before

/-- Of the calls of a cycle, the last one to be entered leads and no other. -/
def HasLeader (n call : Nat) (log : List Event) : Prop :=
  ∃ leader < n, ∃ before after,
    log = before ++ .enter leader call :: .leave leader call true :: after ∧
      (∀ party < n, party ≠ leader → .enter party call ∈ before) ∧
      (∀ party, .enter party call ∉ after) ∧
      ∀ party leads, .leave party call leads ∈ before ++ after → leads = false

theorem Ordered.snoc {n : Nat} {log : List Event} (h : Ordered n log) {e : Event}
    (he : ∀ party call leads, e = .leave party call leads →
      ∀ other < n, .enter other call ∈ log) : Ordered n (log ++ [e]) := by
  intro before party call leads after heq
  rcases List.eq_nil_or_concat after with rfl | ⟨front, last, rfl⟩
  · obtain ⟨rfl, hlast⟩ := List.append_inj' heq rfl
    exact he party call leads (List.singleton_inj.1 hlast)
  · have hfront : log ++ [e] = (before ++ .leave party call leads :: front) ++ [last] := by
      simpa using heq
    exact h before party call leads front (List.append_inj' hfront rfl).1

theorem HasLeader.append {n call : Nat} {log more : List Event} (h : HasLeader n call log)
    (henter : ∀ party, .enter party call ∉ more)
    (hleave : ∀ party leads, .leave party call leads ∈ more → leads = false) :
    HasLeader n call (log ++ more) := by
  obtain ⟨leader, hlt, before, after, rfl, hbefore, hafter, hothers⟩ := h
  refine ⟨leader, hlt, before, after ++ more, by simp, hbefore, ?_, ?_⟩
  · intro party hmem
    rcases List.mem_append.1 hmem with hmem | hmem
    · exact hafter party hmem
    · exact henter party hmem
  · intro party leads hmem
    rw [← List.append_assoc] at hmem
    rcases List.mem_append.1 hmem with hmem | hmem
    · exact hothers party leads hmem
    · exact hleave party leads hmem

/-! ## The record and the state -/

/-- What the record of a run has in common with the state it has led to. -/
structure Recorded (n cycle : Nat) (g : Gathering) (log : List Event) : Prop where
  entered : ∀ (i : Nat) (p : Party), g.members[i]? = some p →
    ∀ call, .enter i call ∈ log ↔ 1 ≤ call ∧ call ≤ p.entered
  left : ∀ (i : Nat) (p : Party), g.members[i]? = some p →
    ∀ call, (∃ leads, .leave i call leads ∈ log) ↔ 1 ≤ call ∧ call ≤ p.returned
  leaver : ∀ i call leads, .leave i call leads ∈ log → i < n
  ordered : Ordered n log
  leader : ∀ call, 1 ≤ call → call ≤ cycle → HasLeader n call log

namespace Recorded

variable {n cycle : Nat} {g : Gathering} {party : Nat} {p : Party} {log : List Event}

theorem start (n : Nat) : Recorded n 0 (ofParties n) [] := by
  have hmembers : ∀ (i : Nat) (p : Party), (ofParties n).members[i]? = some p →
      p = ⟨none, 0, 0⟩ := fun i p hp => (List.mem_replicate.1 (List.mem_of_getElem? hp)).2
  refine ⟨?_, ?_, nofun, ?_, ?_⟩
  · intro i p hp call
    rw [hmembers i p hp]
    simp [Party.entered]
    omega
  · intro i p hp call
    rw [hmembers i p hp]
    simp
    omega
  · intro before party call leads after heq
    simp at heq
  · intro call hlow hhigh
    omega

/-- Every party has entered the calls of the cycles that are over. -/
theorem enter_mem (h : Recorded n cycle g log) (hg : g.AtCycle n cycle) {call : Nat}
    (hlow : 1 ≤ call) (hhigh : call ≤ cycle) {i : Nat} (hi : i < n) :
    .enter i call ∈ log := by
  have hmember := List.getElem?_eq_getElem (hg.length ▸ hi)
  have hle := (hg.stands _ _ hmember).cycle_le_entered
  exact (h.entered _ _ hmember call).2 ⟨hlow, Nat.le_trans hhigh hle⟩

/-- Calls that nobody can have left yet. -/
theorem leave_notMem (h : Recorded n cycle g log) (hg : g.AtCycle n cycle) (i : Nat)
    (leads : Bool) : .leave i (cycle + 1) leads ∉ log := by
  intro hmem
  have hmember := List.getElem?_eq_getElem (hg.length ▸ h.leaver _ _ _ hmem)
  have hle := ((h.left _ _ hmember (cycle + 1)).1 ⟨leads, hmem⟩).2
  have := (hg.stands _ _ hmember).returned_le
  omega

/-- A cycle is over once all parties have entered their calls of it. -/
theorem call_le_cycle (h : Recorded n cycle g log) (hg : g.AtCycle n cycle) {call : Nat}
    (hall : ∀ i < n, .enter i call ∈ log) : call ≤ cycle := by
  by_contra hlt
  -- otherwise everybody waits for the cycle under way, and the last one would not
  have hblocked : g.blocked = g.members.length := by
    refine List.countP_eq_length.2 ?_
    intro p hp
    obtain ⟨i, hi⟩ := List.mem_iff_getElem?.1 hp
    have hin := hg.length ▸ (List.getElem?_eq_some_iff.1 hi).1
    have hcall := ((h.entered i p hi call).1 (hall i hin)).2
    have hwaiting := (hg.stands i p hi).waiting_of_cycle_lt_entered (by omega)
    simp [hwaiting, hg.generation]
  have := hg.count
  have := hg.count_lt
  have := hg.length
  omega

/-- The record grows with a step of one party. -/
theorem entered_append (h : Recorded n cycle g log) (hp : g.members[party]? = some p) {q : Party}
    {more : List Event} (hother : ∀ i call, i ≠ party → .enter i call ∉ more)
    (hown : ∀ call, .enter party call ∈ more ↔ p.entered < call ∧ call ≤ q.entered)
    (hle : p.entered ≤ q.entered) :
    ∀ (i : Nat) (r : Party), (g.members.set party q)[i]? = some r →
      ∀ call, .enter i call ∈ log ++ more ↔ 1 ≤ call ∧ call ≤ r.entered := by
  intro i r hr call
  rw [List.mem_append]
  rcases member_of_set hr with ⟨rfl, rfl⟩ | ⟨hi, hr⟩
  · rw [h.entered _ _ hp, hown]
    omega
  · rw [h.entered _ _ hr]
    simp [hother i call hi]

theorem left_append (h : Recorded n cycle g log) (hp : g.members[party]? = some p) {q : Party}
    {more : List Event} (hother : ∀ i call leads, i ≠ party → .leave i call leads ∉ more)
    (hown : ∀ call, (∃ leads, .leave party call leads ∈ more) ↔
      p.returned < call ∧ call ≤ q.returned)
    (hle : p.returned ≤ q.returned) :
    ∀ (i : Nat) (r : Party), (g.members.set party q)[i]? = some r →
      ∀ call, (∃ leads, .leave i call leads ∈ log ++ more) ↔ 1 ≤ call ∧ call ≤ r.returned := by
  intro i r hr call
  simp only [List.mem_append, exists_or]
  rcases member_of_set hr with ⟨rfl, rfl⟩ | ⟨hi, hr⟩
  · rw [h.left _ _ hp, hown]
    omega
  · rw [h.left _ _ hr]
    simp [hother i call _ hi]

theorem arrives (h : Recorded n cycle g log) (hg : g.AtCycle n cycle)
    (hp : g.members[party]? = some p) (haway : p.waiting? = none) :
    Recorded n cycle ⟨⟨g.barrier.parties, g.barrier.count + 1, g.barrier.generation⟩,
        g.members.set party { p with waiting? := some g.barrier.generation }⟩
      (log ++ [.enter party (p.returned + 1)]) := by
  have hreturned := (hg.stands _ _ hp).returned_of_away haway
  refine ⟨h.entered_append hp ?_ ?_ ?_, h.left_append hp ?_ ?_ ?_, ?_, ?_, ?_⟩
  · simp
    omega
  · simp [Party.entered, haway]
    omega
  · simp [Party.entered, haway]
  · simp
  · simp
  · simp
  · simpa using h.leaver
  · exact h.ordered.snoc nofun
  · intro call hlow hhigh
    refine (h.leader call hlow hhigh).append ?_ ?_
    · simp
      omega
    · simp

/-- The last party leaves in the step in which it enters, and leads. -/
theorem completes (h : Recorded n cycle g log) (hg : g.AtCycle n cycle)
    (hp : g.members[party]? = some p) (haway : p.waiting? = none)
    (hlast : g.barrier.count + 1 = g.barrier.parties) :
    Recorded n (cycle + 1) ⟨⟨g.barrier.parties, 0, g.barrier.generation + 1⟩,
        g.members.set party ⟨none, p.returned + 1, p.led + 1⟩⟩
      (log ++ [.enter party (p.returned + 1), .leave party (p.returned + 1) true]) := by
  have hreturned := (hg.stands _ _ hp).returned_of_away haway
  have hparty : party < n := hg.length ▸ (List.getElem?_eq_some_iff.1 hp).1
  have hothers : ∀ other < n, other ≠ party → .enter other (cycle + 1) ∈ log := by
    intro other hother hne
    have hmember := List.getElem?_eq_getElem (hg.length ▸ hother)
    have hwaiting := hg.blocked_of_last hp haway hlast hne hmember
    refine (h.entered _ _ hmember _).2 ⟨by omega, ?_⟩
    simp [Party.entered, hwaiting, (hg.stands _ _ hmember).returned_of_blocked hwaiting]
  refine ⟨h.entered_append hp ?_ ?_ ?_, h.left_append hp ?_ ?_ ?_, ?_, ?_, ?_⟩
  · simp
    omega
  · simp [Party.entered, haway]
    omega
  · simp [Party.entered, haway]
  · simp
    omega
  · simp
    omega
  · simp
  · intro i call leads hmem
    rcases List.mem_append.1 hmem with hmem | hmem
    · exact h.leaver i call leads hmem
    · simp at hmem
      omega
  · have hentered : Ordered n (log ++ [.enter party (p.returned + 1)]) := h.ordered.snoc nofun
    have hsplit : log ++ [.enter party (p.returned + 1), .leave party (p.returned + 1) true]
        = (log ++ [.enter party (p.returned + 1)]) ++ [.leave party (p.returned + 1) true] := by
      simp
    rw [hsplit]
    refine hentered.snoc ?_
    intro i call leads heq other hother
    obtain ⟨-, rfl, -⟩ := Event.leave.inj heq
    by_cases hne : other = party
    · simp [hne]
    · rw [hreturned]
      exact List.mem_append_left _ (hothers other hother hne)
  · intro call hlow hhigh
    rcases Nat.lt_or_eq_of_le hhigh with hlt | rfl
    · refine (h.leader call hlow (Nat.le_of_lt_succ hlt)).append ?_ ?_
      · simp
        omega
      · simp
        omega
    · rw [hreturned]
      refine ⟨party, hparty, log, [], rfl, hothers, nofun, ?_⟩
      intro i leads hmem
      rw [List.append_nil] at hmem
      exact absurd hmem (h.leave_notMem hg i leads)

theorem wakes (h : Recorded n cycle g log) (hg : g.AtCycle n cycle)
    (hp : g.members[party]? = some p) {generation : UInt64}
    (hwaiting : p.waiting? = some generation) (hended : generation ≠ g.barrier.generation) :
    Recorded n cycle { g with members := g.members.set party ⟨none, p.returned + 1, p.led⟩ }
      (log ++ [.leave party (p.returned + 1) false]) := by
  have hreturned := (hg.stands _ _ hp).returned_of_released hwaiting (hg.generation ▸ hended)
  have hparty : party < n := hg.length ▸ (List.getElem?_eq_some_iff.1 hp).1
  refine ⟨h.entered_append hp ?_ ?_ ?_, h.left_append hp ?_ ?_ ?_, ?_, ?_, ?_⟩
  · simp
  · simp [Party.entered, hwaiting]
  · simp [Party.entered, hwaiting]
  · simp
    omega
  · simp
    omega
  · simp
  · intro i call leads hmem
    rcases List.mem_append.1 hmem with hmem | hmem
    · exact h.leaver i call leads hmem
    · simp at hmem
      omega
  · refine h.ordered.snoc ?_
    intro i call leads heq other hother
    obtain ⟨-, rfl, -⟩ := Event.leave.inj heq
    exact h.enter_mem hg (by omega) (by omega) hother
  · intro call hlow hhigh
    refine (h.leader call hlow hhigh).append ?_ ?_
    · simp
    · simp

end Recorded

/-- A step keeps barrier, parties and record together. -/
theorem AtCycle.step {n cycle : Nat} {g : Gathering} {log : List Event} (hg : g.AtCycle n cycle)
    (h : Recorded n cycle g log) (party : Nat) :
    ∃ cycle, (g.step party).AtCycle n cycle ∧
      Recorded n cycle (g.step party) (log ++ g.events party) := by
  cases hp : g.members[party]? with
  | none =>
    obtain ⟨hstep, hevents⟩ := step_of_absent hp
    rw [hstep, hevents, List.append_nil]
    exact ⟨cycle, hg, h⟩
  | some p =>
    have hsteps := steps_step hp
    generalize g.step party = next at hsteps
    generalize g.events party = more at hsteps
    cases hsteps with
    | arrives haway hmore => exact ⟨cycle, hg.arrives hp haway hmore, h.arrives hg hp haway⟩
    | completes haway hlast =>
      exact ⟨cycle + 1, hg.completes hp haway hlast, h.completes hg hp haway hlast⟩
    | stays hblocked =>
      rw [List.append_nil]
      exact ⟨cycle, hg, h⟩
    | wakes hwaiting hended =>
      exact ⟨cycle, hg.wakes hp hwaiting hended, h.wakes hg hp hwaiting hended⟩

/-- Every run goes through whole cycles. -/
theorem exists_cycle {n : Nat} (hn : 1 ≤ n) (schedule : List Nat) :
    ∃ cycle, ((ofParties n).run schedule).AtCycle n cycle ∧
      Recorded n cycle ((ofParties n).run schedule) ((ofParties n).log schedule) := by
  induction schedule using List.reverseRecOn with
  | nil => exact ⟨0, .start hn, .start n⟩
  | append_singleton schedule party ih =>
    obtain ⟨cycle, hg, h⟩ := ih
    rw [run_snoc, log_snoc]
    exact hg.step h party

/-- A party that still is in a call of a cycle that is over leaves it with its next step. -/
theorem leave_mem_of_step {n cycle : Nat} {g : Gathering} {log : List Event}
    (hg : g.AtCycle n cycle) (h : Recorded n cycle g log) {call i : Nat} (hlow : 1 ≤ call)
    (hhigh : call ≤ cycle) (hi : i < n) :
    ∃ leads, .leave i call leads ∈ log ++ g.events i := by
  obtain ⟨p, hp⟩ : ∃ p, g.members[i]? = some p :=
    ⟨_, List.getElem?_eq_getElem (hg.length ▸ hi)⟩
  by_cases hleft : call ≤ p.returned
  · obtain ⟨leads, hmem⟩ := (h.left i p hp call).2 ⟨hlow, hleft⟩
    exact ⟨leads, List.mem_append_left _ hmem⟩
  have hsteps := steps_step hp
  cases hg.stands i p hp with
  | away _ hreturned => omega
  | blocked _ hreturned => omega
  | released hwaiting hreturned =>
    obtain rfl : call = p.returned + 1 := by omega
    generalize g.step i = next at hsteps
    generalize g.events i = more at hsteps
    cases hsteps with
    | arrives haway _ => simp [hwaiting] at haway
    | completes haway _ => simp [hwaiting] at haway
    | stays hblocked =>
      rw [hwaiting, hg.generation, ← hreturned, Option.some.injEq] at hblocked
      exact absurd hblocked (ofNat_succ_ne _).symm
    | wakes _ _ => exact ⟨false, by simp⟩

/-- Whatever order the parties take their steps in, a rendezvous is a barrier that they pass
together again and again. -/
theorem run_cycles (n : Nat) (hn : 1 ≤ n) (schedule : List Nat) :
    let start := ofParties n
    let log := start.log schedule
    let g := start.run schedule
    -- nobody leaves a call before all have entered theirs
    (∀ before party call leads after, log = before ++ .leave party call leads :: after →
      ∀ other < n, .enter other call ∈ before) ∧
    -- once all have entered, the last to do so leads and no other
    (∀ call, (∀ party < n, .enter party call ∈ log) →
      ∃ leader < n, ∃ before after,
        log = before ++ .enter leader call :: .leave leader call true :: after ∧
        (∀ party < n, party ≠ leader → .enter party call ∈ before) ∧
        (∀ party, .enter party call ∉ after) ∧
        ∀ party leads, .leave party call leads ∈ before ++ after → leads = false) ∧
    -- and everybody leaves, with the next step if not before
    (∀ call, (∀ party < n, .enter party call ∈ log) →
      ∀ party < n, ∃ leads, .leave party call leads ∈ start.log (schedule ++ [party])) ∧
    -- the count is that of the parties that wait for the present generation to end
    g.barrier.count = g.members.countP (fun p => p.waiting? = some g.barrier.generation) ∧
    g.barrier.count < n := by
  obtain ⟨cycle, hg, h⟩ := exists_cycle hn schedule
  have hover : ∀ call, (∀ party < n, .enter party call ∈ (ofParties n).log schedule) →
      1 ≤ call ∧ call ≤ cycle := by
    intro call hall
    have hfirst := List.getElem?_eq_getElem (hg.length ▸ hn)
    exact ⟨((h.entered 0 _ hfirst call).1 (hall 0 hn)).1, h.call_le_cycle hg hall⟩
  refine ⟨h.ordered, ?_, ?_, hg.count, hg.count_lt⟩
  · intro call hall
    obtain ⟨hlow, hhigh⟩ := hover call hall
    exact h.leader call hlow hhigh
  · intro call hall party hparty
    obtain ⟨hlow, hhigh⟩ := hover call hall
    rw [log_snoc]
    exact leave_mem_of_step hg h hlow hhigh hparty

/-- One party is back at the barrier before the other has woken up. -/
theorem run_cycles_overtaken :
    1 ≤ 2 ∧
    (ofParties 2).log [0, 1, 1, 0]
      = [.enter 0 1, .enter 1 1, .leave 1 1 true, .enter 1 2, .leave 0 1 false] ∧
    (∃ leader < 2, ∃ before after, (ofParties 2).log [0, 1, 1, 0]
        = before ++ .enter leader 1 :: .leave leader 1 true :: after ∧
      ∀ party leads, .leave party 1 leads ∈ before ++ after → leads = false) ∧
    ((ofParties 2).run [0, 1, 1, 0]).barrier.count < 2 := by
  have hlog : (ofParties 2).log [0, 1, 1, 0]
      = [.enter 0 1, .enter 1 1, .leave 1 1 true, .enter 1 2, .leave 0 1 false] := by
    decide +kernel
  obtain ⟨-, hleader, -, -, hcount⟩ := run_cycles 2 (by decide) [0, 1, 1, 0]
  obtain ⟨leader, hlt, before, after, heq, -, -, hothers⟩ := hleader 1 (by rw [hlog]; decide)
  exact ⟨by decide, hlog, ⟨leader, hlt, before, after, heq, hothers⟩, hcount⟩

end Gathering

end Rendezvous

end Lanewise
