/-!
# Rendezvous

A barrier that a fixed number of parties pass together, again and again. The
last party to arrive releases the others and leads the cycle. A party that
arrived earlier looks, whenever it wakes up, whether the generation it arrived
in is over.
-/

namespace Lanewise

structure Rendezvous where
  parties : Nat
  /-- Parties that have arrived in the present generation. -/
  count : Nat
  generation : UInt64
  deriving DecidableEq

namespace Rendezvous

/-- A barrier that nobody has arrived at, for at least one party. -/
def ofParties (parties : Nat) : Rendezvous :=
  ⟨max parties 1, 0, 0⟩

/-- One more party arrives. The last one starts the next generation; the answer
tells whether this was the last one. -/
def arrive (r : Rendezvous) : Bool × Rendezvous :=
  if r.count + 1 = r.parties then
    (true, { r with count := 0, generation := r.generation + 1 })
  else (false, { r with count := r.count + 1 })

/-- Whether a party that arrived in a generation may go on. -/
def isReleased (r : Rendezvous) (generation : UInt64) : Bool :=
  r.generation != generation

/-- A party that calls the barrier time after time. -/
structure Party where
  /-- The generation it waits for to end, while it waits. -/
  waiting? : Option UInt64
  /-- Calls that have returned. -/
  returned : Nat
  /-- Calls that returned as the leader's. -/
  led : Nat
  deriving DecidableEq

/-- A barrier and the parties around it. -/
structure Gathering where
  barrier : Rendezvous
  members : List Party
  deriving DecidableEq

namespace Gathering

/-- As many parties as the barrier is for, none of which has called it yet. -/
def ofParties (parties : Nat) : Gathering :=
  let barrier := Rendezvous.ofParties parties
  ⟨barrier, List.replicate barrier.parties ⟨none, 0, 0⟩⟩

/-- One party does its next step: it arrives, or wakes up and looks whether it
may go on. -/
def step (g : Gathering) (party : Nat) : Gathering :=
  match g.members[party]? with
  | none => g
  | some p =>
    match p.waiting? with
    | none =>
      let (leads, barrier) := g.barrier.arrive
      let p := if leads then ⟨none, p.returned + 1, p.led + 1⟩
        else { p with waiting? := some g.barrier.generation }
      ⟨barrier, g.members.set party p⟩
    | some generation =>
      if g.barrier.isReleased generation then
        { g with members := g.members.set party ⟨none, p.returned + 1, p.led⟩ }
      else g

/-- Steps of the parties in the order of a schedule. -/
def run (g : Gathering) (schedule : List Nat) : Gathering :=
  schedule.foldl step g

/-- A schedule in which every party calls the barrier `cycles` times: in each
cycle all arrive one after the other, then all that wait wake up. -/
def inTurn (parties cycles : Nat) : List Nat :=
  (List.replicate cycles (List.range parties ++ List.range (parties - 1))).flatten

/-- Calls that returned as a leader's. -/
def leaders (g : Gathering) : Nat :=
  g.members.foldl (fun n party => n + party.led) 0

end Gathering

end Rendezvous

end Lanewise
