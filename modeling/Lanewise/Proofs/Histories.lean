import Lanewise.Proofs.Calls
import Lanewise.Proofs.Digests

/-!
# Histories of an engine

An engine changes with its calls: it gets other threads, and remembers the digests of
kernels that were valid. What it remembers makes no difference to what it answers, as
long as digests tell kernels apart (`Engine.perform_after`).
-/

namespace Lanewise

/-- A call to an engine. -/
inductive Call where
  | validate (k : Kernel)
  | evaluate (k : Kernel) (inputs : List NdArray)
  | evaluateInto (k : Kernel) (operands : List Operand) (out : NdArray)
  | setThreads (threads : Nat)

/-- What a call gives back. -/
inductive Answer where
  | validated (result : Except EvalError Unit)
  | evaluated (result : Except EvalError NdArray)
  /-- The output comes with what was written to it before a failure. -/
  | filled (result : Except EvalError Unit) (output : NdArray)
  | resized (result : Except EvalError Nat)

/-- The kernel whose digest a call takes. Where no result can be laid out, none is
taken. -/
def Call.hashed? [Allocator] : Call → Option Kernel
  | validate k => some k
  | evaluate k inputs => (Engine.freshOutput k inputs).toOption.map fun _ => k
  | evaluateInto k _ _ => some k
  | setThreads _ => none

namespace Engine

/-- The answer to a call, and the engine behind it. -/
def perform [Allocator] [Scheduler] (engine : Engine) : Call → Answer × Engine
  | .validate k =>
    match engine.validate k with
    | .ok engine => (.validated (.ok ()), engine)
    | .error e => (.validated (.error e), engine)
  | .evaluate k inputs =>
    let (result, engine) := engine.evaluate k inputs
    (.evaluated result, engine)
  | .evaluateInto k operands out =>
    let outcome := engine.evaluateInto k operands out
    (.filled outcome.result outcome.output, outcome.engine)
  | .setThreads threads =>
    match engine.setThreads threads with
    | .ok (previous, engine) => (.resized (.ok previous), engine)
    | .error e => (.resized (.error e), engine)

/-- The engine behind some calls. -/
def after [Allocator] [Scheduler] (engine : Engine) (history : List Call) : Engine :=
  history.foldl (fun engine call => (engine.perform call).2) engine

@[simp] theorem after_nil [Allocator] [Scheduler] (engine : Engine) : engine.after [] = engine :=
  rfl

@[simp] theorem after_cons [Allocator] [Scheduler] (engine : Engine) (call : Call)
    (history : List Call) :
    engine.after (call :: history) = (engine.perform call).2.after history := rfl

variable {engine : Engine} {k : Kernel} {call : Call}

/-! ## One call -/

/-- How a call leaves the engine. -/
inductive Moves [Allocator] (engine : Engine) (call : Call) : Engine → Prop
  | unchanged : Moves engine call engine
  | remembers (k : Kernel) (hashed : call.hashed? = some k) (valid : k.validate = .ok ()) :
    Moves engine call { engine with validated := k.digest :: engine.validated }
  | resizes (threads : Nat) (pos : threads ≠ 0) (le : threads ≤ maxThreads) :
    Moves engine call { engine with config.threads := threads }

theorem moves_of_validate [Allocator] (hhashed : call.hashed? = some k) {next : Engine}
    (h : engine.validate k = .ok next) : Moves engine call next := by
  unfold validate at h
  split at h
  · cases h
    exact .unchanged
  · split at h
    · cases h
    · cases h
    · next hvalid =>
      cases h
      exact .remembers k hhashed hvalid

theorem moves_evaluateInto [Allocator] [Scheduler] (hhashed : call.hashed? = some k)
    (operands : List Operand) (out : NdArray) :
    Moves engine call (engine.evaluateInto k operands out).engine := by
  unfold evaluateInto
  cases hvalidate : engine.validate k with
  | error e => exact .unchanged
  | ok next => exact moves_of_validate hhashed hvalidate

theorem moves_perform [Allocator] [Scheduler] (engine : Engine) (call : Call) :
    Moves engine call (engine.perform call).2 := by
  cases call with
  | validate k =>
    cases hvalidate : engine.validate k with
    | error e =>
      simp only [perform, hvalidate]
      exact .unchanged
    | ok next =>
      simp only [perform, hvalidate]
      exact moves_of_validate rfl hvalidate
  | evaluate k inputs =>
    cases hout : freshOutput k inputs with
    | error e =>
      simp only [perform, evaluate, hout]
      exact .unchanged
    | ok out =>
      simp only [perform, evaluate, hout]
      refine moves_evaluateInto ?_ _ out
      rw [Call.hashed?, hout]
      rfl
  | evaluateInto k operands out => exact moves_evaluateInto rfl operands out
  | setThreads threads =>
    by_cases hrange : threads = 0 ∨ maxThreads < threads
    · simp only [perform, setThreads, if_pos hrange]
      exact .unchanged
    · simp only [perform, setThreads, if_neg hrange]
      exact .resizes threads (fun h => hrange (.inl h)) (Nat.not_lt.1 fun h => hrange (.inr h))

/-! ## What is remembered -/

/-- An engine behind calls that took the digests of some kernels. -/
structure Remembers (policy : PlanPolicy) (kernels : List Kernel) (engine : Engine) : Prop where
  config : engine.config.validate = .ok ()
  policy : engine.policy = policy
  /-- Whatever is remembered belongs to a valid kernel. -/
  valid : ∀ digest ∈ engine.validated, ∃ k ∈ kernels, k.digest = digest ∧ k.validate = .ok ()

namespace Remembers

variable {policy : PlanPolicy} {kernels : List Kernel}

theorem start {config : EngineConfig} (h : ofConfig config = .ok engine) (policy : PlanPolicy) :
    Remembers policy [] (engine.withPolicy policy) := by
  obtain ⟨_, hvalid, heq⟩ := bind_eq_ok_iff.1 h
  cases heq
  exact ⟨hvalid, rfl, nofun⟩

theorem perform [Allocator] [Scheduler] (h : Remembers policy kernels engine) (call : Call) :
    Remembers policy (kernels ++ call.hashed?.toList) (engine.perform call).2 := by
  have hvalid : ∀ digest ∈ engine.validated,
      ∃ k ∈ kernels ++ call.hashed?.toList, k.digest = digest ∧ k.validate = .ok () := by
    intro digest hdigest
    obtain ⟨k, hk, hspec⟩ := h.valid digest hdigest
    exact ⟨k, List.mem_append_left _ hk, hspec⟩
  have hmoves := moves_perform engine call
  generalize (engine.perform call).2 = next at hmoves
  cases hmoves with
  | unchanged => exact ⟨h.config, h.policy, hvalid⟩
  | remembers k hhashed hk =>
    refine ⟨h.config, h.policy, ?_⟩
    intro digest hdigest
    rcases List.mem_cons.1 hdigest with rfl | hdigest
    · exact ⟨k, by simp [hhashed], rfl, hk⟩
    · exact hvalid digest hdigest
  | resizes threads hpos hle =>
    refine ⟨?_, h.policy, hvalid⟩
    have hconfig := h.config
    have hrange : ¬ (threads = 0 ∨ maxThreads < threads) := by omega
    unfold EngineConfig.validate at hconfig ⊢
    rw [if_neg hrange]
    split at hconfig
    · cases hconfig
    · exact hconfig

theorem after [Allocator] [Scheduler] (h : Remembers policy kernels engine) (history : List Call) :
    Remembers policy (kernels ++ history.filterMap Call.hashed?) (engine.after history) := by
  induction history generalizing engine kernels with
  | nil => simpa using h
  | cons call history ih =>
    have hrest := ih (h.perform call)
    rw [after_cons, List.filterMap_cons]
    cases hhashed : call.hashed? with
    | none => simpa [hhashed] using hrest
    | some k => simpa [hhashed] using hrest

end Remembers

/-! ## What is answered -/

/-- A kernel passes because of what is remembered only if it is valid. -/
def Trusts (engine : Engine) (k : Kernel) : Prop :=
  engine.validated.contains k.digest = true → k.validate = .ok ()

/-- Digests tell kernels apart. -/
theorem Remembers.trusts {policy : PlanPolicy} {kernels : List Kernel}
    (h : Remembers policy kernels engine) (hk : Container.Fits k)
    (hfits : ∀ other ∈ kernels, Container.Fits other)
    (hcollision : ∀ other ∈ kernels, Sha256.hash other.digestInput = Sha256.hash k.digestInput →
      other.digestInput = k.digestInput) : engine.Trusts k := by
  intro hseen
  obtain ⟨other, hother, hdigest, hvalid⟩ := h.valid k.digest (by simpa using hseen)
  obtain rfl := Kernel.eq_of_digestInput (hfits other hother).countable hk.countable
    (hcollision other hother hdigest)
  exact hvalid

theorem Trusts.validate_eq_error (h : engine.Trusts k) {cause : ValidationError}
    (hinvalid : k.validate = .error cause) : engine.validate k = .error (refusal cause) := by
  refine Engine.validate_eq_error ?_ hinvalid
  by_contra hseen
  cases hinvalid.symm.trans (h (Bool.not_eq_false _ ▸ hseen))

section Alike

variable {other : Engine}

/-- Validation goes the same way, whatever else is remembered. -/
theorem Trusts.validate_alike (h : engine.Trusts k) (hother : other.Trusts k) :
    (∃ known known', engine.validate k = .ok { engine with validated := known } ∧
        other.validate k = .ok { other with validated := known' }) ∨
      ∃ e, engine.validate k = .error e ∧ other.validate k = .error e := by
  cases hvalid : k.validate with
  | ok _ =>
    obtain ⟨known, hv⟩ := engine.validate_eq_ok (.inr hvalid)
    obtain ⟨known', hv'⟩ := other.validate_eq_ok (.inr hvalid)
    exact .inl ⟨known, known', hv, hv'⟩
  | error cause =>
    exact .inr ⟨refusal cause, h.validate_eq_error hvalid, hother.validate_eq_error hvalid⟩

theorem evaluateInto_alike [Allocator] [Scheduler] (hconfig : other.config = engine.config)
    (hpolicy : other.policy = engine.policy) (h : engine.Trusts k) (hother : other.Trusts k)
    (operands : List Operand) (out : NdArray) :
    (engine.evaluateInto k operands out).result = (other.evaluateInto k operands out).result ∧
      (engine.evaluateInto k operands out).output = (other.evaluateInto k operands out).output := by
  rcases h.validate_alike hother with ⟨known, known', hv, hv'⟩ | ⟨e, hv, hv'⟩
  · simp only [evaluateInto, hv, hv', hconfig, hpolicy, and_self]
  · simp only [evaluateInto, hv, hv', and_self]

/-- Engines of one configuration and one policy answer alike. -/
theorem perform_alike [Allocator] [Scheduler] (hconfig : other.config = engine.config)
    (hpolicy : other.policy = engine.policy)
    (h : ∀ k, call.hashed? = some k → engine.Trusts k ∧ other.Trusts k) :
    (engine.perform call).1 = (other.perform call).1 := by
  cases call with
  | validate k =>
    obtain ⟨htrusts, hother⟩ := h k rfl
    rcases htrusts.validate_alike hother with ⟨known, known', hv, hv'⟩ | ⟨e, hv, hv'⟩
    · simp only [perform, hv, hv']
    · simp only [perform, hv, hv']
  | evaluate k inputs =>
    cases hout : freshOutput k inputs with
    | error e => simp only [perform, evaluate, hout]
    | ok out =>
      obtain ⟨htrusts, hother⟩ := h k (by rw [Call.hashed?, hout]; rfl)
      obtain ⟨hresult, houtput⟩ :=
        evaluateInto_alike hconfig hpolicy htrusts hother (inputs.map .array) out
      simp only [perform, evaluate, hout, hresult, houtput]
  | evaluateInto k operands out =>
    obtain ⟨htrusts, hother⟩ := h k rfl
    obtain ⟨hresult, houtput⟩ := evaluateInto_alike hconfig hpolicy htrusts hother operands out
    simp only [perform, hresult, houtput]
  | setThreads threads =>
    simp only [perform, setThreads, hconfig]
    by_cases hrange : threads = 0 ∨ maxThreads < threads
    · simp only [if_pos hrange]
    · simp only [if_neg hrange]

end Alike

/-- What an engine answers depends on its configuration and its policy, and not on the
calls before. -/
theorem perform_after [Allocator] [Scheduler] (config : EngineConfig) (policy : PlanPolicy)
    (start : Engine) (hstart : ofConfig config = .ok start) (history : List Call) (call : Call)
    (hfits : ∀ k ∈ (history ++ [call]).filterMap Call.hashed?, Container.Fits k)
    (hcollision : ∀ a ∈ (history ++ [call]).filterMap Call.hashed?,
      ∀ b ∈ (history ++ [call]).filterMap Call.hashed?,
      Sha256.hash a.digestInput = Sha256.hash b.digestInput → a.digestInput = b.digestInput) :
    let engine := (start.withPolicy policy).after history
    (∃ fresh, ofConfig engine.config = .ok fresh ∧
      (engine.perform call).1 = ((fresh.withPolicy policy).perform call).1) ∧
    -- and no kernel gets through that is not valid
    ∀ k cause, call.hashed? = some k → k.validate = .error cause →
      engine.validate k = .error (refusal cause) := by
  intro engine
  have hengine : Remembers policy (history.filterMap Call.hashed?) engine :=
    (Remembers.start hstart policy).after history
  have hbefore : ∀ k ∈ history.filterMap Call.hashed?,
      k ∈ (history ++ [call]).filterMap Call.hashed? := by
    intro k hk
    rw [List.filterMap_append]
    exact List.mem_append_left _ hk
  have htrusts : ∀ k, call.hashed? = some k → engine.Trusts k := by
    intro k hhashed
    have hk : k ∈ (history ++ [call]).filterMap Call.hashed? := by
      simp [hhashed]
    exact hengine.trusts (hfits k hk) (fun other hother => hfits other (hbefore other hother))
      fun other hother => hcollision other (hbefore other hother) k hk
  refine ⟨⟨⟨engine.config, .byThresholds, []⟩, ?_, ?_⟩, ?_⟩
  · rw [ofConfig, hengine.config]
    rfl
  · refine perform_alike rfl hengine.policy.symm ?_
    intro k hhashed
    exact ⟨htrusts k hhashed, nofun⟩
  · intro k cause hhashed hinvalid
    exact (htrusts k hhashed).validate_eq_error hinvalid

attribute [local instance] Allocator.roomy Scheduler.inOrder

/-- A sum, an output of another shape, no threads, and two of them. -/
def someCalls : List Call :=
  [.evaluate .addLongs [.longs [2] [1, 2], .longs [2] [3, 4]],
    .evaluateInto .addLongs [.array (.longs [2] [1, 2]), .array (.longs [2] [3, 4])]
      (.longs [3] [0, 0, 0]),
    .setThreads 0, .setThreads 2]

/-- The kernel is known by now, and two of four calls have failed. -/
theorem perform_after_someCalls :
    ofConfig .serial = .ok (usual .serial) ∧
    ofConfig { EngineConfig.serial with threads := 2 }
      = .ok (usual { EngineConfig.serial with threads := 2 }) ∧
    (((usual .serial).after someCalls).perform
        (.evaluate .addLongs [.longs [2] [5, 6], .longs [1] [7]])).1
      = ((usual { EngineConfig.serial with threads := 2 }).perform
        (.evaluate .addLongs [.longs [2] [5, 6], .longs [1] [7]])).1 ∧
    ((usual { EngineConfig.serial with threads := 2 }).evaluate .addLongs
      [.longs [2] [5, 6], .longs [1] [7]]).1 = .ok (.longs [2] [12, 13]) := by
  have hhashed : (someCalls ++ [Call.evaluate .addLongs
      [.longs [2] [5, 6], .longs [1] [7]]]).filterMap Call.hashed?
        = [.addLongs, .addLongs, .addLongs] := by decide +kernel
  have hfits : Container.Fits .addLongs := by
    refine ⟨?_, ?_, ?_, ?_, nofun, ?_⟩ <;> decide
  have hconfig : ((usual .serial).after someCalls).config
      = { EngineConfig.serial with threads := 2 } := by decide +kernel
  obtain ⟨⟨fresh, hfresh, hanswer⟩, -⟩ := perform_after .serial .byThresholds (usual .serial) rfl
    someCalls (.evaluate .addLongs [.longs [2] [5, 6], .longs [1] [7]])
    (by rw [hhashed]; simpa using hfits) (by rw [hhashed]; simp)
  change ofConfig ((usual .serial).after someCalls).config = .ok fresh at hfresh
  rw [hconfig] at hfresh
  obtain rfl : usual { EngineConfig.serial with threads := 2 } = fresh := Except.ok.inj hfresh
  exact ⟨rfl, rfl, hanswer, by decide +kernel⟩

end Engine

end Lanewise
