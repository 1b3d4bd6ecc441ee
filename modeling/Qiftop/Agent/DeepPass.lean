import Qiftop.Agent.ConnectionsService
import Qiftop.Backend.ResolverDeepWorker
import Qiftop.Lib.Run

/-!
# Agent — snapshots and the deep pass

The service queues the weakly attributed flows of every snapshot, the worker tries them again tick by
tick, and what it finds goes back into the service's copy.

A request counts its attempts and is dropped at the limit, so that a flow without an owner does not
keep the worker busy.  But the count goes with the request: a flow that has aged out is queued afresh
by the next snapshot that lists it, with no attempts.  While a flow is queued only once, it is tried at
most `deepMaxAttempts` times (`retries_le_maxAttempts`).
-/

namespace Qiftop.Agent
open Qt Lib Backend

/-- The service and its worker. -/
structure DeepPass where
  service : ConnectionsService := {}
  worker : ResolverDeepWorker := {}

inductive DeepEvent where
  /-- A poll of the monitor. -/
  | snapshot (host : HostContext) (resolver : Option (ℕ → ProcessResolver)) (nowMs : UInt64)
      (conns : List Connection)
  /-- The worker's timer. -/
  | timeout (R : ℕ → ProcessResolver)

namespace DeepPass

/-- A worker with a tuning, before the first snapshot. -/
def start (S : StdSort) (tuning : ResolverTuning) : DeepPass where
  worker := ({} : ResolverDeepWorker).setTuning S tuning

/-- The service's poll under the wiring with a worker. -/
def poll (S : StdSort) (wantContainerChain : Bool) (s : DeepPass) (host : HostContext)
    (resolver : Option (ℕ → ProcessResolver)) (nowMs : UInt64) (conns : List Connection) :
    ConnectionsService × List Dbus.ConnectionDto × List DeepAttributionRequest :=
  s.service.onConnectionsUpdated S host { resolver, wantContainerChain, deepWorker := true } nowMs
    conns

/-- What the worker found, given to the service. -/
def deliver (service : ConnectionsService) (outs : List DeepOutput) : ConnectionsService :=
  outs.foldl (fun service o => match o with
    | .refined updates => (service.onDeepRefined updates).1
    | _ => service) service

def step (S : StdSort) (wantContainerChain : Bool) (s : DeepPass) :
    DeepEvent → DeepPass × List DeepOutput
  | .snapshot host resolver nowMs conns =>
      let r := s.poll S wantContainerChain host resolver nowMs conns
      ({ service := r.1, worker := s.worker.enqueue S r.2.2 }, [])
  | .timeout R =>
      if s.worker.running then
        let r := s.worker.process S (some R)
        ({ service := deliver s.service r.2, worker := r.1 }, r.2)
      else (s, [])

/-- The event is no snapshot that lists the flow as weakly attributed, or the flow's request is still
queued, or it has not been tried yet. -/
def QueuedOnce (S : StdSort) (wantContainerChain : Bool) (k : AttributionFlowKey) (s : DeepPass)
    (outs : List DeepOutput) : DeepEvent → Prop
  | .snapshot host resolver nowMs conns =>
      (∃ r ∈ (s.poll S wantContainerChain host resolver nowMs conns).2.2, r.key = k) →
        (s.worker.queue.attemptsOf k).isSome ∨ retries k outs = 0
  | .timeout _ => True

/-- **The invariant**: a queued request has counted every attempt and is below the limit; without one
the attempts are within the limit. -/
def Aging (k : AttributionFlowKey) (maxAttempts : Int) (s : DeepPass) (outs : List DeepOutput) :
    Prop :=
  s.worker.maxAttempts = maxAttempts ∧
    match s.worker.queue.attemptsOf k with
    | some a => a = retries k outs ∧ a < maxAttempts
    | none => retries k outs ≤ maxAttempts

section Step
variable {S : StdSort} {wantContainerChain : Bool} {k : AttributionFlowKey} {maxAttempts : Int}
  {s : DeepPass} {outs : List DeepOutput}

theorem Aging.le (h : Aging k maxAttempts s outs) : retries k outs ≤ maxAttempts := by
  obtain ⟨-, h⟩ := h
  split at h
  · omega
  · exact h

/-- The service queues with no attempts. -/
theorem attempts_poll {host : HostContext} {resolver : Option (ℕ → ProcessResolver)} {nowMs : UInt64}
    {conns : List Connection} {r : DeepAttributionRequest}
    (h : r ∈ (s.poll S wantContainerChain host resolver nowMs conns).2.2) : r.attempts = 0 := by
  obtain ⟨c, -, rfl⟩ := List.mem_map.mp h
  rfl

/-- A request put in by a poll adds no attempt. -/
theorem enqueue_aging (hmax : 0 < maxAttempts) (h : Aging k maxAttempts s outs)
    {reqs : List DeepAttributionRequest} (hreqs : ∀ r ∈ reqs, r.attempts = 0)
    (honce : (∃ r ∈ reqs, r.key = k) → (s.worker.queue.attemptsOf k).isSome ∨ retries k outs = 0)
    (service : ConnectionsService) :
    Aging k maxAttempts { service, worker := s.worker.enqueue S reqs } outs := by
  have hle := h.le
  obtain ⟨hlimit, h⟩ := h
  obtain ⟨hkept, hnew⟩ := s.worker.enqueue_attempts S hreqs k
  refine ⟨(s.worker.enqueue_maxAttempts S reqs).trans hlimit, ?_⟩
  dsimp only
  cases hq : s.worker.queue.attemptsOf k with
  | some a =>
      rw [hq] at h
      rcases hkept a hq (by omega) with hput | hput
      · rw [hput]
        exact h
      · rw [hput]
        exact hle
  | none =>
      rcases hnew hq with hput | ⟨hput, hk⟩
      · rw [hput]
        exact hle
      · -- queued afresh: nothing has been tried yet
        have hzero : retries k outs = 0 := by
          rcases honce hk with hsome | hzero
          · rw [hq] at hsome
            cases hsome
          · exact hzero
        rw [hput, hzero]
        exact ⟨rfl, hmax⟩

/-- A tick adds the attempt it makes. -/
theorem process_aging (h : Aging k maxAttempts s outs) (resolver : Option (ℕ → ProcessResolver))
    (service : ConnectionsService) :
    Aging k maxAttempts { service, worker := (s.worker.process S resolver).1 }
      (outs ++ (s.worker.process S resolver).2) := by
  have hle := h.le
  obtain ⟨hlimit, h⟩ := h
  refine ⟨(ResolverDeepWorker.process_maxAttempts S s.worker resolver).trans hlimit, ?_⟩
  rw [retries_append]
  dsimp only
  rcases ResolverDeepWorker.process_attempts S s.worker resolver k with
    ⟨hcount, hsame | hnone⟩ | ⟨a, hq, hcount, ⟨hnext, hlt⟩ | hnone⟩
  · rw [hcount, hsame]
    exact h
  · rw [hcount, hnone]
    exact hle
  · -- tried and back in the queue: one more attempt on both sides
    rw [hq] at h
    rw [hcount, hnext, ← hlimit]
    exact ⟨by push_cast; rw [h.1], hlt⟩
  · -- tried for the last time, or dropped for room
    rw [hq] at h
    rw [hcount, hnone]
    push_cast
    omega

theorem step_aging (hmax : 0 < maxAttempts) (h : Aging k maxAttempts s outs) {e : DeepEvent}
    (he : QueuedOnce S wantContainerChain k s outs e) :
    Aging k maxAttempts (step S wantContainerChain s e).1
      (outs ++ (step S wantContainerChain s e).2) := by
  cases e with
  | snapshot host resolver nowMs conns =>
      rw [step, List.append_nil]
      exact enqueue_aging hmax h (fun r hr => attempts_poll hr) he _
  | timeout R =>
      rw [step]
      split
      · exact process_aging h _ _
      · rw [List.append_nil]
        exact h

end Step

/-! ### Runs -/

section Run
variable (S : StdSort) (wantContainerChain : Bool) (tuning : ResolverTuning) (k : AttributionFlowKey)

/-- In the run, every snapshot that lists the flow finds it queued, or not tried yet. -/
def QueuedOnceThroughout (events : List DeepEvent) : Prop :=
  ∀ pre e post, events = pre ++ e :: post →
    let r := run (step S wantContainerChain) (start S tuning) pre
    QueuedOnce S wantContainerChain k r.1 r.2 e

variable {tuning k} in
theorem start_aging (hmax : 0 < tuning.deepMaxAttempts) :
    Aging k tuning.deepMaxAttempts (start S tuning) [] := by
  refine ⟨if_pos hmax, ?_⟩
  have hempty : (start S tuning).worker.queue.attemptsOf k = none := by
    rcases DeepAttributionQueue.attemptsOf_enforceCap S { cap := _ } k with h | h
    · exact h
    · exact h
  rw [hempty]
  exact hmax.le

variable {S wantContainerChain tuning k} in
theorem run_aging (hmax : 0 < tuning.deepMaxAttempts) {events : List DeepEvent}
    (h : QueuedOnceThroughout S wantContainerChain tuning k events) :
    Aging k tuning.deepMaxAttempts (run (step S wantContainerChain) (start S tuning) events).1
      (run (step S wantContainerChain) (start S tuning) events).2 := by
  -- on the last event, since the condition on an event speaks of the run before it
  induction events using List.reverseRecOn with
  | nil => exact start_aging S hmax
  | append_singleton events e ih =>
      have hpre : QueuedOnceThroughout S wantContainerChain tuning k events := by
        intro pre e' post he
        exact h pre e' (post ++ [e]) (by rw [he]; simp)
      rw [run_concat]
      exact step_aging hmax (ih hpre) (h events e [] rfl)

/-- **A flow that is queued once is tried at most `deepMaxAttempts` times.** -/
theorem retries_le_maxAttempts (hmax : 0 < tuning.deepMaxAttempts) (events : List DeepEvent)
    (h : QueuedOnceThroughout S wantContainerChain tuning k events) :
    (retries k (run (step S wantContainerChain) (start S tuning) events).2 : Int) ≤
      tuning.deepMaxAttempts :=
  (run_aging hmax h).le

end Run

/-! ### A flow without an owner -/

/-- The resolver has no process for the flow. -/
def Ownerless (k : AttributionFlowKey) (R : ProcessResolver) : Prop :=
  ∀ c, keyOf c = k → R.resolvePid c ≤ 0 ∨ (R.processOf (R.resolvePid c)).valid = false

/-- A snapshot that lists the flow without a process, or a tick at which the resolver has none for
it. -/
def Unresolved (S : StdSort) (wantContainerChain : Bool) (k : AttributionFlowKey) : DeepEvent → Prop
  | .snapshot host resolver _ conns =>
      ∃ c ∈ snapshot S host { resolver, wantContainerChain, deepWorker := true } conns,
        keyOf c = k ∧ c.process.valid = false
  | .timeout R => ∀ i, Ownerless k (R i)

/-- A resolver that knows no socket. -/
def nobody : ProcessResolver where
  resolvePid _ := 0
  startTimeForPid _ := 0
  enrichPid _ := none
  resolveContainerForPid _ := none
  resolveContainerChainForPid _ := []

/-- A flow from this host. -/
def probe : Connection where
  proto := .Tcp
  «local» := ⟨⟨.IPv4Protocol, "10.0.0.2".toList⟩, 40000⟩
  remote := ⟨⟨.IPv4Protocol, "10.0.0.9".toList⟩, 443⟩

def probeHost : HostContext where
  localAddrs := {⟨.IPv4Protocol, "10.0.0.2".toList⟩}

/-- The poll that lists the flow. -/
def probed : DeepEvent := .snapshot probeHost (some fun _ => nobody) 0 [probe]

def tick : DeepEvent := .timeout fun _ => nobody

/-- The flow, as the snapshot gives it. -/
def probeKey : AttributionFlowKey := { keyOf probe with direction := .Outbound }

theorem probed_unresolved : Unresolved .stable false probeKey probed := by
  refine ⟨{ probe with direction := .Outbound, reason := .NoLocalSocket }, ?_, by decide, by decide⟩
  decide +kernel

theorem tick_unresolved : Unresolved .stable false probeKey tick :=
  fun _ _ _ => .inl (show (0 : Int32) ≤ 0 by decide)

/-- A poll and as many ticks as it takes to give the flow up. -/
theorem probe_aged_out :
    (retries probeKey (run (step .stable false) (start .stable balancedResolverTuning)
      (probed :: List.replicate 12 tick)).2 : Int) ≤ 12 := by
  refine retries_le_maxAttempts _ _ balancedResolverTuning _ (by decide) _ ?_
  rintro (_ | ⟨e', pre⟩) e post he
  · -- the poll comes first
    obtain rfl : probed = e := (List.cons.inj he).1
    exact fun _ => .inr rfl
  · have hmem : e ∈ List.replicate 12 tick := by
      rw [(List.cons.inj he).2]
      simp
    rw [List.eq_of_mem_replicate hmem]
    trivial

/-- The next poll lists the flow again, and it is tried once more. -/
theorem aged_out_tried_again :
    ¬ ∀ events, (∀ e ∈ events, Unresolved .stable false probeKey e) →
      (retries probeKey (run (step .stable false) (start .stable balancedResolverTuning)
        events).2 : Int) ≤ balancedResolverTuning.deepMaxAttempts := by
  intro h
  have hevents := h (probed :: List.replicate 12 tick ++ [probed, tick]) (fun e he => by
    simp only [List.cons_append, List.mem_cons, List.mem_append, List.mem_replicate] at he
    obtain rfl | ⟨-, rfl⟩ | rfl | rfl | he := he
    · exact probed_unresolved
    · exact tick_unresolved
    · exact probed_unresolved
    · exact tick_unresolved
    · cases he)
  revert hevents
  decide +kernel

end DeepPass
end Qiftop.Agent
