import Qiftop.Aggregate.Reorder
import Qiftop.Agent.Convergence
import Qiftop.Backend.ConntrackMonitor
import Qiftop.Backend.MemoisedAttribution
import Qiftop.Dbus.RoundTrip

/-!
# Agent — two ways to a table

A frontend has its table from the monitor in its own process, or from the agent, whose monitor is the same
(`agent/main.cpp` builds it without arguments, so with a resolver of its own): the agent's service infers the
directions, attributes once more with the resolver the configuration asks for, and sends what the client
reads back off the bus.

`Sides` runs both from the same polls, and makes the same calls on both tables.  The tables are in two
processes, which go through their hashes in orders of their own, so their rows stand in different orders.

* `client_counts_as_table`: whatever is attributed and refined on either side, the rows agree in all else.
* `client_shows_table`: without refinements they agree in all that the wire carries but the reason
  (`wireView`), with the service's resolver on; and also with attribution switched off, since what the monitor
  attributed goes out all the same.
-/

namespace Qiftop.Agent.Transports
open Qt Lib Backend Heuristics Dbus Aggregate ConntrackMonitor

/-- `NullProcessResolver`. -/
def NullProcessResolver : ProcessResolver where
  resolvePid _ := 0
  startTimeForPid _ := 0
  enrichPid _ := none
  resolveContainerForPid _ := none
  resolveContainerChainForPid _ := []

/-- The monitor, the agent's service, the table in the monitor's process and the table of a client. -/
structure Sides (F : Type) where
  monitor : Worker
  service : ConnectionsService := {}
  table : Aggregator F
  client : Aggregator F

/-- The orders in which the two processes go through their hashes. -/
structure Orders where
  table : Hash.Iteration Connection
  client : Hash.Iteration Connection

inductive Event where
  /-- A poll of the host; the agent's context, its wiring and its clock, and the clock of the tables. -/
  | polled (host : Host) (context : HostContext) (w : Wiring) (agentMs : UInt64) (nowMs : Int)
      (orders : Orders)
  /-- The agent refines, and the client applies `AttributionChanged`. -/
  | refined (updates : List DeepAttributionUpdate)
  /-- A call on both tables. -/
  | call (op : Op) (orders : Orders)

section Step
variable {F : Type} [Double F] (H : StdHeap) (S : StdSort) (parse : QString → QHostAddress)

/-- A signal of the monitor, and the `ConnectionsChanged` that follows it. -/
def deliver (context : HostContext) (w : Wiring) (agentMs : UInt64) (nowMs : Int) (orders : Orders)
    (st : Sides F × List (List Value)) : Output → Sides F × List (List Value)
  | .permissionDenied => st
  | .connectionsUpdated flows =>
      let r := st.1.service.onConnectionsUpdated S context w agentMs flows
      let payload := r.2.1.map ConnectionDto.write
      ({ st.1 with
          service := r.1
          table := st.1.table.updateConnectionsIn orders.table nowMs flows
          client := st.1.client.updateConnectionsIn orders.client nowMs
            (payload.filterMap (received parse)) },
        st.2 ++ [payload])

def step (sides : Sides F) : Event → Sides F × List (List Value)
  | .polled host context w agentMs nowMs orders =>
      let r := sides.monitor.poll H host
      r.2.foldl (deliver S parse context w agentMs nowMs orders) ({ sides with monitor := r.1 }, [])
  | .refined updates =>
      let r := sides.service.onDeepRefined updates
      let payload := r.2.map ConnectionDto.write
      if r.2.isEmpty then ({ sides with service := r.1 }, [])
      else
        ({ sides with
            service := r.1
            client := sides.client.applyAttributionPatch (payload.filterMap (received parse)) }, [payload])
  | .call op orders =>
      ({ sides with
          table := op.applyIn orders.table sides.table
          client := op.applyIn orders.client sides.client }, [])

def start (range : UInt16 × UInt16) (wantChain : Bool) : Sides F where
  monitor := { wantChain }
  table := .init range
  client := .init range

end Step

/-! ### What is assumed -/

/-- The table and the agent take the same addresses and ports for the host's. -/
structure Knows {F : Type} (s : Aggregator F) (context : HostContext) : Prop where
  ours : ∀ a, a ∈ s.localAddrs ∨ a ∈ s.loopbackAddrs ↔
    a ∈ context.localAddrs ∨ a ∈ context.loopbackAddrs
  low : s.ephemeralLow = context.ephemeralLow
  high : s.ephemeralHigh = context.ephemeralHigh

/-- The agent's configuration switches attribution off, or leaves its service the layers the monitor has,
whose answers depend on the ends of a flow and do not change during the poll. -/
inductive Configured (wantChain : Bool) (resolver : Option (ℕ → ProcessResolver)) (w : Wiring) : Prop
  | off (h : w.resolver = some fun _ => NullProcessResolver)
  | same (R : ProcessResolver) (hmonitor : resolver = some fun _ => R) (hservice : w.resolver = some fun _ => R)
      (hchain : w.wantContainerChain = true → wantChain = true)
      (hends : ∀ c c' : Connection, c.proto = c'.proto → c.local = c'.local → c.remote = c'.remote →
        R.resolvePid c = R.resolvePid c')

/-- The texts of the dumped addresses read back. -/
def Readable (parse : QString → QHostAddress) (host : Host) : Prop :=
  ∀ ct ∈ host.dumps.flatMap Dump.entries, ∀ src dst, ct.addresses = some (src, dst) →
    parse src.toString = src ∧ parse dst.toString = dst

def Event.Ok {F : Type} (parse : QString → QHostAddress) (sides : Sides F) : Event → Prop
  | .polled host context _ _ _ _ => Readable parse host ∧ Knows sides.table context
  | .refined _ | .call _ _ => True

/-- What else is assumed where attributions are compared. -/
def Event.Unrefined {F : Type} (sides : Sides F) : Event → Prop
  | .polled host _ w _ _ _ => Configured sides.monitor.wantChain host.resolver w
  | .refined _ => False
  | .call op _ => ∀ patch, op ≠ .applyAttributionPatch patch

/-- What the wire carries of an attribution. -/
def wired (a : Attribution) : Attribution :=
  { a with process := wireProcess a.process
           containerChain := a.containerChain.take kMaxContainerChainDepth }

/-- What the wire carries but for the reason: a monitor gives none. -/
def wireView (a : Attribution) : Attribution := { wired a with reason := .Resolved }

/-! ### Attributing twice -/

theorem attributeFlows_null (wantContainerChain : Bool) (flows : List Connection) :
    attributeFlows (some fun _ => NullProcessResolver) wantContainerChain flows = flows := by
  have hwalk : ∀ (i : ℕ) (memo : AttributionMemo),
      attributeFrom (fun _ => NullProcessResolver) wantContainerChain i memo flows = flows := by
    induction flows with
    | nil => exact fun _ _ => rfl
    | cons c flows ih => exact fun i memo => congrArg (c :: ·) (ih (i + 1) memo)
  exact hwalk 0 {}

/-- While its answers do not change, a resolver attributes each flow on its own. -/
theorem attributeFlows_const (R : ProcessResolver) (wantContainerChain : Bool) (flows : List Connection) :
    attributeFlows (some fun _ => R) wantContainerChain flows =
      flows.map (attributeAlone R wantContainerChain) := by
  have hsteady : Steady fun _ : ℕ => R := ⟨fun _ _ _ _ => rfl, fun _ _ _ _ => rfl, fun _ _ _ _ => rfl⟩
  have hwalk := attributeFrom_eq_alone hsteady wantContainerChain (faithful_empty _) 0 flows
  refine hwalk.trans (List.ext_getElem? fun i => ?_)
  rw [List.getElem?_mapIdx, List.getElem?_map]

theorem ends_attributeAlone (R : ProcessResolver) (wantContainerChain : Bool) (c : Connection) :
    let c' := attributeAlone R wantContainerChain c
    c'.proto = c.proto ∧ c'.local = c.local ∧ c'.remote = c.remote := by
  unfold attributeAlone
  split
  · exact ⟨rfl, rfl, rfl⟩
  · split
    · exact ⟨rfl, rfl, rfl⟩
    · exact ⟨rfl, rfl, rfl⟩

/-- The flow with the direction the agent infers. -/
def directed (context : HostContext) (c : Connection) : Connection :=
  { c with
    direction := inferDirection c context.localAddrs context.loopbackAddrs context.ephemeralLow
      context.ephemeralHigh }

/-- The service's resolver has nothing to add to what the monitor's said. -/
theorem Configured.attributeFlows_again {wantChain : Bool} {resolver : Option (ℕ → ProcessResolver)}
    {w : Wiring} (h : Configured wantChain resolver w) (context : HostContext) (kept : List Connection) :
    attributeFlows w.resolver w.wantContainerChain
        ((attributeFlows resolver wantChain kept).map (directed context)) =
      (attributeFlows resolver wantChain kept).map (directed context) := by
  cases h with
  | off h => rw [h, attributeFlows_null]
  | same R hmonitor hservice hchain hends =>
      rw [hmonitor, hservice, attributeFlows_const, attributeFlows_const, List.map_map, List.map_map,
        List.map_map]
      refine List.map_congr_left fun c _ => ?_
      simp only [Function.comp_apply]
      obtain ⟨hproto, hlocal, hremote⟩ := ends_attributeAlone R wantChain c
      have hpid : R.resolvePid (directed context (attributeAlone R wantChain c)) = R.resolvePid c :=
        hends _ _ hproto hlocal hremote
      rw [attributeAlone, hpid]
      by_cases hnone : R.resolvePid c ≤ 0
      · rw [if_pos hnone]
      · rw [if_neg hnone]
        cases hvalid : (R.processOf (R.resolvePid c)).valid with
        | false => simp [attributeAlone, directed, hnone, hvalid]
        | true =>
            cases hw : w.wantContainerChain with
            | false => simp [attributeAlone, directed, hnone, hvalid]
            | true => simp [attributeAlone, directed, hnone, hvalid, hchain hw]

/-! ### One flow -/

/-- What the tables and the service rely on of a flow a poll emits. -/
structure Polled (parse : QString → QHostAddress) (c : Connection) : Prop where
  direction : c.direction = .Unknown
  reads : ReadsBack parse c
  pid : 0 ≤ c.process.pid

theorem Polled.of_nfctCallback {parse : QString → QHostAddress} {ctx : PollCtx} {ct : NfConntrack}
    {c : Connection} (h : nfctCallback ctx ct = some c)
    (hread : ∀ src dst, ct.addresses = some (src, dst) → parse src.toString = src ∧ parse dst.toString = dst) :
    Polled parse c ∧ c.process = {} := by
  unfold nfctCallback at h
  split at h
  · next proto src dst _ haddresses =>
      obtain ⟨hsrc, hdst⟩ := hread src dst haddresses
      cases h
      unfold orientConntrackFlow
      split
      · exact ⟨⟨rfl, ⟨hsrc, hdst⟩, Int32.le_refl 0⟩, rfl⟩
      · exact ⟨⟨rfl, ⟨hdst, hsrc⟩, Int32.le_refl 0⟩, rfl⟩
  · cases h

/-- Attribution keeps a flow's ends, and puts in a process it resolved, or none. -/
theorem polled_attributeFlows {parse : QString → QHostAddress} {host : Host} (hread : Readable parse host)
    {kept : List Connection} (hkept : ∀ c ∈ kept, Dumped host c) (wantContainerChain : Bool) :
    ∀ c ∈ attributeFlows host.resolver wantContainerChain kept, Polled parse c := by
  intro c' hc'
  obtain ⟨c, hc, hattributed⟩ := mem_attributeFlows hc'
  obtain ⟨ct, hct, hsome⟩ := hkept c hc
  obtain ⟨hpolled, hprocess⟩ := Polled.of_nfctCallback hsome (hread ct hct)
  have hnone : c.process = {} := hprocess
  have heq := hattributed.eq
  refine ⟨?_, ?_, ?_⟩
  · rw [heq]
    exact hpolled.direction
  · rw [heq]
    exact hpolled.reads
  · rcases hattributed.process with hsame | hvalid | hempty
    · rw [hsame, hnone]
      exact Int32.le_refl 0
    · exact Int32.le_of_lt (of_decide_eq_true hvalid)
    · rw [hempty]
      exact Int32.le_refl 0

section Flow
variable {F : Type} {s : Aggregator F} {context : HostContext}

/-- The table infers what the agent infers. -/
theorem Knows.inferDirection_eq (h : Knows s context) (c : Connection) :
    inferDirection c s.localAddrs s.loopbackAddrs s.ephemeralLow s.ephemeralHigh =
      inferDirection c context.localAddrs context.loopbackAddrs context.ephemeralLow context.ephemeralHigh := by
  have hours : ∀ a, (decide (a ∈ s.localAddrs) || decide (a ∈ s.loopbackAddrs)) =
      (decide (a ∈ context.localAddrs) || decide (a ∈ context.loopbackAddrs)) := by
    intro a
    rw [← Bool.decide_or, ← Bool.decide_or]
    exact decide_eq_decide.mpr (h.ours a)
  unfold inferDirection
  simp only [hours, h.low, h.high]

/-- What arrives of a flow with the direction the agent infers. -/
theorem relabel_direct_arrived {parse : QString → QHostAddress} {c : Connection} (hread : ReadsBack parse c)
    (hpid : 0 ≤ c.process.pid) (hknows : Knows s context) (hdir : directed context c = c)
    {g : Attribution → Attribution} (hg : ∀ a, g (wired a) = g a) :
    relabel g (s.direct (arrived parse c)) = relabel g c := by
  have harrived : arrived parse c = relabel wired c := fromDto_toDto parse hread hpid
  have hdirect : s.direct (relabel wired c) = relabel wired c := by
    by_cases hunknown : c.direction = .Unknown
    · have hinferred := hknows.inferDirection_eq (relabel wired c)
      rw [Aggregator.direct, if_neg (not_not.mpr (show (relabel wired c).direction = .Unknown from hunknown)),
        hinferred]
      exact congrArg (relabel wired) hdir
    · exact if_pos (show (relabel wired c).direction ≠ .Unknown from hunknown)
  rw [harrived, hdirect, relabel_relabel, show g ∘ wired = g from funext hg]

/-- The table directs a flow of a poll as the agent does. -/
theorem Polled.direct_eq {parse : QString → QHostAddress} {c : Connection} (h : Polled parse c)
    (hknows : Knows s context) : s.direct c = directed context c := by
  rw [Aggregator.direct, if_neg (not_not.mpr h.direction), hknows.inferDirection_eq]
  rfl

end Flow

/-! ### One poll -/

section Sides
variable {F : Type} [Double F] {H : StdHeap} {S : StdSort} {parse : QString → QHostAddress}
variable {g : Attribution → Attribution} {context : HostContext} {w : Wiring} {flows : List Connection}

theorem snapshot_eq (hlen : flows.length ≤ kMaxInProcessFlows) :
    snapshot S context w flows =
      (attributeFlows w.resolver w.wantContainerChain (flows.map (directed context))).map fun c =>
        { c with reason := attributionReason c context.localAddrs context.loopbackAddrs } := by
  have hcapped : capped S flows = flows := if_neg (Nat.not_lt.mpr hlen)
  unfold snapshot
  rw [hcapped]
  rfl

/-- Attribution adds labels to the flows, one by one. -/
theorem map_flow_attributeFlows (resolver : Option (ℕ → ProcessResolver)) (wantContainerChain : Bool)
    (flows : List Connection) :
    (attributeFlows resolver wantContainerChain flows).map flow = flows.map flow := by
  have hwalk : ∀ (R : ℕ → ProcessResolver) (i : ℕ) (memo : AttributionMemo), memo.Sound →
      (attributeFrom R wantContainerChain i memo flows).map flow = flows.map flow := by
    intro R
    induction flows with
    | nil => exact fun _ _ _ => rfl
    | cons c flows ih =>
        intro i memo hmemo
        obtain ⟨hattributed, hmemo'⟩ := attributeFlow_spec (R i) wantContainerChain hmemo c
        have hflow : flow (attributeFlow (R i) wantContainerChain memo c).1 = flow c := by
          rw [hattributed.eq]
          rfl
        rw [attributeFrom, List.map_cons, List.map_cons, hflow, ih (i + 1) _ hmemo']
  cases resolver with
  | none => rfl
  | some R => exact hwalk R 0 {} fun _ _ h => by simp at h

/-- The service says of the flows, under `g`, what the monitor said. -/
def SaysSame (S : StdSort) (g : Attribution → Attribution) (context : HostContext) (w : Wiring)
    (flows : List Connection) : Prop :=
  (snapshot S context w flows).map (relabel g) = (flows.map (directed context)).map (relabel g)

theorem saysSame_forgotten (hlen : flows.length ≤ kMaxInProcessFlows) :
    SaysSame S (fun _ => {}) context w flows := by
  have hsnapshot : ((attributeFlows w.resolver w.wantContainerChain (flows.map (directed context))).map
      fun c => { c with
        reason := attributionReason c context.localAddrs context.loopbackAddrs }).map flow =
      (attributeFlows w.resolver w.wantContainerChain (flows.map (directed context))).map flow := by
    rw [List.map_map]
    rfl
  rw [SaysSame, snapshot_eq hlen, ← flow_eq_relabel, hsnapshot, map_flow_attributeFlows]

theorem saysSame_wireView (hlen : flows.length ≤ kMaxInProcessFlows)
    (hagain : attributeFlows w.resolver w.wantContainerChain (flows.map (directed context)) =
      flows.map (directed context)) : SaysSame S wireView context w flows := by
  rw [SaysSame, snapshot_eq hlen, hagain, List.map_map]
  rfl

/-- The flows of a snapshot have the direction the agent infers. -/
theorem directed_snapshot {c : Connection} (hc : c ∈ snapshot S context w flows) :
    directed context c = c := by
  obtain ⟨c₂, hc₂, rfl⟩ := List.mem_map.mp hc
  obtain ⟨c₁, hc₁, hattributed⟩ := mem_attributeFlows hc₂
  obtain ⟨c₀, -, rfl⟩ := List.mem_map.mp hc₁
  rw [hattributed.eq]
  rfl

/-- The tables agree under `g`, but for the order of their rows. -/
def Alike (g : Attribution → Attribution) (sides : Sides F) : Prop :=
  Reordered (sides.client.relabel g) (sides.table.relabel g)

/-- What the tables rely on of a signal. -/
def Delivers (S : StdSort) (parse : QString → QHostAddress) (g : Attribution → Attribution)
    (context : HostContext) (w : Wiring) (o : Output) : Prop :=
  o = .permissionDenied ∨
    ∃ flows, o = .connectionsUpdated flows ∧ (∀ c ∈ flows, Polled parse c) ∧ SaysSame S g context w flows

theorem Alike.deliver (hg : ∀ a, g (wired a) = g a) {sides : Sides F} (h : Alike g sides)
    (hknows : Knows sides.table context) (agentMs : UInt64) (nowMs : Int)
    (orders : Orders) (hpolled : ∀ c ∈ flows, Polled parse c) (hsame : SaysSame S g context w flows)
    (payloads : List (List Value)) :
    Alike g (deliver S parse context w agentMs nowMs orders (sides, payloads)
      (.connectionsUpdated flows)).1 := by
  have hpayload : ((toDtos (snapshot S context w flows)).map ConnectionDto.write).filterMap (received parse) =
      (snapshot S context w flows).map (arrived parse) := by
    rw [toDtos, List.map_map, List.filterMap_map]
    have hsome : received parse ∘ (ConnectionDto.write ∘ toDto) = some ∘ arrived parse :=
      funext fun c => received_write parse _
    rw [hsome, List.filterMap_eq_map]
  have hwire : ∀ c ∈ snapshot S context w flows, ReadsBack parse c ∧ 0 ≤ c.process.pid :=
    wire_snapshot fun c hc => ⟨(hpolled c hc).reads, (hpolled c hc).pid⟩
  -- under `g` both tables read the same flows
  have hdirect : (((snapshot S context w flows).map (arrived parse)).map (relabel g)).map
        (sides.table.relabel g).direct =
      (flows.map (relabel g)).map (sides.table.relabel g).direct := by
    rw [Aggregator.map_direct_relabel, Aggregator.map_direct_relabel]
    calc (((snapshot S context w flows).map (arrived parse)).map sides.table.direct).map (relabel g)
        = (snapshot S context w flows).map (relabel g) := by
          rw [List.map_map, List.map_map]
          exact List.map_congr_left fun c hc =>
            relabel_direct_arrived (hwire c hc).1 (hwire c hc).2 hknows (directed_snapshot hc) hg
      _ = (flows.map (directed context)).map (relabel g) := hsame
      _ = (flows.map sides.table.direct).map (relabel g) :=
          congrArg (List.map _) (List.map_congr_left fun c hc => ((hpolled c hc).direct_eq hknows).symm)
  have hboth : Reordered
      ((sides.client.updateConnections nowMs ((snapshot S context w flows).map (arrived parse))).relabel g)
      ((sides.table.updateConnections nowMs flows).relabel g) := by
    have hflows : (sides.table.relabel g).updateConnections nowMs
          (((snapshot S context w flows).map (arrived parse)).map (relabel g)) =
        (sides.table.updateConnections nowMs flows).relabel g :=
      (Aggregator.updateConnections_congr _ hdirect).trans
        (sides.table.updateConnections_relabel g nowMs flows)
    rw [← sides.client.updateConnections_relabel, ← hflows]
    exact Reordered.updateConnections h nowMs _
  -- the two processes append the new rows in orders of their own
  change Reordered ((sides.client.updateConnectionsIn orders.client nowMs
      (((toDtos (snapshot S context w flows)).map ConnectionDto.write).filterMap (received parse))).relabel g)
    ((sides.table.updateConnectionsIn orders.table nowMs flows).relabel g)
  rw [hpayload]
  exact ((sides.client.updateConnectionsIn_reordered orders.client nowMs _).relabel g).symm.trans
    (hboth.trans ((sides.table.updateConnectionsIn_reordered orders.table nowMs flows).relabel g))

theorem Alike.foldl_deliver (hg : ∀ a, g (wired a) = g a) {outs : List Output}
    (houts : ∀ o ∈ outs, Delivers S parse g context w o) (agentMs : UInt64) (nowMs : Int) (orders : Orders)
    (st : Sides F × List (List Value)) (h : Alike g st.1) (hknows : Knows st.1.table context) :
    let st' := outs.foldl (Transports.deliver S parse context w agentMs nowMs orders) st
    Alike g st'.1 ∧ st'.1.monitor = st.1.monitor := by
  induction outs generalizing st with
  | nil => exact ⟨h, rfl⟩
  | cons o outs ih =>
      obtain ⟨sides, payloads⟩ := st
      have hrest := fun o' ho' => houts o' (List.mem_cons_of_mem o ho')
      rw [List.foldl_cons]
      rcases houts o List.mem_cons_self with rfl | ⟨flows, rfl, hpolled, hsame⟩
      · exact ih hrest _ h hknows
      · have halike := h.deliver hg hknows agentMs nowMs orders hpolled hsame payloads
        -- a snapshot leaves the addresses and ports the table goes by
        have hknows' : Knows (sides.table.updateConnectionsIn orders.table nowMs flows) context :=
          ⟨hknows.ours, hknows.low, hknows.high⟩
        exact ih hrest _ halike hknows'

/-! ### Runs -/

/-- The invariant of a run. -/
structure Together (g : Attribution → Attribution) (sides : Sides F) : Prop where
  warm : Warm (fun _ _ => True) (fun _ _ => True) sides.monitor.routeCache sides.monitor.ifIndexCache
  alike : Alike g sides

theorem Together.polled (hg : ∀ a, g (wired a) = g a) {sides : Sides F} (h : Together g sides) {host : Host}
    {agentMs : UInt64} {nowMs : Int} {orders : Orders} (hread : Readable parse host)
    (hknows : Knows sides.table context)
    (hsame : ∀ kept : List Connection, kept.length ≤ kMaxInProcessFlows →
      SaysSame S g context w (attributeFlows host.resolver sides.monitor.wantChain kept)) :
    Together g (step H S parse sides (.polled host context w agentMs nowMs orders)).1 := by
  have htold : Tells (fun _ _ => True) (fun _ _ => True) host := ⟨fun _ => trivial, fun _ => trivial⟩
  have houts : ∀ o ∈ (sides.monitor.poll H host).2, Delivers S parse g context w o := by
    intro o ho
    rcases h.warm.outputs H htold o ho with hdenied | ⟨kept, hflows, hlen, hkept⟩
    · exact .inl hdenied
    · exact .inr ⟨_, hflows, polled_attributeFlows hread hkept _, hsame kept hlen⟩
  have hstart : Alike g { sides with monitor := (sides.monitor.poll H host).1 } := h.alike
  obtain ⟨halike, hmonitor⟩ := Alike.foldl_deliver hg houts agentMs nowMs orders (_, []) hstart hknows
  refine ⟨?_, halike⟩
  have hwarm := h.warm.poll H htold
  rw [show (step H S parse sides (.polled host context w agentMs nowMs orders)).1.monitor =
    (sides.monitor.poll H host).1 from hmonitor]
  exact hwarm

/-- A call of both frontends, but a patch. -/
theorem Together.call {sides : Sides F} (h : Together g sides) {op : Op}
    (hop : ∀ patch, op ≠ .applyAttributionPatch patch) (orders : Orders) :
    Together g (step H S parse sides (.call op orders)).1 := by
  have hop' : ∀ patch, op.relabel g ≠ .applyAttributionPatch patch := by
    cases op with
    | applyAttributionPatch patch => exact absurd rfl (hop patch)
    | _ => exact nofun
  have hboth : Reordered ((op.apply sides.client).relabel g) ((op.apply sides.table).relabel g) := by
    rw [← Op.apply_relabel _ _ hop, ← Op.apply_relabel _ _ hop]
    exact Reordered.apply h.alike hop'
  exact ⟨h.warm, ((Op.apply_reordered orders.client sides.client op).relabel g).symm.trans
    (hboth.trans ((Op.apply_reordered orders.table sides.table op).relabel g))⟩

theorem Together.step_wireView {sides : Sides F} (h : Together wireView sides) {e : Event}
    (hok : e.Ok parse sides) (hunrefined : e.Unrefined sides) :
    Together wireView (step H S parse sides e).1 := by
  have hg : ∀ a, wireView (wired a) = wireView a := fun a => by
    simp [wireView, wired, wireProcess, List.take_take]
  cases e with
  | polled host context w agentMs nowMs orders =>
      refine h.polled hg hok.1 hok.2 fun kept hlen => saysSame_wireView ?_ (hunrefined.attributeFlows_again _ _)
      rw [length_attributeFlows]
      exact hlen
  | refined updates => exact hunrefined.elim
  | call op orders => exact h.call hunrefined orders

theorem Together.step_forgotten {sides : Sides F} (h : Together (fun _ => {}) sides) {e : Event}
    (hok : e.Ok parse sides) : Together (fun _ => {}) (step H S parse sides e).1 := by
  cases e with
  | polled host context w agentMs nowMs orders =>
      refine h.polled (fun _ => rfl) hok.1 hok.2 fun kept hlen => saysSame_forgotten ?_
      rw [length_attributeFlows]
      exact hlen
  | refined updates =>
      simp only [step]
      split
      · exact ⟨h.warm, h.alike⟩
      · refine ⟨h.warm, ?_⟩
        rw [Alike, relabel_applyAttributionPatch]
        exact h.alike
  | call op orders =>
      by_cases hpatch : ∃ patch, op = .applyAttributionPatch patch
      · obtain ⟨patch, rfl⟩ := hpatch
        refine ⟨h.warm, ?_⟩
        change Reordered ((sides.client.applyAttributionPatch patch).relabel _)
          ((sides.table.applyAttributionPatch patch).relabel _)
        rw [relabel_applyAttributionPatch, relabel_applyAttributionPatch]
        exact h.alike
      · exact h.call (fun patch heq => hpatch ⟨patch, heq⟩) orders

omit [Double F] in
theorem together_start (g : Attribution → Attribution) (range : UInt16 × UInt16) (wantChain : Bool) :
    Together g (start (F := F) range wantChain) := ⟨warm_start wantChain, .refl _⟩

variable (H S parse) in
/-- **Both tables account alike.**  After any polls, refinements and calls the two tables have the same rows
but for what they say of owners, whatever the resolvers on either side answer and in whatever orders the two
processes append their rows. -/
theorem client_counts_as_table (range : UInt16 × UInt16) (wantChain : Bool) (events : List Event)
    (hok : EachStep (step H S parse) (Event.Ok parse) (start (F := F) range wantChain) events) :
    let sides := (run (step H S parse) (start (F := F) range wantChain) events).1
    (sides.client.rows.map (Row.relabel fun _ => {})).Perm
      (sides.table.rows.map (Row.relabel fun _ => {})) := by
  have hrun : Together (fun _ => {}) (run (step H S parse) (start (F := F) range wantChain) events).1 :=
    EachStep.invariant (I := Together fun _ => {}) (fun _ _ h hok => h.step_forgotten hok)
      (together_start _ range wantChain) hok
  exact hrun.alike.rows

variable (H S parse) in
/-- **Both ways lead to one table.**  While the agent refines nothing, the client has the rows that the other
table has, but for what the wire does not carry and the reason.  Attribution switched off in the agent's
configuration makes no difference: what the agent's monitor attributed arrives all the same. -/
theorem client_shows_table (range : UInt16 × UInt16) (wantChain : Bool) (events : List Event)
    (hok : EachStep (step H S parse) (fun sides e => e.Ok parse sides ∧ e.Unrefined sides)
      (start (F := F) range wantChain) events) :
    let sides := (run (step H S parse) (start (F := F) range wantChain) events).1
    (sides.client.rows.map (Row.relabel wireView)).Perm (sides.table.rows.map (Row.relabel wireView)) := by
  have hrun : Together wireView (run (step H S parse) (start (F := F) range wantChain) events).1 :=
    EachStep.invariant (I := Together wireView) (fun _ _ h hok => h.step_wireView hok.1 hok.2)
      (together_start _ range wantChain) hok
  exact hrun.alike.rows

end Sides

/-! ### A switched-off agent -/

/-- Every flow is curl's. -/
def curlOwns : ProcessResolver where
  resolvePid _ := 7
  startTimeForPid _ := 1
  enrichPid pid := some { pid, comm := "curl".toList }
  resolveContainerForPid _ := none
  resolveContainerChainForPid _ := []

def webRequest (port : UInt16) : NfConntrack where
  l3proto := 2
  l4proto := 6
  portSrc := port
  portDst := 443
  ipv4Src := ⟨.IPv4Protocol, "192.0.2.1".toList⟩
  ipv4Dst := ⟨.IPv4Protocol, "192.0.2.9".toList⟩

/-- A host with two web requests. -/
def desktop : Host where
  byAddr := (∅ : Hash QHostAddress QString).insert ⟨.IPv4Protocol, "192.0.2.1".toList⟩ "eth0".toList
  nameToIndex _ := 2
  dumps := [{ entries := [webRequest 40000, webRequest 40001] }]
  resolver := some fun _ => curlOwns

/-- An agent whose configuration switches attribution off polls, and the client goes through its hash the
other way. -/
def polledOff : Event :=
  .polled desktop { loopbackAddrs := {.LocalHost, .LocalHostIPv6} }
    { resolver := some fun _ => NullProcessResolver } 1000 1000 ⟨.asInserted, .backwards⟩

def ofDotted (text : QString) : QHostAddress := ⟨.IPv4Protocol, text⟩

theorem polledOff_ok : polledOff.Ok ofDotted (start (F := ℚ) (32768, 60999) false) := by
  constructor
  · intro ct hct src dst haddresses
    obtain ⟨port, rfl⟩ : ∃ port, ct = webRequest port := by
      rcases List.mem_pair.mp hct with rfl | rfl <;> exact ⟨_, rfl⟩
    cases haddresses
    exact ⟨rfl, rfl⟩
  · exact ⟨fun a => by simp [start, Aggregator.init], rfl, rfl⟩

/-- The agent finds the container later. -/
def containerFound : Event :=
  .refined [{
    key := {
      proto := .Tcp, localAddress := ofDotted "192.0.2.1".toList, localPort := 40000
      remoteAddress := ofDotted "192.0.2.9".toList, remotePort := 443, ifIndex := 2, direction := .Outbound }
    container := { runtime := "docker".toList, id := "1".toList } }]

/-- Only the client hears of the container. -/
theorem client_counts_as_table_off :
    let sides := (run (step .sorted .stable ofDotted) (start (F := ℚ) (32768, 60999) false)
      [polledOff, containerFound]).1
    (sides.client.rows.map (Row.relabel fun _ => {})).Perm
        (sides.table.rows.map (Row.relabel fun _ => {})) ∧
      sides.client.rows.map (fun r => (r.current.local.port, r.current.container.valid)) =
        [(40000, true), (40001, false)] ∧
      sides.table.rows.map (fun r => (r.current.local.port, r.current.container.valid)) =
        [(40001, false), (40000, false)] := by
  refine ⟨client_counts_as_table .sorted .stable ofDotted (32768, 60999) false [polledOff, containerFound]
    ⟨polledOff_ok, trivial, trivial⟩, ?_⟩
  decide +kernel

/-- The client has the process all the same. -/
theorem client_shows_table_off :
    let sides := (run (step .sorted .stable ofDotted) (start (F := ℚ) (32768, 60999) false) [polledOff]).1
    (sides.client.rows.map (Row.relabel wireView)).Perm (sides.table.rows.map (Row.relabel wireView)) ∧
      sides.client.rows.map (fun r => r.current.process.pid) = [7, 7] := by
  refine ⟨client_shows_table .sorted .stable ofDotted (32768, 60999) false [polledOff]
    ⟨⟨polledOff_ok, .off rfl⟩, trivial⟩, ?_⟩
  decide +kernel

end Qiftop.Agent.Transports
