import Qiftop.Backend.Attribution
import Qiftop.Dbus.Types
import Qiftop.Util.ConnectionHeuristics

/-!
# Agent — the connections service

`agent/ConnectionsService.cpp`: each poll of the monitor is capped, directed, attributed and sent as
`ConnectionsChanged`; a copy is kept with an index from flow to row.  A refinement that arrives later
fills in what a row of the copy lacks, and the rows that changed are sent as `AttributionChanged`.

What the host, the resolver and the clock answer are arguments.  `std::partial_sort` is the front of
a `std::sort`.
-/

namespace Qiftop.Agent
open Qt Lib Backend Heuristics Dbus

/-- What counts as this host. -/
structure HostContext where
  localAddrs : Finset QHostAddress := ∅
  loopbackAddrs : Finset QHostAddress := ∅
  ephemeralLow : UInt16 := 32768
  ephemeralHigh : UInt16 := 60999

/-- A sum of two counters with its carry. -/
structure ByteTotal where
  low : UInt64 := 0
  carry : Bool := false

def totalBytes (c : Connection) : ByteTotal where
  low := c.rxBytes + c.txBytes
  carry := decide (c.rxBytes > 18446744073709551615 - c.txBytes)

def hasGreaterTotalBytes (a b : Connection) : Bool :=
  if (totalBytes a).carry ≠ (totalBytes b).carry then (totalBytes a).carry
  else decide ((totalBytes a).low > (totalBytes b).low)

def kMaxConnections : ℕ := 4096

/-- The loudest flows of an oversized snapshot. -/
def capped (S : StdSort) (conns : List Connection) : List Connection :=
  if conns.length > kMaxConnections then
    (S.sort hasGreaterTotalBytes conns).take kMaxConnections
  else conns

/-- What the service is wired to. -/
structure Wiring where
  resolver : Option (ℕ → ProcessResolver) := none
  wantContainerChain : Bool := false
  deepWorker : Bool := false

/-- A poll as the service emits it. -/
def snapshot (S : StdSort) (host : HostContext) (w : Wiring) (conns : List Connection) :
    List Connection :=
  let kept := (capped S conns).map fun c => { c with
    direction := inferDirection c host.localAddrs host.loopbackAddrs host.ephemeralLow
      host.ephemeralHigh }
  let kept := attributeFlows w.resolver w.wantContainerChain kept
  kept.map fun c => { c with reason := attributionReason c host.localAddrs host.loopbackAddrs }

structure ConnectionsService where
  last : List ConnectionDto := []
  lastConns : List Connection := []
  keyIndex : Hash AttributionFlowKey Nat := ∅
  generation : UInt64 := 0

namespace ConnectionsService

/-- The weakly attributed flows of a snapshot, queued for refinement. -/
def requests (w : Wiring) (generation nowMs : UInt64) (conns : List Connection) :
    List DeepAttributionRequest :=
  if w.deepWorker then
    (conns.filter fun c => !c.process.valid && decide (c.reason ≠ .Forwarded)).map fun c =>
      { key := keyOf c, flow := c, generation, monotonicMsQueued := nowMs
        wantContainerChain := w.wantContainerChain }
  else []

/-- A poll: the new state, the `ConnectionsChanged` rows, the queued requests. -/
def onConnectionsUpdated (svc : ConnectionsService) (S : StdSort) (host : HostContext) (w : Wiring)
    (nowMs : UInt64) (conns : List Connection) :
    ConnectionsService × List ConnectionDto × List DeepAttributionRequest :=
  let kept := snapshot S host w conns
  let svc := {
    last := toDtos kept
    lastConns := kept
    keyIndex := Hash.positions keyOf kept
    generation := svc.generation + 1 }
  (svc, svc.last, requests w svc.generation nowMs kept)

/-- One refinement against a row: it fills in what is missing. -/
def refine (u : DeepAttributionUpdate) (c : Connection) : Connection :=
  let c := if u.process.valid ∧ !c.process.valid then
    { c with process := u.process, reason := u.reason } else c
  let c := if u.container.valid ∧ !c.container.valid then { c with container := u.container } else c
  if !u.containerChain.isEmpty ∧ c.containerChain.isEmpty then
    { c with containerChain := u.containerChain } else c

/-- Whether a refinement fills in anything. -/
def refines (u : DeepAttributionUpdate) (c : Connection) : Bool :=
  (u.process.valid && !c.process.valid) || (u.container.valid && !c.container.valid) ||
    (!u.containerChain.isEmpty && c.containerChain.isEmpty)

/-- One refinement: the state and the rows patched so far. -/
def refineStep (st : ConnectionsService × List ConnectionDto) (u : DeepAttributionUpdate) :
    ConnectionsService × List ConnectionDto :=
  match st.1.keyIndex.lookup u.key with
  | none => st
  | some idx =>
      match st.1.lastConns[idx]? with
      | none => st
      | some c =>
          if refines u c then
            let c' := refine u c
            ({ st.1 with lastConns := st.1.lastConns.set idx c', last := st.1.last.set idx (toDto c') },
              st.2 ++ [toDto c'])
          else st

/-- A batch of refinements: the new state and the `AttributionChanged` rows. -/
def onDeepRefined (svc : ConnectionsService) (updates : List DeepAttributionUpdate) :
    ConnectionsService × List ConnectionDto :=
  updates.foldl refineStep (svc, [])

end ConnectionsService

end Qiftop.Agent
