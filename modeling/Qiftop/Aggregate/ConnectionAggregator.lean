import Mathlib.Data.UInt
import Mathlib.Data.Finset.SDiff
import Mathlib.Data.Finset.Insert
import Qiftop.Lib.Hash
import Qiftop.Util.ConnectionHeuristics

/-!
# Aggregate — the connection aggregator

`aggregate/ConnectionAggregator.{h,cpp}`: the per-flow table every frontend shows.  A snapshot
arrives as a list of connections and a clock value; `updateConnections` infers directions, folds
UDP flows of one peer into an aggregate, refreshes or stales the existing rows, prunes rows that
have been stale too long, and appends rows for new flows.  `applyAttributionPatch` rewrites the
attribution of rows in place.

The clock is the argument `nowMs`.  Signals to views and DNS requests are outputs no part of the
state depends on, and are left out.  A `QHash` is a `Hash`; a sum over its values is written as
one, since `quint64` addition does not depend on the iteration order.
-/

namespace Qiftop.Aggregate
open Qt Lib Backend Heuristics

/-! ### Rows -/

inductive ThroughputMaxMode where
  | Windowed | CumulativeAverage
  deriving DecidableEq, Repr

structure RateSample (F : Type) where
  timeMs : Int
  rate : F
  deriving DecidableEq, Repr

structure Row (F : Type) where
  current : Connection := {}
  rxRate : F
  txRate : F
  rxRaw : F
  txRaw : F
  rxTarget : F
  txTarget : F
  rxAnimFrom : F
  txAnimFrom : F
  rxAnimStartMs : Int := 0
  txAnimStartMs : Int := 0
  rxAnimDurMs : Int := 0
  txAnimDurMs : Int := 0
  lastSeenMs : Int := 0
  stale : Bool := false
  rxSamples : List (RateSample F) := []
  txSamples : List (RateSample F) := []
  rxSum : F
  txSum : F
  samples : Nat := 0
  deriving DecidableEq, Repr

/-- The key a row is found by. -/
def Row.key {F : Type} (r : Row F) : QString := r.current.key

/-! ### UDP aggregation state -/

structure UdpAggMember where
  rxBytes : UInt64 := 0
  txBytes : UInt64 := 0
  rxPackets : UInt64 := 0
  txPackets : UInt64 := 0
  lastSeenMs : Int := 0
  deriving DecidableEq, Repr

structure UdpAggState where
  rxBase : UInt64 := 0
  txBase : UInt64 := 0
  rxPktBase : UInt64 := 0
  txPktBase : UInt64 := 0
  members : Hash QString UdpAggMember := ∅
  lastSeenMs : Int := 0

/-- The member a connection of this snapshot is remembered as. -/
def UdpAggMember.seen (nowMs : Int) (c : Connection) : UdpAggMember :=
  { rxBytes := c.rxBytes, txBytes := c.txBytes, rxPackets := c.rxPackets,
    txPackets := c.txPackets, lastSeenMs := nowMs }

/-- One connection enters the aggregate: a byte counter that went down retires the member's last
values into the base. -/
def UdpAggState.observe (nowMs : Int) (c : Connection) (st : UdpAggState) : UdpAggState :=
  let mem := (st.members.lookup c.key).getD {}
  let members := st.members.insert c.key (.seen nowMs c)
  if c.rxBytes < mem.rxBytes ∨ c.txBytes < mem.txBytes then
    { rxBase := st.rxBase + mem.rxBytes, txBase := st.txBase + mem.txBytes,
      rxPktBase := st.rxPktBase + mem.rxPackets, txPktBase := st.txPktBase + mem.txPackets,
      members, lastSeenMs := nowMs }
  else
    { st with members, lastSeenMs := nowMs }

/-- A member not seen for longer than the retention. -/
def UdpAggMember.expired (nowMs retentionMs : Int) (m : UdpAggMember) : Bool :=
  decide (nowMs - m.lastSeenMs > retentionMs)

/-- Expired members are folded into the base and erased. -/
def UdpAggState.expireMembers (nowMs retentionMs : Int) (st : UdpAggState) : UdpAggState :=
  let gone := Hash.filterMap
    (fun _ m => if m.expired nowMs retentionMs then some m else none) st.members
  { st with
    rxBase := st.rxBase + Hash.sum (·.rxBytes) gone
    txBase := st.txBase + Hash.sum (·.txBytes) gone
    rxPktBase := st.rxPktBase + Hash.sum (·.rxPackets) gone
    txPktBase := st.txPktBase + Hash.sum (·.txPackets) gone
    members := Hash.filterMap
      (fun _ m => if m.expired nowMs retentionMs then none else some m) st.members }

/-- The expiry pass over all aggregates. -/
def expireUdp (nowMs retentionMs : Int) (udpAgg : Hash QString UdpAggState) :
    Hash QString UdpAggState :=
  Hash.filterMap (fun _ st =>
    if nowMs - st.lastSeenMs > retentionMs then none
    else some (st.expireMembers nowMs retentionMs)) udpAgg

/-- The aggregate's counters: base plus current members. -/
def UdpAggState.withTotals (st : UdpAggState) (k : Connection) : Connection :=
  { k with
    rxBytes := st.rxBase + Hash.sum (·.rxBytes) st.members
    txBytes := st.txBase + Hash.sum (·.txBytes) st.members
    rxPackets := st.rxPktBase + Hash.sum (·.rxPackets) st.members
    txPackets := st.txPktBase + Hash.sum (·.txPackets) st.members }

/-- The flow's peer: the connection with its own end's port masked. -/
def udpPeer (c : Connection) : Connection :=
  if c.direction = .Outbound then { c with «local» := { c.local with port := 0 } }
  else { c with remote := { c.remote with port := 0 } }

/-- Flows the aggregation leaves alone. -/
def passesThrough (c : Connection) : Bool :=
  decide (c.proto ≠ .Udp) || decide (c.direction = .Unknown)

/-- What the aggregation loop carries from one connection to the next. -/
structure UdpPass where
  agg : Hash QString Connection := ∅
  passthrough : List Connection := []
  udpAgg : Hash QString UdpAggState

def UdpPass.step (nowMs : Int) (p : UdpPass) (c : Connection) : UdpPass :=
  if passesThrough c then { p with passthrough := p.passthrough ++ [c] }
  else
    let k := udpPeer c
    let aggKey := k.key
    let st := (p.udpAgg.lookup aggKey).getD {}
    { p with
      udpAgg := p.udpAgg.insert aggKey (st.observe nowMs c)
      agg := if aggKey ∈ p.agg then p.agg else p.agg.insert aggKey k }

/-! ### The aggregator -/

structure Aggregator (F : Type) where
  rows : List (Row F) := []
  keyToIdx : Hash QString Nat := ∅
  prev : Hash QString Connection := ∅
  lastElapsedMs : Int := 0
  udpAgg : Hash QString UdpAggState := ∅
  hasResolver : Bool := false
  resolveEnabled : Bool := false
  staleRetentionMs : Int := 15000
  staleRetentionMsUdp : Int := 60000
  udpAggregateByPeer : Bool := true
  aliasIfaceAddrsAsLocalhost : Bool := true
  maxMode : ThroughputMaxMode := .Windowed
  windowMs : Int := 30000
  rateSmoothingMs : Int := 0
  pollIntervalMs : Int := 1000
  ephemeralLow : UInt16 := 32768
  ephemeralHigh : UInt16 := 60999
  loopbackAddrs : Finset QHostAddress := {QHostAddress.LocalHost, QHostAddress.LocalHostIPv6}
  localAddrs : Finset QHostAddress := ∅

namespace Aggregator
variable {F : Type} [Double F]

/-- The constructor, with the platform's ephemeral port range. -/
def init (ephemeralPortRange : UInt16 × UInt16) : Aggregator F :=
  { ephemeralLow := ephemeralPortRange.1, ephemeralHigh := ephemeralPortRange.2 }

/-! ### Phases of `updateConnections` -/

/-- The wire direction, or the inferred one when the wire says `Unknown`. -/
def direct (s : Aggregator F) (c : Connection) : Connection :=
  if c.direction ≠ .Unknown then c
  else { c with
    direction := inferDirection c s.localAddrs s.loopbackAddrs s.ephemeralLow s.ephemeralHigh }

/-- The aggregation loop over a snapshot. -/
def udpPass (s : Aggregator F) (nowMs : Int) (connections : List Connection) : UdpPass :=
  connections.foldl (UdpPass.step nowMs) { udpAgg := s.udpAgg }

/-- The UDP state after a snapshot. -/
def nextUdpAgg (s : Aggregator F) (nowMs : Int) (connections : List Connection) :
    Hash QString UdpAggState :=
  if s.udpAggregateByPeer then
    expireUdp nowMs s.staleRetentionMsUdp (s.udpPass nowMs (connections.map s.direct)).udpAgg
  else ∅

/-- The snapshot after direction inference and UDP aggregation. -/
def postAggregation (s : Aggregator F) (nowMs : Int) (connections : List Connection) :
    List Connection :=
  if s.udpAggregateByPeer then
    let p := s.udpPass nowMs (connections.map s.direct)
    let udpAgg := s.nextUdpAgg nowMs connections
    p.passthrough ++ Hash.values (Hash.filterMap (fun aggKey k =>
      some (match udpAgg.lookup aggKey with
        | some st => st.withTotals k
        | none => k)) p.agg)
  else connections.map s.direct

/-- Bytes since the previous snapshot; none when the flow is new or its counter went down. -/
def byteDelta (prev : Option UInt64) (now : UInt64) : Option UInt64 :=
  prev.bind fun p => if p ≤ now then some (now - p) else none

def rawRate (deltaSecs : F) (delta : Option UInt64) : F :=
  match delta with
  | some d => Double.div (Double.ofInt d.toNat) deltaSecs
  | none => Double.ofInt 0

/-- Seconds since the previous snapshot, one when the clock has not moved. -/
def deltaSecs (deltaMs : Int) : F :=
  if deltaMs > 0 then Double.div (Double.ofInt deltaMs) (Double.ofInt 1000) else Double.ofInt 1

/-- `push_back` of a sample, then `pop_front` of those before the window. -/
def pushSample (cutoff : Int) (samples : List (RateSample F)) (x : RateSample F) :
    List (RateSample F) :=
  (samples ++ [x]).dropWhile fun y => decide (y.timeMs < cutoff)

/-- The smoothed target of a rate. -/
def nextTarget (s : Aggregator F) (deltaMs : Int) (target raw : F) : F :=
  if s.rateSmoothingMs > 0 ∧ deltaMs > 0 then
    emaUpdate target raw (Double.ofInt deltaMs) (Double.ofInt s.rateSmoothingMs)
  else raw

/-- A row found in the snapshot. -/
def refreshRow (s : Aggregator F) (nowMs : Int) (r : Row F) (c : Connection) : Row F :=
  let deltaMs := nowMs - s.lastElapsedMs
  let p := s.prev.lookup r.key
  let rawRx := rawRate (deltaSecs deltaMs) (byteDelta (p.map (·.rxBytes)) c.rxBytes)
  let rawTx := rawRate (deltaSecs deltaMs) (byteDelta (p.map (·.txBytes)) c.txBytes)
  let rxTarget := s.nextTarget deltaMs r.rxTarget rawRx
  let txTarget := s.nextTarget deltaMs r.txTarget rawTx
  let durRise := if s.pollIntervalMs > 0 then s.pollIntervalMs else 1000
  let durFall := max 100 (durRise / 3)
  let smoothing := decide (s.rateSmoothingMs > 0)
  { current := c
    rxRaw := rawRx
    txRaw := rawTx
    rxTarget
    txTarget
    rxRate := if smoothing then r.rxRate else rawRx
    txRate := if smoothing then r.txRate else rawTx
    rxAnimFrom := if smoothing then r.rxRate else r.rxAnimFrom
    txAnimFrom := if smoothing then r.txRate else r.txAnimFrom
    rxAnimStartMs := if smoothing then nowMs else r.rxAnimStartMs
    txAnimStartMs := if smoothing then nowMs else r.txAnimStartMs
    rxAnimDurMs :=
      if smoothing then (if Double.lt rxTarget r.rxRate then durFall else durRise) else 0
    txAnimDurMs :=
      if smoothing then (if Double.lt txTarget r.txRate then durFall else durRise) else 0
    rxSamples := pushSample (nowMs - s.windowMs) r.rxSamples ⟨nowMs, rawRx⟩
    txSamples := pushSample (nowMs - s.windowMs) r.txSamples ⟨nowMs, rawTx⟩
    rxSum := Double.add r.rxSum rawRx
    txSum := Double.add r.txSum rawTx
    samples := r.samples + 1
    lastSeenMs := nowMs
    stale := false }

/-- A row missing from the snapshot for the first time. -/
def staleRow (r : Row F) : Row F :=
  { r with
    stale := true
    rxRate := Double.ofInt 0, txRate := Double.ofInt 0
    rxRaw := Double.ofInt 0, txRaw := Double.ofInt 0
    rxTarget := Double.ofInt 0, txTarget := Double.ofInt 0
    rxAnimDurMs := 0, txAnimDurMs := 0 }

/-- One existing row against the indexed snapshot. -/
def updateRow (s : Aggregator F) (nowMs : Int) (incoming : Hash QString Connection) (r : Row F) :
    Row F :=
  match incoming.lookup r.key with
  | some c => s.refreshRow nowMs r c
  | none => if r.stale then r else staleRow r

/-- The retention budget of a protocol. -/
def retentionFor (s : Aggregator F) (proto : L4Proto) : Int :=
  if proto = .Udp then s.staleRetentionMsUdp else s.staleRetentionMs

/-- Stale for longer than its budget. -/
def pruned (s : Aggregator F) (nowMs : Int) (r : Row F) : Bool :=
  r.stale && decide (nowMs - r.lastSeenMs > s.retentionFor r.current.proto)

/-- The row of a previously unseen flow. -/
def newRow (nowMs : Int) (c : Connection) : Row F :=
  { current := c, lastSeenMs := nowMs
    rxRate := Double.ofInt 0, txRate := Double.ofInt 0
    rxRaw := Double.ofInt 0, txRaw := Double.ofInt 0
    rxTarget := Double.ofInt 0, txTarget := Double.ofInt 0
    rxAnimFrom := Double.ofInt 0, txAnimFrom := Double.ofInt 0
    rxSum := Double.ofInt 0, txSum := Double.ofInt 0 }

/-- Every row's key under its position. -/
def indexRows (rows : List (Row F)) : Hash QString Nat := Hash.positions Row.key rows

/-- The existing rows after refresh, staling and pruning. -/
def survivors (s : Aggregator F) (nowMs : Int) (incoming : Hash QString Connection) :
    List (Row F) :=
  (s.rows.map (s.updateRow nowMs incoming)).filter fun r => !s.pruned nowMs r

/-- The flows of the snapshot no row has. -/
def additions (incoming : Hash QString Connection) (keyToIdx : Hash QString Nat) :
    List Connection :=
  (incoming.entries.filter fun e => decide (e.1 ∉ keyToIdx)).map Sigma.snd

/-- Appending the row of a new flow. -/
def appendRow (nowMs : Int) (t : List (Row F) × Hash QString Nat) (c : Connection) :
    List (Row F) × Hash QString Nat :=
  (t.1 ++ [newRow nowMs c], t.2.insert c.key t.1.length)

def updateConnections (s : Aggregator F) (nowMs : Int) (connections : List Connection) :
    Aggregator F :=
  let post := s.postAggregation nowMs connections
  let incoming := Hash.indexBy Connection.key post
  let rows := s.survivors nowMs incoming
  let keyToIdx := indexRows rows
  let t := (additions incoming keyToIdx).foldl (appendRow nowMs) (rows, keyToIdx)
  { s with
    lastElapsedMs := nowMs
    udpAgg := s.nextUdpAgg nowMs connections
    rows := t.1
    keyToIdx := t.2
    prev := incoming }

/-! ### Attribution patches -/

/-- One entry of a patch against the row's connection. -/
def patchConnection (cur p : Connection) : Connection :=
  let cur := if p.process.valid ∧ cur.process ≠ p.process then
    { cur with process := p.process, reason := p.reason } else cur
  let cur := if p.container.valid ∧ cur.container ≠ p.container then
    { cur with container := p.container } else cur
  if !p.containerChain.isEmpty ∧ cur.containerChain ≠ p.containerChain then
    { cur with containerChain := p.containerChain } else cur

def patchRow (s : Aggregator F) (p : Connection) : Aggregator F :=
  match s.keyToIdx.lookup p.key with
  | none => s
  | some i =>
      { s with rows := s.rows.modify i fun r => { r with current := patchConnection r.current p } }

def applyAttributionPatch (s : Aggregator F) (patch : List Connection) : Aggregator F :=
  patch.foldl patchRow s

/-! ### Setters and the animation tick -/

def setDnsResolver (s : Aggregator F) (present : Bool) : Aggregator F :=
  { s with hasResolver := present }

def setHostnameResolutionEnabled (s : Aggregator F) (enabled : Bool) : Aggregator F :=
  { s with resolveEnabled := enabled }

def setLocalAddresses (s : Aggregator F) (addrs : Finset QHostAddress) : Aggregator F :=
  { s with
    localAddrs := (addrs.erase QHostAddress.LocalHost).erase QHostAddress.LocalHostIPv6 }

def setStaleRetentionMs (s : Aggregator F) (ms : Int) : Aggregator F :=
  { s with staleRetentionMs := if ms < 0 then 0 else ms }

def setStaleRetentionMsUdp (s : Aggregator F) (ms : Int) : Aggregator F :=
  { s with staleRetentionMsUdp := if ms < 0 then 0 else ms }

def setUdpAggregateByPeer (s : Aggregator F) (v : Bool) : Aggregator F :=
  { s with
    udpAgg := if v ≠ s.udpAggregateByPeer then ∅ else s.udpAgg
    udpAggregateByPeer := v }

def setResolveIfaceAddrsAsLocalhost (s : Aggregator F) (v : Bool) : Aggregator F :=
  { s with aliasIfaceAddrsAsLocalhost := v }

def setThroughputMaxMode (s : Aggregator F) (m : ThroughputMaxMode) : Aggregator F :=
  { s with maxMode := m }

/-- A row without the samples before `cutoff`. -/
def trimSamples (cutoff : Int) (r : Row F) : Row F :=
  { r with
    rxSamples := r.rxSamples.dropWhile fun y => decide (y.timeMs < cutoff)
    txSamples := r.txSamples.dropWhile fun y => decide (y.timeMs < cutoff) }

def setThroughputWindowMs (s : Aggregator F) (ms : Int) : Aggregator F :=
  let ms := if ms < 1000 then 1000 else ms
  if ms = s.windowMs then s
  else
    { s with
      windowMs := ms
      rows := if s.maxMode = .Windowed then s.rows.map (trimSamples (s.lastElapsedMs - ms))
        else s.rows }

def setRateSmoothingMs (s : Aggregator F) (ms : Int) : Aggregator F :=
  { s with rateSmoothingMs := if ms < 0 then 0 else ms }

def setPollIntervalMs (s : Aggregator F) (ms : Int) : Aggregator F :=
  { s with pollIntervalMs := if ms < 0 then 0 else ms }

/-- One step of a tween: the displayed value and the remaining duration. -/
def tween (nowMs : Int) (disp animFrom : F) (startMs durMs : Int) (target : F) : F × Int :=
  if durMs ≤ 0 then (disp, durMs)
  else
    let t := Double.div (Double.ofInt (nowMs - startMs)) (Double.ofInt durMs)
    if Double.le (Double.ofInt 1) t then (target, 0)
    else if Double.le t (Double.ofInt 0) then (disp, durMs)
    else
      (Double.add animFrom (Double.mul (Double.sub target animFrom) (easeOutCubic t)), durMs)

/-- The animation tick of one row. -/
def advanceRow (nowMs : Int) (r : Row F) : Row F :=
  if r.stale then r
  else
    let rx := tween nowMs r.rxRate r.rxAnimFrom r.rxAnimStartMs r.rxAnimDurMs r.rxTarget
    let tx := tween nowMs r.txRate r.txAnimFrom r.txAnimStartMs r.txAnimDurMs r.txTarget
    { r with rxRate := rx.1, rxAnimDurMs := rx.2, txRate := tx.1, txAnimDurMs := tx.2 }

def advanceSmoothing (s : Aggregator F) (nowMs : Int) : Aggregator F :=
  if s.rateSmoothingMs ≤ 0 then s else { s with rows := s.rows.map (advanceRow nowMs) }

end Aggregator

end Qiftop.Aggregate
