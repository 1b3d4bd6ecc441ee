import Qiftop.Backend.BsdFragments
import Qiftop.Backend.BsdSocketResolver
import Qiftop.Backend.Conntrack
import Qiftop.Backend.DeepQueue
import Qiftop.Util.ConnectionHeuristics

/-!
# Backend — snapshots of the captured flows

`emitSnapshot` and `stop` of `backend/bsd/BsdConnectionWorker.cpp`, and the runs of the worker: packets that
come while it looks at its table once in a while, forgets the flows that were quiet for long and shows the
others, the loudest of them when there are many.

Beside the table stands a ledger: for each flow of the table, the packets that were counted for it, since it
was taken up.  It says what the counters mean.

* `Reckons.step`, `run_reckons`: the counters are the sums of the ledger, after any run.
* `run_snapshot`: what a snapshot shows, of all flows.
* `run_attributed`: the processes it shows.
* `between_snapshots`: the counters of a flow in two snapshots that follow one another differ by its packets
  in between.
-/

namespace Qiftop.Backend.Bsd
open Lib Qt Heuristics

def kFlowTtlMs : Int := 30000

def kSnapshotCap : ℕ := 4096

/-- What the worker finds on the system when it makes a snapshot, the resolver's new tables among it. -/
structure Tick where
  now : Int
  addrs : HostAddresses := {}
  ephLow : UInt16 := 49152
  ephHigh : UInt16 := 65535
  resolver : BsdSocketResolver := {}

/-- A flow as it is shown. -/
def Tick.connection (t : Tick) (a : FlowAcc) : Connection :=
  let c : Connection :=
    { «local» := a.local, remote := a.remote, proto := a.proto, rxBytes := a.rxBytes, txBytes := a.txBytes
      rxPackets := a.rxPackets, txPackets := a.txPackets, iface := a.iface, ifIndex := a.ifIndex }
  let direction := if a.observedDir ≠ .Unknown then a.observedDir
    else inferDirection c t.addrs.localAddrs t.addrs.loopbackAddrs t.ephLow t.ephHigh
  let attr := t.resolver.lookup c.proto c.local c.remote
  { c with direction, process := attr.process, container := attr.container }

namespace BsdConnectionWorker

/-- The flows that were not quiet for long. -/
def fresh (s : BsdConnectionWorker) (t : Tick) : Hash QString FlowAcc :=
  Hash.filterMap (fun _ a => if t.now - a.lastSeenMs > kFlowTtlMs then none else some a) s.flows

def emitSnapshot (S : StdSort) (s : BsdConnectionWorker) (t : Tick) :
    BsdConnectionWorker × List Connection :=
  let flows := s.fresh t
  let out := flows.values.map t.connection
  let shown := if out.length > kSnapshotCap then
    (S.sort (fun a b => decide (flowBytesTotal a > flowBytesTotal b)) out).take kSnapshotCap else out
  ({ flows, addrs := t.addrs, flowCapWarned := s.flowCapWarned && !decide (flows.keys.length < kMaxFlows) },
    shown)

def stop (s : BsdConnectionWorker) : BsdConnectionWorker := { s with flows := ∅ }

end BsdConnectionWorker

inductive Event where
  | packet (h : CaptureHandle) (wireLen : UInt32) (now : Int) (w : Window)
  | tick (t : Tick)
  | stop

section Runs
variable (v6 : IPv6Text) (S : StdSort)

/-- A packet never faults (`handlePacket_ok`). -/
def step (s : BsdConnectionWorker) : Event → BsdConnectionWorker × List (List Connection)
  | .packet h wireLen now w => ((s.handlePacket h wireLen now v6 w).toOption.getD s, [])
  | .tick t => ((s.emitSnapshot S t).1, [(s.emitSnapshot S t).2])
  | .stop => (s.stop, [])

/-! ### The ledger -/

/-- A packet of a flow: its side, its length on the wire, when it was handled, and the direction of a
handshake that it begins. -/
structure Sighting where
  isTx : Bool
  wireLen : UInt32
  now : Int
  opens : Option Direction

namespace Sighting

/-- The bytes of one side. -/
def bytes (isTx : Bool) (l : List Sighting) : ℕ :=
  ((l.filter fun x => x.isTx == isTx).map fun x => x.wireLen.toNat).sum

/-- The packets of one side. -/
def packets (isTx : Bool) (l : List Sighting) : ℕ := l.countP fun x => x.isTx == isTx

/-- The last handshake. -/
def direction (l : List Sighting) : Direction := (l.filterMap Sighting.opens).getLast?.getD .Unknown

/-- The last packet was not long ago. -/
def recent (now : Int) (l : List Sighting) : Bool :=
  l.getLast?.any fun x => decide (now - x.now ≤ kFlowTtlMs)

end Sighting

/-- The flow a packet is of, and what is noted of it, on a host with these addresses. -/
def sighted (addrs : HostAddresses) : Event → Option (QString × Sighting)
  | .packet h wireLen now w =>
      match (parsePacket v6 w h.datalink).run with
      | .ok (some p) =>
          let ls := addrs.isLocal p.src.address
          let ld := addrs.isLocal p.dst.address
          let o := orient ls ld p.src p.dst
          some (flowKeyExact p.proto o.local o.remote, ⟨o.isTx, wireLen, now,
            if p.pureSyn && ls != ld then some (if ls then .Outbound else .Inbound) else none⟩)
      | _ => none
  | _ => none

/-- The packets counted of each flow. -/
structure Ledger where
  addrs : HostAddresses := {}
  flows : Hash QString (List Sighting) := ∅

namespace Ledger

/-- There is a page for the flow already, or room for one. -/
def Admits (L : Ledger) (key : QString) : Prop := key ∈ L.flows ∨ L.flows.keys.length < kMaxFlows

instance (L : Ledger) (key : QString) : Decidable (L.Admits key) := inferInstanceAs (Decidable (_ ∨ _))

def page (L : Ledger) (key : QString) : List Sighting := (L.flows.lookup key).getD []

def note (L : Ledger) (key : QString) (x : Sighting) : Ledger :=
  if L.Admits key then { L with flows := L.flows.insert key (L.page key ++ [x]) } else L

/-- The pages that are recent. -/
def prune (L : Ledger) (now : Int) : Hash QString (List Sighting) :=
  Hash.filterMap (fun _ l => if Sighting.recent now l then some l else none) L.flows

def record (L : Ledger) (e : Event) : Ledger :=
  match e with
  | .packet .. =>
      match sighted v6 L.addrs e with
      | some (key, x) => L.note key x
      | none => L
  | .tick t => { addrs := t.addrs, flows := L.prune t.now }
  | .stop => { L with flows := ∅ }

end Ledger

/-! ### What the counters mean -/

/-- The sums of a page. -/
structure Sums (acc : FlowAcc) (l : List Sighting) : Prop where
  txBytes : acc.txBytes = UInt64.ofNat (Sighting.bytes true l)
  rxBytes : acc.rxBytes = UInt64.ofNat (Sighting.bytes false l)
  txPackets : acc.txPackets = UInt64.ofNat (Sighting.packets true l)
  rxPackets : acc.rxPackets = UInt64.ofNat (Sighting.packets false l)
  direction : acc.observedDir = Sighting.direction l

namespace Sighting

theorem bytes_concat (isTx : Bool) (l : List Sighting) (x : Sighting) :
    bytes isTx (l ++ [x]) = bytes isTx l + if x.isTx = isTx then x.wireLen.toNat else 0 := by
  unfold bytes
  rw [List.filter_append, List.map_append, List.sum_append]
  by_cases h : x.isTx = isTx <;> simp [h]

theorem packets_concat (isTx : Bool) (l : List Sighting) (x : Sighting) :
    packets isTx (l ++ [x]) = packets isTx l + if x.isTx = isTx then 1 else 0 := by
  unfold packets
  rw [List.countP_append]
  by_cases h : x.isTx = isTx <;> simp [h]

theorem direction_concat (l : List Sighting) (x : Sighting) :
    direction (l ++ [x]) = x.opens.getD (direction l) := by
  unfold direction
  rw [List.filterMap_append]
  cases hopens : x.opens <;> simp [hopens]

end Sighting

theorem Sums.start (s : BsdConnectionWorker) (h : CaptureHandle) (p : Packet) : Sums (s.newFlow h p) [] :=
  ⟨rfl, rfl, rfl, rfl, rfl⟩

/-- What is noted of a packet by a worker. -/
def BsdConnectionWorker.sighting (s : BsdConnectionWorker) (wireLen : UInt32) (now : Int) (p : Packet) :
    Sighting where
  isTx := (s.oriented p).isTx
  wireLen
  now
  opens :=
    let ls := s.addrs.isLocal p.src.address
    let ld := s.addrs.isLocal p.dst.address
    if p.pureSyn && ls != ld then some (if ls then .Outbound else .Inbound) else none

/-- A packet counted is an entry of the page. -/
theorem Sums.updated {acc : FlowAcc} {l : List Sighting} (hsums : Sums acc l) (s : BsdConnectionWorker)
    (wireLen : UInt32) (now : Int) (p : Packet) :
    Sums (s.updated wireLen now acc p) (l ++ [s.sighting wireLen now p]) ∧
      (s.updated wireLen now acc p).lastSeenMs = now := by
  have hobserve : ∀ (acc : FlowAcc) (syn ls ld : Bool), acc.observe syn ls ld =
      { acc with observedDir := (if syn && ls != ld then some (if ls then Direction.Outbound else .Inbound)
        else none).getD acc.observedDir } := by
    intro acc syn ls ld
    unfold FlowAcc.observe
    split <;> rfl
  unfold BsdConnectionWorker.updated
  dsimp only
  rw [hobserve]
  unfold FlowAcc.count
  cases htx : (s.oriented p).isTx
  all_goals
    refine ⟨⟨?_, ?_, ?_, ?_, ?_⟩, rfl⟩
    · simp [Sighting.bytes_concat, BsdConnectionWorker.sighting, htx, hsums.txBytes]
    · simp [Sighting.bytes_concat, BsdConnectionWorker.sighting, htx, hsums.rxBytes]
    · simp [Sighting.packets_concat, BsdConnectionWorker.sighting, htx, hsums.txPackets]
    · simp [Sighting.packets_concat, BsdConnectionWorker.sighting, htx, hsums.rxPackets]
    · rw [Sighting.direction_concat, ← hsums.direction]
      rfl

/-- A flow of the table and its page. -/
structure Counts (key : QString) (acc : FlowAcc) (l : List Sighting) : Prop extends Sums acc l where
  key : flowKeyExact acc.proto acc.local acc.remote = key
  lastSeen : l.getLast?.map Sighting.now = some acc.lastSeenMs
  plain : PlainAddress acc.local.address ∧ PlainAddress acc.remote.address

/-- The table and the ledger are about the same flows, and the ledger says what the table holds. -/
structure Reckons (s : BsdConnectionWorker) (L : Ledger) : Prop where
  addrs : s.addrs = L.addrs
  mem : ∀ key, key ∈ s.flows ↔ key ∈ L.flows
  flow : ∀ key acc l, s.flows.lookup key = some acc → L.flows.lookup key = some l → Counts key acc l
  bound : s.flows.keys.length ≤ kMaxFlows

variable {v6} {s : BsdConnectionWorker} {L : Ledger}

theorem Reckons.length_keys (h : Reckons s L) : s.flows.keys.length = L.flows.keys.length := by
  refine ((List.perm_ext_iff_of_nodup s.flows.keys_nodup L.flows.keys_nodup).mpr fun key => ?_).length_eq
  rw [← AList.mem_keys, ← AList.mem_keys, h.mem]

theorem Reckons.admits_iff (h : Reckons s L) (key : QString) :
    L.Admits key ↔ ¬ (key ∉ s.flows ∧ s.Full) := by
  have hlength := h.length_keys
  rw [Ledger.Admits, ← h.mem, BsdConnectionWorker.Full, not_and_or, not_not]
  exact or_congr_right (by omega)

theorem updated_ends (s : BsdConnectionWorker) (wireLen : UInt32) (now : Int) (acc : FlowAcc) (p : Packet) :
    (s.updated wireLen now acc p).proto = acc.proto ∧ (s.updated wireLen now acc p).local = acc.local ∧
      (s.updated wireLen now acc p).remote = acc.remote := by
  unfold BsdConnectionWorker.updated FlowAcc.observe FlowAcc.count
  dsimp only
  split <;> split <;> exact ⟨rfl, rfl, rfl⟩

/-- The flow a packet is counted for, with its page from before. -/
theorem Reckons.recorded (hL : Reckons s L) (h : CaptureHandle) {p : Packet}
    (hpair : AddressPair p.src.address p.dst.address) :
    Sums (s.recorded h p) (L.page (s.flowKey p)) ∧
      flowKeyExact (s.recorded h p).proto (s.recorded h p).local (s.recorded h p).remote = s.flowKey p ∧
      PlainAddress (s.recorded h p).local.address ∧ PlainAddress (s.recorded h p).remote.address := by
  unfold BsdConnectionWorker.recorded Ledger.page
  cases hlookup : s.flows.lookup (s.flowKey p) with
  | none =>
      have hnone : L.flows.lookup (s.flowKey p) = none := by
        rw [AList.lookup_eq_none, ← hL.mem]
        exact AList.lookup_eq_none.mp hlookup
      rw [hnone]
      exact ⟨Sums.start s h p, rfl,
        BsdConnectionWorker.oriented_forall (P := fun e => PlainAddress e.address) hpair.plainSrc hpair.plainDst⟩
  | some acc =>
      obtain ⟨l, hl⟩ := Hash.exists_lookup ((hL.mem _).mp (Hash.mem_of_lookup hlookup))
      have hflow := hL.flow _ _ _ hlookup hl
      rw [hl]
      exact ⟨hflow.toSums, hflow.key, hflow.plain⟩

/-- A packet counted and noted. -/
theorem Reckons.account (hL : Reckons s L) (h : CaptureHandle) (wireLen : UInt32) (now : Int) {p : Packet}
    (hpair : AddressPair p.src.address p.dst.address) :
    Reckons (s.account h wireLen now p) (L.note (s.flowKey p) (s.sighting wireLen now p)) := by
  by_cases hroom : L.Admits (s.flowKey p)
  · rw [Ledger.note, if_pos hroom]
    have hroom' := (hL.admits_iff _).mp hroom
    rw [BsdConnectionWorker.account_of_room wireLen now hroom']
    obtain ⟨hbefore, hkey, hplain⟩ := hL.recorded h hpair
    obtain ⟨hsums, hseen⟩ := hbefore.updated s wireLen now p
    obtain ⟨hproto, hlocal, hremote⟩ := updated_ends s wireLen now (s.recorded h p) p
    refine ⟨hL.addrs, ?_, ?_, ?_⟩
    · intro key
      rw [AList.mem_insert, AList.mem_insert, hL.mem]
    · intro key acc l hacc hl
      rw [Hash.lookup_insert_ite] at hacc hl
      split at hacc
      · next heq =>
          rw [if_pos heq] at hl
          cases hacc
          cases hl
          refine ⟨hsums, ?_, ?_, ?_⟩
          · rw [hproto, hlocal, hremote, hkey, heq]
          · rw [List.getLast?_concat, hseen]
            rfl
          · rw [hlocal, hremote]
            exact hplain
      · next hne =>
          rw [if_neg hne] at hl
          exact hL.flow key acc l hacc hl
    · have hbound := hL.bound
      rw [Hash.length_keys_insert]
      split
      · exact hbound
      · next hnew =>
          have hnotFull : ¬ s.Full := fun hfull => hroom' ⟨hnew, hfull⟩
          unfold BsdConnectionWorker.Full at hnotFull
          omega
  · rw [Ledger.note, if_neg hroom]
    rw [BsdConnectionWorker.account_of_full wireLen now (not_not.mp fun h' => hroom ((hL.admits_iff _).mpr h'))]
    exact ⟨hL.addrs, hL.mem, hL.flow, hL.bound⟩

theorem sighted_packet {h : CaptureHandle} {w : Window} {p : Packet} (wireLen : UInt32) (now : Int)
    (hp : (parsePacket v6 w h.datalink).run = .ok (some p)) :
    sighted v6 s.addrs (.packet h wireLen now w) = some (s.flowKey p, s.sighting wireLen now p) := by
  rw [sighted, hp]
  rfl

/-- The flow of a page is fresh when the page is recent. -/
theorem Counts.recent_iff {key : QString} {acc : FlowAcc} {l : List Sighting} (h : Counts key acc l)
    (now : Int) : Sighting.recent now l = true ↔ ¬ (now - acc.lastSeenMs > kFlowTtlMs) := by
  have hlast := h.lastSeen
  unfold Sighting.recent
  cases hl : l.getLast? with
  | none =>
      rw [hl] at hlast
      cases hlast
  | some x =>
      rw [hl] at hlast
      have hnow : x.now = acc.lastSeenMs := Option.some.inj hlast
      simp [hnow]

/-- The flows a snapshot keeps are those of the pages it keeps. -/
theorem Reckons.tick (hL : Reckons s L) (t : Tick) :
    Reckons (s.emitSnapshot S t).1 { addrs := t.addrs, flows := L.prune t.now } := by
  refine ⟨rfl, ?_, ?_, (Hash.length_keys_filterMap_le _ _).trans hL.bound⟩
  · intro key
    show key ∈ s.fresh t ↔ key ∈ L.prune t.now
    unfold BsdConnectionWorker.fresh Ledger.prune
    rw [Hash.mem_filterMap, Hash.mem_filterMap]
    constructor
    · rintro ⟨acc, hacc, hkept⟩
      obtain ⟨l, hl⟩ := Hash.exists_lookup ((hL.mem key).mp (Hash.mem_of_lookup hacc))
      refine ⟨l, hl, ?_⟩
      have hrecent := (hL.flow key acc l hacc hl).recent_iff t.now
      split at hkept
      · cases hkept
      · next hfresh => rw [if_pos (hrecent.mpr hfresh)]; rfl
    · rintro ⟨l, hl, hkept⟩
      obtain ⟨acc, hacc⟩ := Hash.exists_lookup ((hL.mem key).mpr (Hash.mem_of_lookup hl))
      refine ⟨acc, hacc, ?_⟩
      have hrecent := (hL.flow key acc l hacc hl).recent_iff t.now
      split at hkept
      · next hkept' => rw [if_neg (hrecent.mp hkept')]; rfl
      · cases hkept
  · intro key acc l hacc hl
    have hacc' : (s.flows.lookup key).bind (fun a =>
        if t.now - a.lastSeenMs > kFlowTtlMs then none else some a) = some acc :=
      (Hash.lookup_filterMap _ s.flows key).symm.trans hacc
    have hl' : (L.flows.lookup key).bind (fun l => if Sighting.recent t.now l then some l else none) =
        some l := (Hash.lookup_filterMap _ L.flows key).symm.trans hl
    obtain ⟨acc', hlookup, hkept⟩ := Option.bind_eq_some_iff.mp hacc'
    obtain ⟨l', hpage, hkept'⟩ := Option.bind_eq_some_iff.mp hl'
    split at hkept
    · cases hkept
    · cases hkept
      split at hkept'
      · cases hkept'
        exact hL.flow key acc l hlookup hpage
      · cases hkept'

/-- **One event** of the worker and of the ledger. -/
theorem Reckons.step (hL : Reckons s L) (e : Event) : Reckons (step v6 S s e).1 (L.record v6 e) := by
  cases e with
  | packet h wireLen now w =>
      obtain ⟨p, hrun, hpair⟩ := parsePacket_yields v6 (w := w) h.datalink
      cases p with
      | none =>
          have hnone : sighted v6 L.addrs (.packet h wireLen now w) = none := by rw [sighted, hrun]
          simp only [Bsd.step, Ledger.record, hnone, BsdConnectionWorker.handlePacket_none wireLen now hrun]
          exact hL
      | some p =>
          have hsome := sighted_packet (s := s) wireLen now hrun
          rw [hL.addrs] at hsome
          simp only [Bsd.step, Ledger.record, hsome, BsdConnectionWorker.handlePacket_some wireLen now hrun]
          exact hL.account h wireLen now (hpair p rfl)
  | tick t => exact hL.tick S t
  | stop =>
      refine ⟨hL.addrs, fun key => Iff.rfl, ?_, Nat.zero_le _⟩
      intro key acc l hacc
      cases hacc

variable (v6)

theorem run_reckons (hL : Reckons s L) (es : List Event) :
    Reckons (run (step v6 S) s es).1 (es.foldl (Ledger.record v6) L) := by
  induction es generalizing s L with
  | nil => exact hL
  | cons e es ih => exact ih (hL.step S e)

/-- The worker and the ledger when the worker is made. -/
theorem reckons_start : Reckons {} {} := by
  refine ⟨rfl, fun key => Iff.rfl, ?_, Nat.zero_le _⟩
  intro key acc l hacc
  cases hacc

/-! ### What a snapshot shows -/

/-- The flow of a connection. -/
def flowOf (c : Connection) : QString := flowKeyExact c.proto c.local c.remote

/-- A connection says what the ledger says of its flow. -/
structure Shows (now : Int) (l : List Sighting) (c : Connection) : Prop where
  txBytes : c.txBytes = UInt64.ofNat (Sighting.bytes true l)
  rxBytes : c.rxBytes = UInt64.ofNat (Sighting.bytes false l)
  txPackets : c.txPackets = UInt64.ofNat (Sighting.packets true l)
  rxPackets : c.rxPackets = UInt64.ofNat (Sighting.packets false l)
  direction : Sighting.direction l ≠ .Unknown → c.direction = Sighting.direction l
  recent : Sighting.recent now l = true

theorem Counts.shows {key : QString} {acc : FlowAcc} {l : List Sighting} (h : Counts key acc l) (t : Tick)
    (hrecent : Sighting.recent t.now l = true) : Shows t.now l (t.connection acc) where
  txBytes := h.txBytes
  rxBytes := h.rxBytes
  txPackets := h.txPackets
  rxPackets := h.rxPackets
  direction hknown := by
    rw [← h.direction] at hknown ⊢
    exact if_pos hknown
  recent := hrecent

/-- A snapshot of the pages of a ledger. -/
structure Snapshot (now : Int) (flows : Hash QString (List Sighting)) (out : List Connection) : Prop where
  capped : out.length ≤ kSnapshotCap
  once : (out.map flowOf).Nodup
  shown : ∀ c ∈ out, ∃ l, flows.lookup (flowOf c) = some l ∧ Shows now l c
  /-- What is not shown is quiet, or not louder than anything that is. -/
  left : ∀ key l, flows.lookup key = some l → Sighting.recent now l = true → key ∉ out.map flowOf →
    out.length = kSnapshotCap ∧
      ∀ c ∈ out, (Sighting.bytes true l + Sighting.bytes false l) % 2 ^ 64 ≤ (flowBytesTotal c).toNat

/-- The flows a snapshot is made of. -/
def BsdConnectionWorker.candidates (s : BsdConnectionWorker) (t : Tick) : List Connection :=
  (s.fresh t).values.map t.connection

theorem lookup_fresh {s : BsdConnectionWorker} {t : Tick} {key : QString} {acc : FlowAcc} :
    (s.fresh t).lookup key = some acc ↔
      s.flows.lookup key = some acc ∧ ¬ (t.now - acc.lastSeenMs > kFlowTtlMs) := by
  rw [BsdConnectionWorker.fresh, Hash.lookup_filterMap, Option.bind_eq_some_iff]
  constructor
  · rintro ⟨a, ha, hkept⟩
    split at hkept
    · cases hkept
    · next hfresh =>
        cases hkept
        exact ⟨ha, hfresh⟩
  · rintro ⟨ha, hfresh⟩
    exact ⟨acc, ha, if_neg hfresh⟩

/-- Before it is capped, a snapshot shows each recent page once. -/
theorem Reckons.candidates (hL : Reckons s L) (t : Tick) :
    ((s.candidates t).map flowOf).Nodup ∧
      (∀ c ∈ s.candidates t, ∃ l, L.flows.lookup (flowOf c) = some l ∧ Shows t.now l c) ∧
      ∀ key l, L.flows.lookup key = some l → Sighting.recent t.now l = true →
        ∃ c ∈ s.candidates t, flowOf c = key := by
  have hflow : ∀ key acc, (s.fresh t).lookup key = some acc → ∃ l, L.flows.lookup key = some l ∧
      Counts key acc l ∧ Sighting.recent t.now l = true := by
    intro key acc hacc
    obtain ⟨hacc, hfresh⟩ := lookup_fresh.mp hacc
    obtain ⟨l, hl⟩ := Hash.exists_lookup ((hL.mem key).mp (Hash.mem_of_lookup hacc))
    have hcounts := hL.flow key acc l hacc hl
    exact ⟨l, hl, hcounts, (hcounts.recent_iff t.now).mpr hfresh⟩
  refine ⟨?_, ?_, ?_⟩
  · have hkeys : (s.candidates t).map flowOf = (s.fresh t).keys := by
      unfold BsdConnectionWorker.candidates Hash.values AList.keys List.keys
      rw [List.map_map, List.map_map]
      refine List.map_congr_left fun e he => ?_
      obtain ⟨l, -, hcounts, -⟩ := hflow e.1 e.2 (Hash.mem_entries_iff.mp he)
      exact hcounts.key
    rw [hkeys]
    exact (s.fresh t).keys_nodup
  · intro c hc
    obtain ⟨acc, hacc, rfl⟩ := List.mem_map.mp hc
    obtain ⟨key, hkey⟩ := Hash.mem_values_iff.mp hacc
    obtain ⟨l, hl, hcounts, hrecent⟩ := hflow key acc hkey
    have hkeyOf : flowOf (t.connection acc) = key := hcounts.key
    exact ⟨l, hkeyOf ▸ hl, hcounts.shows t hrecent⟩
  · intro key l hl hrecent
    obtain ⟨acc, hacc⟩ := Hash.exists_lookup ((hL.mem key).mpr (Hash.mem_of_lookup hl))
    have hcounts := hL.flow key acc l hacc hl
    have hfresh := lookup_fresh.mpr ⟨hacc, (hcounts.recent_iff t.now).mp hrecent⟩
    exact ⟨t.connection acc, List.mem_map_of_mem (Hash.mem_values_iff.mpr ⟨key, hfresh⟩), hcounts.key⟩

/-- The loudest of the candidates. -/
theorem Reckons.snapshot (hL : Reckons s L) (t : Tick) :
    Snapshot t.now L.flows (s.emitSnapshot S t).2 := by
  obtain ⟨hnodup, hshown, hall⟩ := hL.candidates t
  have hout : (s.emitSnapshot S t).2 = if (s.candidates t).length > kSnapshotCap then
      (S.sort (fun a b => decide (flowBytesTotal a > flowBytesTotal b)) (s.candidates t)).take kSnapshotCap
      else s.candidates t := rfl
  by_cases hcap : (s.candidates t).length > kSnapshotCap
  · rw [hout, if_pos hcap]
    have hlouder : ∀ a b : Connection, decide (flowBytesTotal a > flowBytesTotal b) =
        decide ((flowBytesTotal a).toNat > (flowBytesTotal b).toNat) := by
      intro a b
      rw [decide_eq_decide, gt_iff_lt, UInt64.lt_iff_toNat_lt]
    have hkeeps := (keeps_sort hlouder S kSnapshotCap (s.candidates t)).1
    have hmem := fun c hc => hkeeps.perm.subset (List.mem_append_left _ (a := c) hc)
    refine ⟨?_, ?_, fun c hc => hshown c (hmem c hc), ?_⟩
    · rw [List.length_take]
      exact min_le_left _ _
    · have hperm := (hkeeps.perm.map flowOf).nodup_iff.mpr hnodup
      rw [List.map_append, List.nodup_append] at hperm
      exact hperm.1
    · intro key l hl hrecent hleft
      refine ⟨by rw [hkeeps.length, min_eq_left hcap.le], fun c hc => ?_⟩
      obtain ⟨c', hc', rfl⟩ := hall key l hl hrecent
      obtain ⟨l', hl', hshows⟩ := hshown c' hc'
      rw [hl] at hl'
      cases hl'
      -- it is among those that were cut off
      have hrest := List.mem_append.mp (hkeeps.perm.mem_iff.mpr hc')
      rcases hrest with hkept | hrest
      · exact absurd (List.mem_map_of_mem hkept) hleft
      · have habove := hkeeps.above c hc c' hrest
        have htotal : (flowBytesTotal c').toNat =
            (Sighting.bytes true l + Sighting.bytes false l) % 2 ^ 64 := by
          unfold flowBytesTotal
          rw [hshows.rxBytes, hshows.txBytes, ← UInt64.ofNat_add, UInt64.toNat_ofNat', Nat.add_comm]
        rwa [htotal] at habove
  · rw [hout, if_neg hcap]
    refine ⟨not_lt.mp hcap, hnodup, hshown, fun key l hl hrecent hleft => ?_⟩
    obtain ⟨c, hc, rfl⟩ := hall key l hl hrecent
    exact absurd (List.mem_map_of_mem hc) hleft

/-- **Every snapshot**: after any packets, snapshots and stops, a snapshot shows each flow of the ledger that
is recent once, with the sums of its packets since it was taken up, but no more than 4096, the loudest; and
the table has no more than 16384 flows. -/
theorem run_snapshot (es : List Event) (t : Tick) :
    Snapshot t.now (es.foldl (Ledger.record v6) {}).flows ((run (step v6 S) {} es).1.emitSnapshot S t).2 ∧
      (run (step v6 S) {} es).1.flows.keys.length ≤ kMaxFlows :=
  ⟨(run_reckons v6 S reckons_start es).snapshot S t, (run_reckons v6 S reckons_start es).bound⟩

/-- The process of a connection that is shown is the resolver's answer. -/
theorem Reckons.attributed (hL : Reckons s L) (t : Tick) {sockets : List SocketRecord}
    (hsockets : ∀ x ∈ sockets, x.Plain) (ht : t.resolver = stampAll sockets) :
    ∀ c ∈ (s.emitSnapshot S t).2, Answers sockets c.proto c.local c.remote ⟨c.process, c.container⟩ := by
  intro c hc
  have hcandidate : c ∈ s.candidates t := by
    have hout : c ∈ if (s.candidates t).length > kSnapshotCap then
        (S.sort (fun a b => decide (flowBytesTotal a > flowBytesTotal b)) (s.candidates t)).take kSnapshotCap
        else s.candidates t := hc
    split at hout
    · exact (S.perm _ _).mem_iff.mp (List.mem_of_mem_take hout)
    · exact hout
  obtain ⟨acc, hacc, rfl⟩ := List.mem_map.mp hcandidate
  obtain ⟨key, hkey⟩ := Hash.mem_values_iff.mp hacc
  obtain ⟨hflow, -⟩ := lookup_fresh.mp hkey
  obtain ⟨l, hl⟩ := Hash.exists_lookup ((hL.mem key).mp (Hash.mem_of_lookup hflow))
  have hplain := (hL.flow key acc l hflow hl).plain
  have hlookup := @lookup_answers sockets acc.proto _ _ hsockets hplain.1 hplain.2
  rw [← ht] at hlookup
  exact hlookup

/-- **Every process shown** owns a socket with both ends of its flow or, when no process does, with the local
end; a flow without such a socket has none.  This is so after any run, on both systems. -/
theorem run_attributed (es : List Event) (t : Tick) (procs : List ProcessInfo) (files : List NetBSD.KinfoFile)
    (pcbs : List NetBSD.KinfoPcb) (pids : Hash.Iteration (Σ _ : Int32, Attribution))
    (jails : List (Int32 × QString)) (kprocs : List FreeBSD.KinfoProc)
    (kfiles : Int32 → List FreeBSD.KinfoFile) :
    let s := (run (step v6 S) {} es).1
    (∀ c ∈ (s.emitSnapshot S { t with resolver := NetBSD.refresh v6 procs files pcbs }).2,
      Answers (NetBSD.sockets v6 procs files pcbs) c.proto c.local c.remote ⟨c.process, c.container⟩) ∧
      ∀ c ∈ (s.emitSnapshot S { t with resolver := FreeBSD.refresh v6 pids jails kprocs kfiles }).2,
        Answers (FreeBSD.sockets v6 pids jails kprocs kfiles) c.proto c.local c.remote ⟨c.process, c.container⟩ := by
  intro s
  have hL := run_reckons v6 S reckons_start es
  exact ⟨hL.attributed S _ (NetBSD.sockets_plain v6 procs files pcbs) rfl,
    hL.attributed S _ (FreeBSD.sockets_plain v6 pids jails kprocs kfiles) rfl⟩

/-! ### From one snapshot to the next -/

/-- The packets of a flow among those that come. -/
def seen (addrs : HostAddresses) (key : QString) (es : List Event) : List Sighting :=
  (es.filterMap (sighted v6 addrs)).filterMap fun noted => if noted.1 = key then some noted.2 else none

def Event.isPacket : Event → Bool
  | .packet .. => true
  | _ => false

theorem Ledger.record_packet (L : Ledger) {e : Event} (he : e.isPacket = true) :
    L.record v6 e = match sighted v6 L.addrs e with
      | some noted => L.note noted.1 noted.2
      | none => L := by
  cases e with
  | packet h wireLen now w =>
      unfold Ledger.record
      cases sighted v6 L.addrs (.packet h wireLen now w) <;> rfl
  | tick t => cases he
  | stop => cases he

/-- The page of a flow of the ledger takes each packet of the flow, whatever else comes. -/
theorem Ledger.page_packets {key : QString} {l : List Sighting} (hl : L.flows.lookup key = some l)
    {ps : List Event} (hps : ∀ e ∈ ps, e.isPacket = true) :
    (ps.foldl (Ledger.record v6) L).flows.lookup key = some (l ++ seen v6 L.addrs key ps) := by
  induction ps generalizing L l with
  | nil =>
      rw [List.foldl_nil, hl]
      simp [seen]
  | cons e ps ih =>
      have hrest : ∀ e ∈ ps, e.isPacket = true := fun e he => hps e (List.mem_cons_of_mem _ he)
      have hrecord := L.record_packet v6 (hps e List.mem_cons_self)
      rw [List.foldl_cons, hrecord]
      cases hsighted : sighted v6 L.addrs e with
      | none =>
          rw [ih hl hrest]
          simp [seen, hsighted]
      | some noted =>
          have haddrs : (L.note noted.1 noted.2).addrs = L.addrs := by
            unfold Ledger.note
            split <;> rfl
          by_cases hkey : noted.1 = key
          · have hadmits : L.Admits noted.1 := .inl (hkey ▸ Hash.mem_of_lookup hl)
            have hnoted : (L.note noted.1 noted.2).flows.lookup key = some (l ++ [noted.2]) := by
              rw [Ledger.note, if_pos hadmits, Hash.lookup_insert_ite, if_pos hkey.symm, Ledger.page, hkey, hl]
              rfl
            rw [ih hnoted hrest, haddrs]
            simp [seen, hsighted, hkey]
          · have hother : (L.note noted.1 noted.2).flows.lookup key = some l := by
              unfold Ledger.note
              split
              · rw [Hash.lookup_insert_ite, if_neg (Ne.symm hkey), hl]
              · exact hl
            rw [ih hother hrest, haddrs]
            simp [seen, hsighted, hkey]

theorem Sighting.bytes_append (isTx : Bool) (l l' : List Sighting) :
    bytes isTx (l ++ l') = bytes isTx l + bytes isTx l' := by
  simp [bytes]

theorem Sighting.packets_append (isTx : Bool) (l l' : List Sighting) :
    packets isTx (l ++ l') = packets isTx l + packets isTx l' := List.countP_append

/-- **Between two snapshots** the counters of a flow that both show differ by the packets of the flow that
came in between, all of them and no others, whatever the other packets were and however full the table. -/
theorem between_snapshots (es ps : List Event) (hps : ∀ e ∈ ps, e.isPacket = true) (t t' : Tick) :
    let s := (run (step v6 S) {} es).1
    let s' := (run (step v6 S) (s.emitSnapshot S t).1 ps).1
    ∀ c ∈ (s.emitSnapshot S t).2, ∀ c' ∈ (s'.emitSnapshot S t').2, flowOf c' = flowOf c →
      let new := seen v6 t.addrs (flowOf c) ps
      c'.txBytes = c.txBytes + UInt64.ofNat (Sighting.bytes true new) ∧
        c'.rxBytes = c.rxBytes + UInt64.ofNat (Sighting.bytes false new) ∧
        c'.txPackets = c.txPackets + UInt64.ofNat (Sighting.packets true new) ∧
        c'.rxPackets = c.rxPackets + UInt64.ofNat (Sighting.packets false new) := by
  intro s s' c hc c' hc' hflow new
  have hbefore := run_reckons v6 S reckons_start es
  have hkept := hbefore.tick S t
  have hafter := run_reckons v6 S hkept ps
  obtain ⟨l, hl, hshows⟩ := (hbefore.snapshot S t).shown c hc
  obtain ⟨l', hl', hshows'⟩ := (hafter.snapshot S t').shown c' hc'
  have hpruned : (Ledger.prune (es.foldl (Ledger.record v6) {}) t.now).lookup (flowOf c) = some l := by
    rw [Ledger.prune, Hash.lookup_filterMap, hl, Option.bind_some, if_pos hshows.recent]
  have hpage := Ledger.page_packets v6
    (L := { addrs := t.addrs, flows := Ledger.prune (es.foldl (Ledger.record v6) {}) t.now }) hpruned hps
  rw [hflow, hpage] at hl'
  cases hl'
  refine ⟨?_, ?_, ?_, ?_⟩
  · rw [hshows'.txBytes, hshows.txBytes, Sighting.bytes_append, UInt64.ofNat_add]
  · rw [hshows'.rxBytes, hshows.rxBytes, Sighting.bytes_append, UInt64.ofNat_add]
  · rw [hshows'.txPackets, hshows.txPackets, Sighting.packets_append, UInt64.ofNat_add]
  · rw [hshows'.rxPackets, hshows.rxPackets, Sighting.packets_append, UInt64.ofNat_add]

end Runs

open BsdConnectionWorker in
/-- A query, and a reply to it. -/
def query : Event := .packet rawCapture 60 1000 udpQuery

open BsdConnectionWorker in
def reply : Event := .packet rawCapture 90 2500 udpReply

/-- The query is shown, and then its reply comes. -/
theorem udp_between :
    let s := (run (step .decimal .stable) {} [query]).1
    let s' := (run (step .decimal .stable) (s.emitSnapshot .stable { now := 2000 }).1 [reply]).1
    ∃ c ∈ (s.emitSnapshot .stable { now := 2000 }).2, ∃ c' ∈ (s'.emitSnapshot .stable { now := 3000 }).2,
      c'.rxBytes = c.rxBytes + 90 ∧ c'.txBytes = c.txBytes := by
  intro s s'
  have hone : (s.emitSnapshot .stable { now := 2000 }).2.length = 1 := by decide +kernel
  have hone' : (s'.emitSnapshot .stable { now := 3000 }).2.length = 1 := by decide +kernel
  have hflow : ∀ c ∈ (s.emitSnapshot .stable { now := 2000 }).2,
      ∀ c' ∈ (s'.emitSnapshot .stable { now := 3000 }).2, flowOf c' = flowOf c := by decide +kernel
  have hnew : ∀ c ∈ (s.emitSnapshot .stable { now := 2000 }).2,
      Sighting.bytes false (seen .decimal {} (flowOf c) [reply]) = 90 ∧
        Sighting.bytes true (seen .decimal {} (flowOf c) [reply]) = 0 := by decide +kernel
  obtain ⟨c, hc⟩ := List.exists_mem_of_length_pos (hone ▸ Nat.one_pos)
  obtain ⟨c', hc'⟩ := List.exists_mem_of_length_pos (hone' ▸ Nat.one_pos)
  obtain ⟨htx, hrx, -, -⟩ := between_snapshots .decimal .stable [query] [reply]
    (by decide) { now := 2000 } { now := 3000 } c hc c' hc' (hflow c hc c' hc')
  refine ⟨c, hc, c', hc', ?_, ?_⟩
  · rw [hrx, (hnew c hc).1]
    rfl
  · rw [htx, (hnew c hc).2]
    exact UInt64.add_zero _

end Qiftop.Backend.Bsd
