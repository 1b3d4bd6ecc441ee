import Qiftop.Lib.Hash
import Qiftop.Lib.Dissector
import Qiftop.Dbus.Types
import Qiftop.Backend.BsdFlowKey

/-!
# Backend — captured packets

`handlePacket` of `backend/bsd/BsdConnectionWorker.cpp`.  A packet is what the capture kept of it, a
window of bytes that come from the network, and the length it had on the wire.  The worker finds the IP
header behind the link-layer header, reads the two endpoints and the TCP flags, decides which end is this
host's and adds the packet to the flow of that pair of ends.

A packet that is too short or of another kind is dropped; a read outside the window is a fault.  Header
lengths are at most 78 bytes, so no offset leaves the machine words the source computes it in.

* `parsePacket_yields`: no reader faults, and a packet's ends are of one address family.
* `handlePacket_ok`: so `handlePacket` comes to a state.
-/

namespace Qiftop.Backend.Bsd
open Lib Qt

/-- The link-layer types the worker tells apart. -/
inductive LinkType where
  | DLT_EN10MB | DLT_NULL | DLT_LOOP | other
  deriving DecidableEq, Repr

structure CaptureHandle where
  datalink : LinkType
  iface : QString
  ifIndex : UInt32
  deriving DecidableEq, Repr

structure FlowAcc where
  «local» : Endpoint
  remote : Endpoint
  proto : L4Proto := .Unknown
  rxBytes : UInt64 := 0
  txBytes : UInt64 := 0
  rxPackets : UInt64 := 0
  txPackets : UInt64 := 0
  iface : QString := []
  ifIndex : UInt32 := 0
  lastSeenMs : Int := 0
  observedDir : Direction := .Unknown
  deriving DecidableEq, Repr

/-- The addresses of this host. -/
structure HostAddresses where
  localAddrs : Finset QHostAddress := ∅
  loopbackAddrs : Finset QHostAddress := ∅

def HostAddresses.isLocal (addrs : HostAddresses) (a : QHostAddress) : Bool :=
  decide (a ∈ addrs.localAddrs) || decide (a ∈ addrs.loopbackAddrs)

structure BsdConnectionWorker where
  flows : Hash QString FlowAcc := ∅
  addrs : HostAddresses := {}
  flowCapWarned : Bool := false

def kMaxFlows : ℕ := 16384

/-! ### Reading a packet -/

section Parse
variable (v6 : IPv6Text) (w : Window)

def isIpEthertype (ethertype : UInt16) : Bool := ethertype == 0x0800 || ethertype == 0x86DD

/-- Where the IP header begins. -/
def ipOffset : LinkType → Dissector ℕ
  | .DLT_EN10MB => do
      guard (14 ≤ w.size)
      let ethertype ← w.uint16 .big 12
      if ethertype = 0x8100 then do
        guard (18 ≤ w.size)
        let ethertype ← w.uint16 .big 16
        guard (isIpEthertype ethertype)
        pure 18
      else do
        guard (isIpEthertype ethertype)
        pure 14
  | .DLT_NULL => pure 4
  | .DLT_LOOP => pure 4
  | .other => pure 0

/-- What the IP header says, and where the transport header would begin. -/
structure IpHeader where
  ipproto : UInt8
  src : QHostAddress
  dst : QHostAddress
  l4off : ℕ

/-- The 16 bytes of an IPv6 address. -/
def ipv6At (offset : ℕ) : Except Fault (BitVec 128) :=
  w.read offset 16 fun b => BitVec.ofNat 128 (ofBigEndian b)

/-- The IP header at `off`. -/
def parseIp (off : ℕ) : Dissector IpHeader := do
  let ipAvail := w.size - off
  let first ← w.uint8 off
  let version := first >>> 4
  if version = 4 then do
    guard (20 ≤ ipAvail)
    let ihl := (first &&& 0x0F).toNat * 4
    guard (20 ≤ ihl ∧ ihl ≤ ipAvail)
    let ipproto ← w.uint8 (off + 9)
    let src ← w.uint32 .big (off + 12)
    let dst ← w.uint32 .big (off + 16)
    pure ⟨ipproto, ipv4Address src, ipv4Address dst, off + ihl⟩
  else if version = 6 then do
    guard (40 ≤ ipAvail)
    let ipproto ← w.uint8 (off + 6)
    let src ← ipv6At w (off + 8)
    let dst ← ipv6At w (off + 24)
    pure ⟨ipproto, ipv6Address v6 src, ipv6Address v6 dst, off + 40⟩
  else failure

def protoFromIp (ipproto : UInt8) : L4Proto := Dbus.fromIanaProto ipproto

/-- `readPorts` with `avail` bytes from `p` on. -/
def readPorts (p avail : ℕ) : Except Fault (Option (UInt16 × UInt16)) :=
  if avail < 4 then .ok none
  else do
    let sport ← w.uint16 .big p
    let dport ← w.uint16 .big (p + 2)
    pure (some (sport, dport))

/-- The ports of a packet, zero where it has none or they were not captured. -/
def packetPorts (proto : L4Proto) (l4off : ℕ) : Except Fault (UInt16 × UInt16) :=
  if (proto = .Tcp ∨ proto = .Udp) ∧ l4off < w.size then do
    let ports ← readPorts w l4off (w.size - l4off)
    pure (ports.getD (0, 0))
  else .ok (0, 0)

/-- SYN set, ACK clear. -/
def isPureSyn (flags : UInt8) : Bool := flags &&& 0x02 != 0 && flags &&& 0x10 == 0

/-- The packet is a TCP SYN without ACK. -/
def pureSyn (proto : L4Proto) (l4off : ℕ) : Except Fault Bool :=
  if proto = .Tcp ∧ l4off + 14 ≤ w.size then do
    let flags ← w.uint8 (l4off + 13)
    pure (isPureSyn flags)
  else .ok false

structure Packet where
  proto : L4Proto
  src : Endpoint
  dst : Endpoint
  pureSyn : Bool
  deriving DecidableEq, Repr

def parsePacket (datalink : LinkType) : Dissector Packet := do
  let off ← ipOffset w datalink
  guard (off < w.size)
  let ip ← parseIp v6 w off
  let proto := protoFromIp ip.ipproto
  let (sp, dp) ← packetPorts w proto ip.l4off
  let syn ← pureSyn w proto ip.l4off
  pure ⟨proto, ⟨ip.src, sp⟩, ⟨ip.dst, dp⟩, syn⟩

/-! ### No reader leaves the window -/

variable {w}

theorem ipOffset_yields (datalink : LinkType) : (ipOffset w datalink).Yields fun _ => True := by
  cases datalink with
  | DLT_EN10MB =>
      refine Dissector.yields_bind (Dissector.yields_guard _) fun _ h14 => ?_
      refine Dissector.yields_bind (Dissector.yields_read (by omega) _) fun ethertype _ => ?_
      split
      · refine Dissector.yields_bind (Dissector.yields_guard _) fun _ h18 => ?_
        refine Dissector.yields_bind (Dissector.yields_read (by omega) _) fun ethertype _ => ?_
        exact Dissector.yields_bind (Dissector.yields_guard _) fun _ _ => Dissector.yields_pure trivial
      · exact Dissector.yields_bind (Dissector.yields_guard _) fun _ _ => Dissector.yields_pure trivial
  | DLT_NULL => exact Dissector.yields_pure trivial
  | DLT_LOOP => exact Dissector.yields_pure trivial
  | other => exact Dissector.yields_pure trivial

/-- Two addresses of one packet. -/
structure AddressPair (src dst : QHostAddress) : Prop where
  plainSrc : PlainAddress src
  plainDst : PlainAddress dst
  family : src.protocol = dst.protocol

theorem parseIp_yields {off : ℕ} (hoff : off < w.size) :
    (parseIp v6 w off).Yields fun ip => AddressPair ip.src ip.dst := by
  refine Dissector.yields_bind (Dissector.yields_read (by omega) _) fun first _ => ?_
  dsimp only
  split
  · refine Dissector.yields_bind (Dissector.yields_guard _) fun _ h20 => ?_
    refine Dissector.yields_bind (Dissector.yields_guard _) fun _ hihl => ?_
    refine Dissector.yields_bind (Dissector.yields_read (by omega) _) fun ipproto _ => ?_
    refine Dissector.yields_bind (Dissector.yields_read (by omega) _) fun src _ => ?_
    refine Dissector.yields_bind (Dissector.yields_read (by omega) _) fun dst _ => ?_
    exact Dissector.yields_pure ⟨plainAddress_ipv4 src, plainAddress_ipv4 dst, rfl⟩
  · split
    · refine Dissector.yields_bind (Dissector.yields_guard _) fun _ h40 => ?_
      refine Dissector.yields_bind (Dissector.yields_read (by omega) _) fun ipproto _ => ?_
      refine Dissector.yields_bind (Dissector.yields_read (by omega) _) fun src _ => ?_
      refine Dissector.yields_bind (Dissector.yields_read (by omega) _) fun dst _ => ?_
      exact Dissector.yields_pure ⟨plainAddress_ipv6 v6 src, plainAddress_ipv6 v6 dst, rfl⟩
    · exact Dissector.yields_failure

/-- The ports are the first four bytes of what follows the IP header, if they were captured. -/
theorem packetPorts_eq (proto : L4Proto) (l4off : ℕ) :
    packetPorts w proto l4off = .ok (if (proto = .Tcp ∨ proto = .Udp) ∧ l4off + 4 ≤ w.size then
      (UInt16.ofNat (w.numberAt .big l4off 2), UInt16.ofNat (w.numberAt .big (l4off + 2) 2))
      else (0, 0)) := by
  by_cases hproto : proto = .Tcp ∨ proto = .Udp
  · by_cases hroom : l4off + 4 ≤ w.size
    · rw [packetPorts, if_pos ⟨hproto, by omega⟩, readPorts, if_neg (by omega),
        Window.uint16_eq_ok (by omega), Window.uint16_eq_ok (by omega), if_pos ⟨hproto, hroom⟩]
      rfl
    · rw [if_neg fun h => hroom h.2, packetPorts]
      split
      · rw [readPorts, if_pos (by omega)]
        rfl
      · rfl
  · rw [packetPorts, if_neg fun h => hproto h.1, if_neg fun h => hproto h.1]

/-- The flags are the fourteenth byte of what follows the IP header, if it was captured. -/
theorem pureSyn_eq (proto : L4Proto) (l4off : ℕ) :
    pureSyn w proto l4off = .ok (decide (proto = .Tcp ∧ l4off + 14 ≤ w.size) &&
      isPureSyn (UInt8.ofNat (ofBigEndian (w.peek (l4off + 13) 1)))) := by
  by_cases h : proto = .Tcp ∧ l4off + 14 ≤ w.size
  · rw [pureSyn, if_pos h, Window.uint8, Window.read_eq_ok (by omega), decide_eq_true h]
    rfl
  · rw [pureSyn, if_neg h, decide_eq_false h]
    rfl

/-- **No byte outside the window is read**, and the ends of a packet are of one address family. -/
theorem parsePacket_yields (datalink : LinkType) :
    (parsePacket v6 w datalink).Yields fun p => AddressPair p.src.address p.dst.address := by
  refine Dissector.yields_bind (ipOffset_yields datalink) fun off _ => ?_
  refine Dissector.yields_bind (Dissector.yields_guard _) fun _ hoff => ?_
  refine Dissector.yields_bind (parseIp_yields v6 hoff) fun ip hip => ?_
  refine Dissector.yields_bind (Q := fun _ => True)
      (Dissector.yields_lift ⟨_, packetPorts_eq _ _, trivial⟩) fun ports _ => ?_
  refine Dissector.yields_bind (Q := fun _ => True)
      (Dissector.yields_lift ⟨_, pureSyn_eq _ _, trivial⟩) fun syn _ => ?_
  exact Dissector.yields_pure hip

end Parse

/-! ### Accounting it -/

/-- This host's end, the other end, and whether the packet left this host. -/
structure Oriented where
  «local» : Endpoint
  remote : Endpoint
  isTx : Bool

/-- Which end is this host's. -/
def orient (ls ld : Bool) (src dst : Endpoint) : Oriented :=
  if ls && !ld then ⟨src, dst, true⟩
  else if ld && !ls then ⟨dst, src, false⟩
  else if endpointGreater src dst then ⟨src, dst, true⟩ else ⟨dst, src, false⟩

namespace FlowAcc

/-- The packet counted. -/
def count (acc : FlowAcc) (isTx : Bool) (wireLen : UInt32) : FlowAcc :=
  if isTx then { acc with txBytes := acc.txBytes + wireLen.toUInt64, txPackets := acc.txPackets + 1 }
  else { acc with rxBytes := acc.rxBytes + wireLen.toUInt64, rxPackets := acc.rxPackets + 1 }

/-- The direction a handshake's first packet shows, when exactly one end is local. -/
def observe (acc : FlowAcc) (pureSyn ls ld : Bool) : FlowAcc :=
  if pureSyn && ls != ld then { acc with observedDir := if ls then .Outbound else .Inbound } else acc

end FlowAcc

namespace BsdConnectionWorker

/-- There is no room for a new flow. -/
def Full (s : BsdConnectionWorker) : Prop := s.flows.keys.length ≥ kMaxFlows

instance (s : BsdConnectionWorker) : Decidable s.Full := inferInstanceAs (Decidable (_ ≥ _))

variable (s : BsdConnectionWorker)

/-- The ends of a packet, as this worker sees them. -/
def oriented (p : Packet) : Oriented :=
  orient (s.addrs.isLocal p.src.address) (s.addrs.isLocal p.dst.address) p.src p.dst

/-- The key of a packet's flow. -/
def flowKey (p : Packet) : QString :=
  flowKeyExact p.proto (s.oriented p).local (s.oriented p).remote

variable (h : CaptureHandle) (wireLen : UInt32) (now : Int)

/-- The flow as the packet leaves it. -/
def updated (acc : FlowAcc) (p : Packet) : FlowAcc :=
  let acc := acc.count (s.oriented p).isTx wireLen
  let acc := { acc with lastSeenMs := now }
  acc.observe p.pureSyn (s.addrs.isLocal p.src.address) (s.addrs.isLocal p.dst.address)

/-- A flow not seen before. -/
def newFlow (p : Packet) : FlowAcc where
  «local» := (s.oriented p).local
  remote := (s.oriented p).remote
  proto := p.proto
  iface := h.iface
  ifIndex := h.ifIndex

/-- The packet added to its flow. -/
def account (p : Packet) : BsdConnectionWorker :=
  match s.flows.lookup (s.flowKey p) with
  | some acc => { s with flows := s.flows.insert (s.flowKey p) (s.updated wireLen now acc p) }
  | none =>
      if s.Full then { s with flowCapWarned := true }
      else { s with flows := s.flows.insert (s.flowKey p) (s.updated wireLen now (s.newFlow h p) p) }

def handlePacket (v6 : IPv6Text) (w : Window) : Except Fault BsdConnectionWorker := do
  match ← (parsePacket v6 w h.datalink).run with
  | some p => pure (s.account h wireLen now p)
  | none => pure s

variable {s h}

theorem handlePacket_some {v6 : IPv6Text} {w : Window} {p : Packet}
    (hp : (parsePacket v6 w h.datalink).run = .ok (some p)) :
    s.handlePacket h wireLen now v6 w = .ok (s.account h wireLen now p) := by
  rw [handlePacket, hp]
  rfl

theorem handlePacket_none {v6 : IPv6Text} {w : Window}
    (hp : (parsePacket v6 w h.datalink).run = .ok none) :
    s.handlePacket h wireLen now v6 w = .ok s := by
  rw [handlePacket, hp]
  rfl

/-- A packet is dropped or accounted. -/
theorem handlePacket_ok (s : BsdConnectionWorker) (h : CaptureHandle) (v6 : IPv6Text) (w : Window) :
    ∃ s', s.handlePacket h wireLen now v6 w = .ok s' := by
  obtain ⟨p, hrun, -⟩ := parsePacket_yields v6 (w := w) h.datalink
  cases p with
  | some p => exact ⟨_, handlePacket_some wireLen now hrun⟩
  | none => exact ⟨_, handlePacket_none wireLen now hrun⟩

end BsdConnectionWorker

end Qiftop.Backend.Bsd
