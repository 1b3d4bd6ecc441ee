import Mathlib.Data.Finset.Insert
import Qiftop.Backend.Connection

/-!
# Backend — the Linux conntrack monitor

`backend/linux/ConntrackMonitor.cpp`, `ConntrackOrient.h` and `FlowTopK.h`: how one kernel dump
becomes a snapshot.  Each conntrack entry is converted (`nfctCallback`), oriented so that the local
end is ours, and offered to a heap that keeps the `cap` flows with the most bytes.

An entry is what the callback reads of it: the attributes as libnetfilter_conntrack returns them,
addresses and ports after the conversion to host form.  Which interface a flow leaves by and the
index of an interface are answers of the kernel, and parameters here.
-/

namespace Qiftop.Backend
open Qt

/-- The attributes of an `nf_conntrack` the callback reads. -/
structure NfConntrack where
  l3proto : UInt8
  l4proto : UInt8
  ipv4Src : QHostAddress := .null
  ipv4Dst : QHostAddress := .null
  ipv6Src : Option QHostAddress := none
  ipv6Dst : Option QHostAddress := none
  portSrc : UInt16 := 0
  portDst : UInt16 := 0
  origCounterBytes : Option UInt64 := none
  replCounterBytes : Option UInt64 := none
  origCounterPackets : Option UInt64 := none
  replCounterPackets : Option UInt64 := none
  tcpState : Option UInt8 := none

def AF_INET : UInt8 := 2
def AF_INET6 : UInt8 := 10

/-- The protocols the monitor shows. -/
def L4Proto.ofIpProto (l4 : UInt8) : Option L4Proto :=
  if l4 = 6 then some .Tcp
  else if l4 = 17 then some .Udp
  else if l4 = 1 then some .Icmp
  else if l4 = 58 then some .IcmpV6
  else none

/-- The state of a raw value, `None` past the last known one. -/
def TcpState.ofRaw (raw : UInt8) : TcpState :=
  match raw.toNat with
  | 1 => .SynSent | 2 => .SynRecv | 3 => .Established | 4 => .FinWait | 5 => .CloseWait
  | 6 => .LastAck | 7 => .TimeWait | 8 => .Close | 9 => .SynSent2
  | _ => .None

/-- The source is the local end unless only the destination is one of our addresses. -/
def orientConntrackFlow (src dst : QHostAddress) (sport dport : UInt16) (proto : L4Proto)
    (origBytes replBytes origPackets replPackets : UInt64) (localAddrs : Finset QHostAddress) :
    Connection :=
  if src ∈ localAddrs ∨ dst ∉ localAddrs then
    { proto, «local» := ⟨src, sport⟩, remote := ⟨dst, dport⟩
      txBytes := origBytes, rxBytes := replBytes
      txPackets := origPackets, rxPackets := replPackets }
  else
    { proto, «local» := ⟨dst, dport⟩, remote := ⟨src, sport⟩
      txBytes := replBytes, rxBytes := origBytes
      txPackets := replPackets, rxPackets := origPackets }

/-- What the callback asks of the host. -/
structure PollCtx where
  localAddrs : Finset QHostAddress := ∅
  attributeIface : QHostAddress → QHostAddress → QString := fun _ _ => []
  ifIndex : QString → UInt32 := fun _ => 0
  cap : Int := 4096

/-- The addresses of an entry. -/
def NfConntrack.addresses (ct : NfConntrack) : Option (QHostAddress × QHostAddress) :=
  if ct.l3proto = AF_INET then some (ct.ipv4Src, ct.ipv4Dst)
  else if ct.l3proto = AF_INET6 then
    match ct.ipv6Src, ct.ipv6Dst with
    | some src, some dst => some (src, dst)
    | _, _ => none
  else none

/-- One entry's connection; nothing for a protocol or family the monitor does not show. -/
def nfctCallback (ctx : PollCtx) (ct : NfConntrack) : Option Connection :=
  match L4Proto.ofIpProto ct.l4proto, ct.addresses with
  | some proto, some (src, dst) =>
      let ported := proto = .Tcp ∨ proto = .Udp
      let c := orientConntrackFlow src dst (if ported then ct.portSrc else 0)
        (if ported then ct.portDst else 0) proto
        (ct.origCounterBytes.getD 0) (ct.replCounterBytes.getD 0)
        (ct.origCounterPackets.getD 0) (ct.replCounterPackets.getD 0) ctx.localAddrs
      let iface := ctx.attributeIface c.local.address c.remote.address
      some { c with
        iface
        ifIndex := if iface.isEmpty then 0 else ctx.ifIndex iface
        tcpState := match ct.tcpState with
          | some raw => if proto = .Tcp then .ofRaw raw else c.tcpState
          | none => c.tcpState }
  | _, _ => none

/-! ### The loudest flows -/

def flowBytesTotal (c : Connection) : UInt64 := c.rxBytes + c.txBytes

/-- Makes the standard heap a min-heap by bytes. -/
def flowMinHeapByBytes (a b : Connection) : Bool := decide (flowBytesTotal a > flowBytesTotal b)

/-- Offer one flow to the bounded heap. -/
def admitFlowTopK (H : StdHeap) (heap : List Connection) (c : Connection) (cap : Int) :
    List Connection :=
  if cap ≤ 0 then heap ++ [c]
  else if heap.length < cap then H.push flowMinHeapByBytes (heap ++ [c])
  else
    match heap.head? with
    | some least =>
        if flowBytesTotal c > flowBytesTotal least then
          H.push flowMinHeapByBytes ((H.pop flowMinHeapByBytes heap).dropLast ++ [c])
        else heap
    | none => heap

/-- The snapshot of a dump, before attribution. -/
def conntrackSnapshot (H : StdHeap) (ctx : PollCtx) (dump : List NfConntrack) : List Connection :=
  dump.foldl (fun heap ct =>
    match nfctCallback ctx ct with
    | some c => admitFlowTopK H heap c ctx.cap
    | none => heap) []

end Qiftop.Backend
