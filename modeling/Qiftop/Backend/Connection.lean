import Qiftop.Qt.Prelude

/-!
# Backend — connections

The flow record every component exchanges (`backend/Connection.h`, `backend/ProcessResolver.h`):
endpoints, protocol, counters, direction, and the process and container a flow is attributed to.
Counters and ports have the source's widths.

`Connection.key` is the text models identify a flow by.  It is built by six successive `arg` calls
on one format string.  The first two substitute single digits, which hold no marker, so the key
always starts with the protocol and the direction (`key_eq`); what follows depends on the two
endpoints only.
-/

namespace Qiftop.Backend
open Qt

inductive L4Proto where
  | Unknown | Tcp | Udp | Icmp | IcmpV6
  deriving DecidableEq, Repr

/-- The underlying value, as `static_cast<int>` gives it. -/
def L4Proto.toNat : L4Proto → Nat
  | .Unknown => 0 | .Tcp => 1 | .Udp => 2 | .Icmp => 3 | .IcmpV6 => 4

inductive Direction where
  | Unknown | Outbound | Inbound
  deriving DecidableEq, Repr

def Direction.toNat : Direction → Nat
  | .Unknown => 0 | .Outbound => 1 | .Inbound => 2

inductive TcpState where
  | None | SynSent | SynRecv | Established | FinWait | CloseWait | LastAck | TimeWait | Close
  | SynSent2
  deriving DecidableEq, Repr

inductive AttributionReason where
  | Resolved | NoLocalSocket | Orphaned | Forwarded
  deriving DecidableEq, Repr

structure ProcessInfo where
  pid : Int32 := 0
  comm : QString := []
  cmdline : QString := []
  exe : QString := []
  uid : UInt32 := 0
  deriving DecidableEq, Repr

/-- A process is attributed exactly when its pid is positive. -/
def ProcessInfo.valid (p : ProcessInfo) : Bool := decide (0 < p.pid)

structure ContainerInfo where
  runtime : QString := []
  id : QString := []
  name : QString := []
  deriving DecidableEq, Repr

def ContainerInfo.valid (c : ContainerInfo) : Bool := !c.runtime.isEmpty && !c.id.isEmpty

structure Endpoint where
  address : QHostAddress := .null
  port : UInt16 := 0
  deriving DecidableEq, Repr

def Endpoint.isIPv6 (e : Endpoint) : Bool := e.address.protocol == .IPv6Protocol

structure Connection where
  «local» : Endpoint := {}
  remote : Endpoint := {}
  proto : L4Proto := .Unknown
  rxBytes : UInt64 := 0
  txBytes : UInt64 := 0
  rxPackets : UInt64 := 0
  txPackets : UInt64 := 0
  iface : QString := []
  ifIndex : UInt32 := 0
  direction : Direction := .Unknown
  tcpState : TcpState := .None
  reason : AttributionReason := .Resolved
  process : ProcessInfo := {}
  container : ContainerInfo := {}
  containerChain : List ContainerInfo := []
  deriving DecidableEq, Repr

namespace Connection

/-- `Connection::key`. -/
def key (c : Connection) : QString :=
  arg (arg (arg (arg (arg (arg "%1|%2|%3.%4|%5.%6".toList
    (number c.proto.toNat)) (number c.direction.toNat))
    c.local.address.toString) (number c.local.port.toNat))
    c.remote.address.toString) (number c.remote.port.toNat)

/-- What the last four substitutions make of the endpoints. -/
def endpointsText (l r : Endpoint) : QString :=
  arg (arg (arg (arg "%3.%4|%5.%6".toList
    l.address.toString) (number l.port.toNat)) r.address.toString) (number r.port.toNat)

end Connection

/-- The digit of a protocol in a key. -/
def L4Proto.digit : L4Proto → Char
  | .Unknown => '0' | .Tcp => '1' | .Udp => '2' | .Icmp => '3' | .IcmpV6 => '4'

/-- The digit of a direction in a key. -/
def Direction.digit : Direction → Char
  | .Unknown => '0' | .Outbound => '1' | .Inbound => '2'

theorem number_proto (p : L4Proto) : number p.toNat = [p.digit] := by cases p <;> rfl

theorem number_direction (d : Direction) : number d.toNat = [d.digit] := by cases d <;> rfl

theorem L4Proto.digit_injective : Function.Injective L4Proto.digit := by
  intro p q; cases p <;> cases q <;> decide

theorem Direction.digit_injective : Function.Injective Direction.digit := by
  intro p q; cases p <;> cases q <;> decide

theorem percent_notMem_digits (p : L4Proto) (d : Direction) :
    '%' ∉ [p.digit, '|', d.digit, '|'] := by
  cases p <;> cases d <;> decide

namespace Connection

/-- **The shape of a key**: protocol digit, direction digit, endpoints. -/
theorem key_eq (c : Connection) :
    c.key = [c.proto.digit, '|', c.direction.digit, '|'] ++ endpointsText c.local c.remote := by
  have h₁ : arg "%1|%2|%3.%4|%5.%6".toList [c.proto.digit] =
      [c.proto.digit, '|'] ++ "%2|%3.%4|%5.%6".toList := rfl
  have hp : '%' ∉ [c.proto.digit, '|'] := by cases c.proto <;> decide
  have h₂ : arg "%2|%3.%4|%5.%6".toList [c.direction.digit] =
      [c.direction.digit, '|'] ++ "%3.%4|%5.%6".toList := rfl
  have h₃ : [c.proto.digit, '|'] ++ ([c.direction.digit, '|'] ++ "%3.%4|%5.%6".toList) =
      [c.proto.digit, '|', c.direction.digit, '|'] ++ "%3.%4|%5.%6".toList := rfl
  have hd := percent_notMem_digits c.proto c.direction
  rw [key, number_proto, number_direction, h₁, arg_append hp, h₂, h₃, arg_append hd,
    arg_append hd, arg_append hd, arg_append hd, endpointsText]

/-- Equal keys have equal protocols, directions and endpoint texts, and conversely. -/
theorem key_inj_iff {a b : Connection} :
    a.key = b.key ↔ a.proto = b.proto ∧ a.direction = b.direction ∧
      endpointsText a.local a.remote = endpointsText b.local b.remote := by
  rw [key_eq, key_eq]
  simp only [List.cons_append, List.nil_append, List.cons.injEq, true_and,
    L4Proto.digit_injective.eq_iff, Direction.digit_injective.eq_iff]

end Connection

end Qiftop.Backend
