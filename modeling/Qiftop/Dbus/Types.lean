import Qiftop.Backend.Conntrack

/-!
# Dbus — the wire form of a connection

`dbus/Types.{h,cpp}`: `toDto` and `fromDto`.  The wire carries a protocol by its IANA number,
addresses by their texts, enumerations by their values, and of a process the pid, the uid and the
short name.  Receiving clamps: unknown values of an enumeration fall back to a default, a container
chain is cut at sixteen entries.

Reading an address from its text is Qt's; it is the parameter `parse`.
-/

namespace Qiftop.Dbus
open Qt Backend

structure ContainerInfoDto where
  runtime : QString := []
  id : QString := []
  name : QString := []
  deriving DecidableEq, Repr

structure ConnectionDto where
  proto : UInt8 := 0
  localFamily : UInt8 := 0
  localAddress : QString := []
  localPort : UInt16 := 0
  remoteFamily : UInt8 := 0
  remoteAddress : QString := []
  remotePort : UInt16 := 0
  rxBytes : UInt64 := 0
  txBytes : UInt64 := 0
  rxPackets : UInt64 := 0
  txPackets : UInt64 := 0
  iface : QString := []
  direction : UInt8 := 0
  ifIndex : UInt32 := 0
  tcpState : UInt8 := 0
  pid : UInt32 := 0
  uid : UInt32 := 0
  comm : QString := []
  containerRuntime : QString := []
  containerId : QString := []
  containerName : QString := []
  containerChain : List ContainerInfoDto := []
  reason : UInt8 := 0
  deriving DecidableEq, Repr

def kMaxContainerChainDepth : ℕ := 16

/-! ### Enumerations on the wire -/

def toIanaProto : L4Proto → UInt8
  | .Tcp => 6 | .Udp => 17 | .Icmp => 1 | .IcmpV6 => 58 | .Unknown => 0

def fromIanaProto (n : UInt8) : L4Proto :=
  if n = 6 then .Tcp else if n = 17 then .Udp else if n = 1 then .Icmp
  else if n = 58 then .IcmpV6 else .Unknown

def toQuint8Direction : Direction → UInt8
  | .Unknown => 0 | .Outbound => 1 | .Inbound => 2

def fromQuint8Direction (n : UInt8) : Direction :=
  if n = 1 then .Outbound else if n = 2 then .Inbound else .Unknown

def toQuint8TcpState : TcpState → UInt8
  | .None => 0 | .SynSent => 1 | .SynRecv => 2 | .Established => 3 | .FinWait => 4
  | .CloseWait => 5 | .LastAck => 6 | .TimeWait => 7 | .Close => 8 | .SynSent2 => 9

def toQuint8Reason : AttributionReason → UInt8
  | .Resolved => 0 | .NoLocalSocket => 1 | .Orphaned => 2 | .Forwarded => 3

def fromQuint8Reason (n : UInt8) : AttributionReason :=
  if n = 0 then .Resolved else if n = 2 then .Orphaned else if n = 3 then .Forwarded
  else .NoLocalSocket

@[simp] theorem fromIanaProto_toIanaProto (p : L4Proto) : fromIanaProto (toIanaProto p) = p := by
  cases p <;> rfl

@[simp] theorem fromQuint8Direction_toQuint8 (d : Direction) :
    fromQuint8Direction (toQuint8Direction d) = d := by cases d <;> rfl

@[simp] theorem ofRaw_toQuint8TcpState (s : TcpState) : TcpState.ofRaw (toQuint8TcpState s) = s := by
  cases s <;> rfl

@[simp] theorem fromQuint8Reason_toQuint8 (r : AttributionReason) :
    fromQuint8Reason (toQuint8Reason r) = r := by cases r <;> rfl

/-! ### Conversion -/

def toContainerDto (ci : ContainerInfo) : ContainerInfoDto := ⟨ci.runtime, ci.id, ci.name⟩

def fromContainerDto (ci : ContainerInfoDto) : ContainerInfo := ⟨ci.runtime, ci.id, ci.name⟩

/-- The pid on the wire: zero for a process that is not attributed. -/
def pidToWire (pid : Int32) : UInt32 := if 0 < pid then pid.toUInt32 else 0

/-- The pid read back: zero past the signed range. -/
def pidFromWire (pid : UInt32) : Int32 := if pid ≤ 2147483647 then pid.toInt32 else 0

def toDto (c : Connection) : ConnectionDto where
  proto := toIanaProto c.proto
  localFamily := if c.local.isIPv6 then 6 else 4
  localAddress := c.local.address.toString
  localPort := c.local.port
  remoteFamily := if c.remote.isIPv6 then 6 else 4
  remoteAddress := c.remote.address.toString
  remotePort := c.remote.port
  rxBytes := c.rxBytes
  txBytes := c.txBytes
  rxPackets := c.rxPackets
  txPackets := c.txPackets
  iface := c.iface
  direction := toQuint8Direction c.direction
  ifIndex := c.ifIndex
  tcpState := toQuint8TcpState c.tcpState
  pid := pidToWire c.process.pid
  uid := c.process.uid
  comm := c.process.comm
  containerRuntime := c.container.runtime
  containerId := c.container.id
  containerName := c.container.name
  containerChain := c.containerChain.map toContainerDto
  reason := toQuint8Reason c.reason

section
variable (parse : QString → QHostAddress)

def fromDto (d : ConnectionDto) : Connection where
  proto := fromIanaProto d.proto
  «local» := ⟨parse d.localAddress, d.localPort⟩
  remote := ⟨parse d.remoteAddress, d.remotePort⟩
  rxBytes := d.rxBytes
  txBytes := d.txBytes
  rxPackets := d.rxPackets
  txPackets := d.txPackets
  iface := d.iface
  direction := fromQuint8Direction d.direction
  ifIndex := d.ifIndex
  tcpState := .ofRaw d.tcpState
  process := { pid := pidFromWire d.pid, uid := d.uid, comm := d.comm }
  container := ⟨d.containerRuntime, d.containerId, d.containerName⟩
  containerChain := (d.containerChain.take kMaxContainerChainDepth).map fromContainerDto
  reason := fromQuint8Reason d.reason

def toDtos (l : List Connection) : List ConnectionDto := l.map toDto

def fromDtos (l : List ConnectionDto) : List Connection := l.map (fromDto parse)

/-! ### There and back -/

theorem toUInt32_le_of_pos {pid : Int32} (h : 0 < pid) : pid.toUInt32 ≤ 2147483647 := by
  have hpos : (0 : Int) < pid.toInt := by simpa [Int32.lt_iff_toInt_lt] using h
  have hmod : pid.toInt = (pid.toUInt32.toNat : Int).bmod (2 ^ 32) :=
    BitVec.toInt_eq_toNat_bmod pid.toBitVec
  have hlt := pid.toUInt32.toNat_lt
  rw [hmod, Int.bmod_def] at hpos
  rw [UInt32.le_iff_toNat_le]
  change pid.toUInt32.toNat ≤ 2147483647
  split at hpos <;> omega

/-- A pid that is not negative survives the wire. -/
theorem pidFromWire_pidToWire {pid : Int32} (h : 0 ≤ pid) : pidFromWire (pidToWire pid) = pid := by
  unfold pidToWire
  by_cases hpos : 0 < pid
  · rw [if_pos hpos, pidFromWire, if_pos (toUInt32_le_of_pos hpos), Int32.toInt32_toUInt32]
  · obtain rfl : pid = 0 := Int32.le_antisymm (Int32.not_lt.mp hpos) h
    rfl

/-- Reading the text of an address gives the address back. -/
def ReadsBack (c : Connection) : Prop :=
  parse c.local.address.toString = c.local.address ∧
    parse c.remote.address.toString = c.remote.address

/-- What arrives of a process. -/
def wireProcess (p : ProcessInfo) : ProcessInfo := { pid := p.pid, uid := p.uid, comm := p.comm }

/-- **What arrives of a connection**: all of it, but for the process details the wire does not
carry and the entries of a chain past the sixteenth. -/
theorem fromDto_toDto {c : Connection} (hc : ReadsBack parse c) (hp : 0 ≤ c.process.pid) :
    fromDto parse (toDto c) =
      { c with process := wireProcess c.process
               containerChain := c.containerChain.take kMaxContainerChainDepth } := by
  have hchain : ((c.containerChain.map toContainerDto).take kMaxContainerChainDepth).map
      fromContainerDto = c.containerChain.take kMaxContainerChainDepth := by
    rw [← List.map_take, List.map_map]
    exact List.map_id _
  simp only [fromDto, toDto, fromIanaProto_toIanaProto, fromQuint8Direction_toQuint8,
    ofRaw_toQuint8TcpState, fromQuint8Reason_toQuint8, pidFromWire_pidToWire hp, hc.1, hc.2, hchain,
    wireProcess]

end

end Qiftop.Dbus
