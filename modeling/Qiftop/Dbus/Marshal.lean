import Qiftop.Dbus.Types
import Qiftop.Lib.Wire

/-!
# Dbus — reading and writing structures

`dbus/Types.cpp`: the `operator<<` and `operator>>` of the structures on the bus.  Fields were
appended from version to version.  The readers take the oldest fields unconditionally and each later
one only if the structure has it, so a shorter structure of an older peer leaves the defaults.

`upTo n` is a value of which the first `n` fields are known.  `read_of_prefix`: reading any prefix of a
written structure that holds the oldest fields gives the value up to the prefix's length.
-/

namespace Qiftop.Dbus
open Qt Lib

/-! ### Containers -/

/-- A container on the wire. -/
def containerInfo : Codec ContainerInfoDto where
  write c := .struct [Codec.string.write c.runtime, Codec.string.write c.id,
    Codec.string.write c.name]
  read := readStruct do
    let runtime ← field .string
    let id ← field .string
    let name ← field .string
    return { runtime, id, name }
  read_write _ := rfl

/-! ### Connections -/

namespace ConnectionDto

/-- The fields, in the order they are written. -/
def fields (c : ConnectionDto) : List Value :=
  [Codec.byte.write c.proto,
    Codec.byte.write c.localFamily, Codec.string.write c.localAddress,
    Codec.uint16.write c.localPort,
    Codec.byte.write c.remoteFamily, Codec.string.write c.remoteAddress,
    Codec.uint16.write c.remotePort,
    Codec.uint64.write c.rxBytes, Codec.uint64.write c.txBytes,
    Codec.uint64.write c.rxPackets, Codec.uint64.write c.txPackets,
    Codec.string.write c.iface,
    Codec.byte.write c.direction,
    Codec.uint32.write c.ifIndex, Codec.byte.write c.tcpState,
    Codec.uint32.write c.pid, Codec.uint32.write c.uid, Codec.string.write c.comm,
    Codec.string.write c.containerRuntime, Codec.string.write c.containerId,
    Codec.string.write c.containerName,
    containerInfo.array.write c.containerChain,
    Codec.byte.write c.reason]

/-- `operator<<`. -/
def write (c : ConnectionDto) : Value := .struct c.fields

/-- Cuts an over-long chain. -/
def clampChain (c : ConnectionDto) : ConnectionDto :=
  if c.containerChain.length > kMaxContainerChainDepth then
    { c with containerChain := c.containerChain.take kMaxContainerChainDepth }
  else c

/-- The fields read into `c`, whose own stay where the structure ends. -/
def readFields (c : ConnectionDto) : Reader ConnectionDto := do
  let proto ← field .byte
  let localFamily ← field .byte
  let localAddress ← field .string
  let localPort ← field .uint16
  let remoteFamily ← field .byte
  let remoteAddress ← field .string
  let remotePort ← field .uint16
  let rxBytes ← field .uint64
  let txBytes ← field .uint64
  let rxPackets ← field .uint64
  let txPackets ← field .uint64
  let iface ← field .string
  let direction ← field .byte
  let ifIndex ← trailing .uint32 c.ifIndex
  let tcpState ← trailing .byte c.tcpState
  let pid ← trailing .uint32 c.pid
  let uid ← trailing .uint32 c.uid
  let comm ← trailing .string c.comm
  let containerRuntime ← trailing .string c.containerRuntime
  let containerId ← trailing .string c.containerId
  let containerName ← trailing .string c.containerName
  let containerChain ← trailing containerInfo.array c.containerChain
  let reason ← trailing .byte c.reason
  return clampChain
    { proto, localFamily, localAddress, localPort, remoteFamily, remoteAddress, remotePort
      rxBytes, txBytes, rxPackets, txPackets, iface, direction, ifIndex, tcpState, pid, uid, comm
      containerRuntime, containerId, containerName, containerChain, reason }

/-- `operator>>` into a default-constructed value. -/
def read : Value → Option ConnectionDto := readStruct (readFields {})

/-- The value of which the first `n` fields are known, at least the oldest thirteen. -/
def upTo (n : ℕ) (c : ConnectionDto) : ConnectionDto :=
  let d : ConnectionDto := {}
  { c with
    ifIndex := if 13 < n then c.ifIndex else d.ifIndex
    tcpState := if 14 < n then c.tcpState else d.tcpState
    pid := if 15 < n then c.pid else d.pid
    uid := if 16 < n then c.uid else d.uid
    comm := if 17 < n then c.comm else d.comm
    containerRuntime := if 18 < n then c.containerRuntime else d.containerRuntime
    containerId := if 19 < n then c.containerId else d.containerId
    containerName := if 20 < n then c.containerName else d.containerName
    containerChain := if 21 < n then c.containerChain else d.containerChain
    reason := if 22 < n then c.reason else d.reason }

theorem clampChain_of_le {c : ConnectionDto} (h : c.containerChain.length ≤ kMaxContainerChainDepth) :
    c.clampChain = c :=
  if_neg (by omega)

/-- A cut behind the oldest fields. -/
theorem fields_take (c : ConnectionDto) (n : ℕ) :
    c.fields.take (n + 13) = c.fields.take 13 ++ (c.fields.drop 13).take n := rfl

/-- Reading a cut structure: behind the cut the defaults stay. -/
theorem read_take (c : ConnectionDto) (n : ℕ) :
    read (.struct (c.fields.take (n + 13))) = some (c.upTo (n + 13)).clampChain := by
  have hfirst : 0 < n ↔ 13 < n + 13 := by omega
  have hcut (i : ℕ) : 0 < n - i ↔ i + 13 < n + 13 := by omega
  rw [read, readStruct, fields_take, fields, readFields]
  simp only [List.take_succ_cons, List.take_zero, List.drop_succ_cons, List.drop_zero,
    List.cons_append, List.nil_append, bind_field, bind_trailing_take, Nat.sub_sub, hfirst, hcut,
    Nat.reduceAdd]
  rfl

/-- What is known after a cut: the fields before it, and the defaults. -/
theorem fields_upTo (c : ConnectionDto) (n : ℕ) :
    (c.upTo (n + 13)).fields = c.fields.take (n + 13) ++ ({} : ConnectionDto).fields.drop (n + 13) := by
  have hfirst : 0 < n ↔ 13 < n + 13 := by omega
  have hcut (i : ℕ) : 0 < n - i ↔ i + 13 < n + 13 := by omega
  have hdrop : ({} : ConnectionDto).fields.drop (n + 13) =
      (({} : ConnectionDto).fields.drop 13).drop n := by rw [List.drop_drop, Nat.add_comm]
  rw [fields_take, hdrop, List.append_assoc, fields, fields, fields]
  simp only [List.take_succ_cons, List.take_zero, List.drop_succ_cons, List.drop_zero,
    List.cons_append, List.nil_append, take_append_drop_write, Nat.sub_sub, hfirst, hcut,
    Nat.reduceAdd, List.take_nil, List.drop_nil]
  rfl

/-- **A prefix with the oldest fields is read as far as it goes.** -/
theorem read_of_prefix {c : ConnectionDto} (hc : c.containerChain.length ≤ kMaxContainerChainDepth)
    {pre : List Value} (hpre : pre <+: c.fields) (hlen : 13 ≤ pre.length) :
    read (.struct pre) = some (c.upTo pre.length) ∧
      (c.upTo pre.length).fields = pre ++ ({} : ConnectionDto).fields.drop pre.length := by
  obtain ⟨n, hn⟩ : ∃ n, pre.length = n + 13 := ⟨pre.length - 13, by omega⟩
  have htake : pre = c.fields.take (n + 13) := by rw [← hn]; exact List.prefix_iff_eq_take.mp hpre
  have hchain : (c.upTo (n + 13)).containerChain.length ≤ kMaxContainerChainDepth := by
    rw [upTo]
    dsimp only
    split
    · exact hc
    · exact Nat.zero_le _
  rw [hn, htake, read_take, clampChain_of_le hchain]
  exact ⟨rfl, fields_upTo c n⟩

theorem upTo_fields_length (c : ConnectionDto) : c.upTo c.fields.length = c := rfl

end ConnectionDto

/-! ### Interfaces -/

structure InterfaceStatsDto where
  name : QString := []
  type : QString := []
  mtu : UInt32 := 0
  addresses : List QString := []
  rxBytes : UInt64 := 0
  txBytes : UInt64 := 0
  rxPackets : UInt64 := 0
  txPackets : UInt64 := 0
  isUp : Bool := false
  isLoopback : Bool := false
  ifIndex : UInt32 := 0
  operState : UInt8 := 0
  rxErrors : UInt64 := 0
  txErrors : UInt64 := 0
  rxDropped : UInt64 := 0
  txDropped : UInt64 := 0
  deriving DecidableEq, Repr

namespace InterfaceStatsDto

/-- The fields, in the order they are written. -/
def fields (s : InterfaceStatsDto) : List Value :=
  [Codec.string.write s.name, Codec.string.write s.type, Codec.uint32.write s.mtu,
    Codec.string.array.write s.addresses,
    Codec.uint64.write s.rxBytes, Codec.uint64.write s.txBytes,
    Codec.uint64.write s.rxPackets, Codec.uint64.write s.txPackets,
    Codec.boolean.write s.isUp, Codec.boolean.write s.isLoopback,
    Codec.uint32.write s.ifIndex, Codec.byte.write s.operState,
    Codec.uint64.write s.rxErrors, Codec.uint64.write s.txErrors,
    Codec.uint64.write s.rxDropped, Codec.uint64.write s.txDropped]

/-- `operator<<`. -/
def write (s : InterfaceStatsDto) : Value := .struct s.fields

/-- The fields read into `s`, whose own stay where the structure ends. -/
def readFields (s : InterfaceStatsDto) : Reader InterfaceStatsDto := do
  let name ← field .string
  let type ← field .string
  let mtu ← field .uint32
  let addresses ← field Codec.string.array
  let rxBytes ← field .uint64
  let txBytes ← field .uint64
  let rxPackets ← field .uint64
  let txPackets ← field .uint64
  let isUp ← field .boolean
  let isLoopback ← field .boolean
  let ifIndex ← trailing .uint32 s.ifIndex
  let operState ← trailing .byte s.operState
  let rxErrors ← trailing .uint64 s.rxErrors
  let txErrors ← trailing .uint64 s.txErrors
  let rxDropped ← trailing .uint64 s.rxDropped
  let txDropped ← trailing .uint64 s.txDropped
  return { name, type, mtu, addresses, rxBytes, txBytes, rxPackets, txPackets, isUp, isLoopback
           ifIndex, operState, rxErrors, txErrors, rxDropped, txDropped }

/-- `operator>>` into a default-constructed value. -/
def read : Value → Option InterfaceStatsDto := readStruct (readFields {})

/-- The value of which the first `n` fields are known, at least the oldest ten. -/
def upTo (n : ℕ) (s : InterfaceStatsDto) : InterfaceStatsDto :=
  let d : InterfaceStatsDto := {}
  { s with
    ifIndex := if 10 < n then s.ifIndex else d.ifIndex
    operState := if 11 < n then s.operState else d.operState
    rxErrors := if 12 < n then s.rxErrors else d.rxErrors
    txErrors := if 13 < n then s.txErrors else d.txErrors
    rxDropped := if 14 < n then s.rxDropped else d.rxDropped
    txDropped := if 15 < n then s.txDropped else d.txDropped }

theorem fields_take (s : InterfaceStatsDto) (n : ℕ) :
    s.fields.take (n + 10) = s.fields.take 10 ++ (s.fields.drop 10).take n := rfl

theorem read_take (s : InterfaceStatsDto) (n : ℕ) :
    read (.struct (s.fields.take (n + 10))) = some (s.upTo (n + 10)) := by
  have hfirst : 0 < n ↔ 10 < n + 10 := by omega
  have hcut (i : ℕ) : 0 < n - i ↔ i + 10 < n + 10 := by omega
  rw [read, readStruct, fields_take, fields, readFields]
  simp only [List.take_succ_cons, List.take_zero, List.drop_succ_cons, List.drop_zero,
    List.cons_append, List.nil_append, bind_field, bind_trailing_take, Nat.sub_sub, hfirst, hcut,
    Nat.reduceAdd]
  rfl

theorem fields_upTo (s : InterfaceStatsDto) (n : ℕ) :
    (s.upTo (n + 10)).fields =
      s.fields.take (n + 10) ++ ({} : InterfaceStatsDto).fields.drop (n + 10) := by
  have hfirst : 0 < n ↔ 10 < n + 10 := by omega
  have hcut (i : ℕ) : 0 < n - i ↔ i + 10 < n + 10 := by omega
  have hdrop : ({} : InterfaceStatsDto).fields.drop (n + 10) =
      (({} : InterfaceStatsDto).fields.drop 10).drop n := by rw [List.drop_drop, Nat.add_comm]
  rw [fields_take, hdrop, List.append_assoc, fields, fields, fields]
  simp only [List.take_succ_cons, List.take_zero, List.drop_succ_cons, List.drop_zero,
    List.cons_append, List.nil_append, take_append_drop_write, Nat.sub_sub, hfirst, hcut,
    Nat.reduceAdd, List.take_nil, List.drop_nil]
  rfl

/-- **A prefix with the oldest fields is read as far as it goes.** -/
theorem read_of_prefix {s : InterfaceStatsDto} {pre : List Value} (hpre : pre <+: s.fields)
    (hlen : 10 ≤ pre.length) :
    read (.struct pre) = some (s.upTo pre.length) ∧
      (s.upTo pre.length).fields = pre ++ ({} : InterfaceStatsDto).fields.drop pre.length := by
  obtain ⟨n, hn⟩ : ∃ n, pre.length = n + 10 := ⟨pre.length - 10, by omega⟩
  have htake : pre = s.fields.take (n + 10) := by rw [← hn]; exact List.prefix_iff_eq_take.mp hpre
  rw [hn, htake, read_take]
  exact ⟨rfl, fields_upTo s n⟩

theorem upTo_fields_length (s : InterfaceStatsDto) : s.upTo s.fields.length = s := rfl

end InterfaceStatsDto

/-! ### Older peers -/

/-- **Structures of older peers are read as far as they go**, of connections with a chain the reader
does not cut and of interfaces. -/
theorem reads_older_peers :
    ReadsPrefixes ConnectionDto.fields ConnectionDto.read {} 13
        (fun c => c.containerChain.length ≤ kMaxContainerChainDepth) ∧
      ReadsPrefixes InterfaceStatsDto.fields InterfaceStatsDto.read {} 10 (fun _ => True) := by
  constructor
  · refine .of_upTo ConnectionDto.upTo ?_ ConnectionDto.upTo_fields_length fun _ => ?_
    · exact fun _ hc _ hpre hlen => ConnectionDto.read_of_prefix hc hpre hlen
    · exact Nat.le_of_ble_eq_true rfl
  · refine .of_upTo InterfaceStatsDto.upTo ?_ InterfaceStatsDto.upTo_fields_length fun _ => ?_
    · exact fun _ _ _ hpre hlen => InterfaceStatsDto.read_of_prefix hpre hlen
    · exact Nat.le_of_ble_eq_true rfl

/-- A peer that knows no reason of attribution sends all fields but the last. -/
example : ConnectionDto.read (.struct (({ pid := 7, reason := 3 } : ConnectionDto).fields.take 22)) =
    some { pid := 7, reason := 0 } := by decide

end Qiftop.Dbus
