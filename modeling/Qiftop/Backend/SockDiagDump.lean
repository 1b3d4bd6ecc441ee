import Qiftop.Lib.Bytes
import Qiftop.Lib.Hash
import Qiftop.Lib.Agreement
import Qiftop.Backend.Conntrack

/-!
# Backend — socket diagnostics

`backend/linux/SockDiagDump.h`.  The kernel lists its sockets as netlink messages, delivered in chunks.
`parseDumpChunk` walks the messages of a chunk and enters each socket's inode into a table under the
flow it belongs to, and under its local end alone; a local end that sockets of different inodes share is
marked.  The table is bounded, and the bound is a field of it.

The bytes come from outside, lengths included.  Headers are in the byte order of the host, which is a
parameter, and the arithmetic of the walk is that of the netlink macros, in machine words.  A read
outside the chunk is a fault, so `parseDumpChunk` can fault as far as this file knows.
-/

namespace Qiftop.Backend
open Lib

/-! ### Addresses -/

/-- An address by its value: none, 4 bytes or 16 bytes. -/
inductive HostAddress where
  | null
  | v4 (a : UInt32)
  | v6 (a : BitVec 128)
  deriving DecidableEq, Repr

namespace HostAddress

def AnyIPv4 : HostAddress := .v4 0
def AnyIPv6 : HostAddress := .v6 0

def isIPv6 : HostAddress → Bool
  | .v6 _ => true
  | _ => false

/-- `toIPv4Address`, with success: mapped addresses and the unspecified one have an IPv4 address. -/
def toIPv4Address : HostAddress → Option UInt32
  | .null => none
  | .v4 a => some a
  | .v6 a =>
      let mid := a.toNat / 2 ^ 32 % 2 ^ 32
      let low := a.toNat % 2 ^ 32
      if a.toNat / 2 ^ 64 ≠ 0 then none
      else if mid = 0xffff then some (UInt32.ofNat low)
      else if mid ≠ 0 then none
      else if low = 0 then some 0 else none

/-- The bytes of an address in a key. -/
def bytes : HostAddress → List UInt8
  | .v6 a => bigEndian 16 a.toNat
  | .v4 a => bigEndian 4 a.toNat
  | .null => bigEndian 4 0

theorem length_bytes (a : HostAddress) : a.bytes.length = 4 ∨ a.bytes.length = 16 := by
  cases a with
  | null => exact .inl (length_bigEndian _ _)
  | v4 a => exact .inl (length_bigEndian _ _)
  | v6 a => exact .inr (length_bigEndian _ _)

end HostAddress

namespace SockDiag

/-! ### Keys -/

/-- `QByteArray`. -/
abbrev QByteArray := List UInt8

def makeFlowKey (proto : UInt8) (localAddr : HostAddress) (localPort : UInt16)
    (remoteAddr : HostAddress) (remotePort : UInt16) : QByteArray :=
  proto :: (localAddr.bytes ++ bigEndian 2 localPort.toNat ++
    (remoteAddr.bytes ++ bigEndian 2 remotePort.toNat))

def makeLocalKey (proto : UInt8) (localAddr : HostAddress) (localPort : UInt16) : QByteArray :=
  1 :: proto :: (localAddr.bytes ++ bigEndian 2 localPort.toNat)

def isLocalKey (key : QByteArray) : Bool := key.head? == some 1

def kMaxSocketEntries : ℕ := 65536
def kAmbiguousLocalInode : UInt64 := 0

def isAmbiguousLocalInode (inode : UInt64) : Bool := decide (inode = kAmbiguousLocalInode)

/-! ### The table -/

/-- Inodes by key. -/
structure SocketTable where
  map : Hash QByteArray UInt64 := ∅
  bounded : map.keys.length ≤ kMaxSocketEntries := by exact Nat.zero_le _

namespace SocketTable

def size (t : SocketTable) : ℕ := t.map.keys.length

def lookup (t : SocketTable) (key : QByteArray) : Option UInt64 := t.map.lookup key

/-- There is no room for this key. -/
def Full (t : SocketTable) (key : QByteArray) : Prop := t.size ≥ kMaxSocketEntries ∧ key ∉ t.map

instance (t : SocketTable) (key : QByteArray) : Decidable (t.Full key) :=
  inferInstanceAs (Decidable (_ ∧ _))

theorem not_full_iff {t : SocketTable} {key : QByteArray} :
    ¬ t.Full key ↔ t.size < kMaxSocketEntries ∨ key ∈ t.map := by
  rw [Full, not_and_or, not_le, not_not]

theorem not_full_of_lt {t : SocketTable} (h : t.size < kMaxSocketEntries) (key : QByteArray) :
    ¬ t.Full key := not_full_iff.mpr (.inl h)

theorem not_full_of_mem {t : SocketTable} {key : QByteArray} (h : key ∈ t.map) : ¬ t.Full key :=
  not_full_iff.mpr (.inr h)

/-- An insertion, for which there has to be room. -/
def insert (t : SocketTable) (key : QByteArray) (inode : UInt64) (h : ¬ t.Full key) : SocketTable where
  map := t.map.insert key inode
  bounded := by
    have hbounded := t.bounded
    rw [Hash.length_keys_insert]
    split
    · exact hbounded
    · next hkey =>
        have hroom : ¬ t.size ≥ kMaxSocketEntries := fun hge => h ⟨hge, hkey⟩
        rw [size] at hroom
        omega

end SocketTable

/-- A local key is bound to an inode until another inode comes. -/
def insertLocalKey (outMap : SocketTable) (localKey : QByteArray) (inode : UInt64) : SocketTable :=
  match h : outMap.lookup localKey with
  | none =>
      if hroom : outMap.size < kMaxSocketEntries then
        outMap.insert localKey inode (SocketTable.not_full_of_lt hroom localKey)
      else outMap
  | some bound =>
      if bound ≠ inode then
        outMap.insert localKey kAmbiguousLocalInode (SocketTable.not_full_of_mem (Hash.mem_of_lookup h))
      else outMap

/-! ### One socket -/

/-- What is read of an `inet_diag_msg`; ports and inode by their values. -/
structure InetDiagMsg where
  family : UInt8
  sport : UInt16
  dport : UInt16
  src : List UInt8
  dst : List UInt8
  inode : UInt32
  deriving DecidableEq, Repr

def addrFromDiag (family : UInt8) (buf : List UInt8) : HostAddress :=
  if family = AF_INET then .v4 (UInt32.ofNat (ofBigEndian (buf.take 4)))
  else .v6 (BitVec.ofNat 128 (ofBigEndian buf))

namespace InetDiagMsg

def «local» (m : InetDiagMsg) : HostAddress := addrFromDiag m.family m.src
def remote (m : InetDiagMsg) : HostAddress := addrFromDiag m.family m.dst

/-- The IPv4 address of the local end of a dual-stack socket. -/
def local4 (m : InetDiagMsg) : Option UInt32 :=
  if m.family = AF_INET6 then m.local.toIPv4Address else none

end InetDiagMsg

/-- The IPv4 keys of a dual-stack socket. -/
def indexDualStack (proto : UInt8) (outMap : SocketTable) (m : InetDiagMsg) : SocketTable :=
  match m.local4 with
  | none => outMap
  | some l4 =>
      let inode := m.inode.toUInt64
      let outMap :=
        match m.remote.toIPv4Address with
        | some r4 =>
            let k4 := makeFlowKey proto (.v4 l4) m.sport (.v4 r4) m.dport
            if h : outMap.size < kMaxSocketEntries ∨ k4 ∈ outMap.map then
              outMap.insert k4 inode
                (h.elim (SocketTable.not_full_of_lt · k4) SocketTable.not_full_of_mem)
            else outMap
        | none => outMap
      insertLocalKey outMap (makeLocalKey proto (.v4 l4) m.sport) inode

/-- What a socket adds to the table. -/
def indexSocket (proto : UInt8) (outMap : SocketTable) (m : InetDiagMsg) : SocketTable :=
  if m.inode = 0 then outMap
  else
    let inode := m.inode.toUInt64
    let flowKey := makeFlowKey proto m.local m.sport m.remote m.dport
    if h : outMap.Full flowKey then outMap
    else
      let outMap := outMap.insert flowKey inode h
      let outMap := insertLocalKey outMap (makeLocalKey proto m.local m.sport) inode
      indexDualStack proto outMap m

/-! ### The walk -/

inductive DumpChunkResult where
  | NeedMore | Done | Failed
  deriving DecidableEq, Repr

def NLMSG_ERROR : UInt16 := 2
def NLMSG_DONE : UInt16 := 3
def SOCK_DIAG_BY_FAMILY : UInt16 := 20

/-- `NLMSG_HDRLEN` and `sizeof(nlmsghdr)`. -/
def nlmsgHdrlen : ℕ := 16

def NLMSG_LENGTH (len : ℕ) : ℕ := len + nlmsgHdrlen

def sizeofNlmsgerr : ℕ := 20
def sizeofInetDiagMsg : ℕ := 72

section Walk
variable (host : ByteOrder) (buf : Window)

/-- `NLMSG_OK`; the header is not read when there is no room for it. -/
def NLMSG_OK (nh : ℕ) (remaining : Int32) : Except Fault Bool :=
  if remaining < 16 then .ok false
  else do
    let len ← buf.uint32 host nh
    pure (decide (16 ≤ len) && decide (len ≤ remaining.toUInt32))

/-- `remaining` after `NLMSG_NEXT`. -/
def nlmsgRest (remaining : Int32) (len : UInt32) : Int32 :=
  (remaining.toUInt32 - alignUp len).toInt32

def readInetDiagMsg (m : ℕ) : Except Fault InetDiagMsg := do
  let family ← buf.uint8 m
  let sport ← buf.uint16 .big (m + 4)
  let dport ← buf.uint16 .big (m + 6)
  let src ← buf.read (m + 8) 16 id
  let dst ← buf.read (m + 24) 16 id
  let inode ← buf.uint32 host (m + 68)
  pure { family, sport, dport, src, dst, inode }

/-- What a message leads to. -/
inductive MessageOutcome where
  | stop (result : DumpChunkResult) (nlErrno : Int32)
  | next (outMap : SocketTable)

/-- The body of the loop for the message at `nh`. -/
def parseMessage (proto : UInt8) (outMap : SocketTable) (nh : ℕ) : Except Fault MessageOutcome := do
  let len ← buf.uint32 host nh
  let type ← buf.uint16 host (nh + 4)
  if type = NLMSG_DONE then pure (.stop .Done 0)
  else if type = NLMSG_ERROR then
    if len.toNat < NLMSG_LENGTH sizeofNlmsgerr then pure (.stop .Failed 0)
    else do
      let error := (← buf.uint32 host (nh + nlmsgHdrlen)).toInt32
      if error ≠ 0 then pure (.stop .Failed (-error)) else pure (.stop .Done 0)
  else if type ≠ SOCK_DIAG_BY_FAMILY then pure (.next outMap)
  else if len.toNat < NLMSG_LENGTH sizeofInetDiagMsg then pure (.next outMap)
  else do
    let m ← readInetDiagMsg host buf (nh + nlmsgHdrlen)
    pure (.next (indexSocket proto outMap m))

/-- A result, the error number and the table. -/
structure ParsedChunk where
  result : DumpChunkResult
  nlErrno : Int32
  outMap : SocketTable

def parseLoop (proto : UInt8) : (fuel nh : ℕ) → Int32 → SocketTable → Except Fault ParsedChunk
  | 0, _, _, _ => .error .outOfFuel
  | fuel + 1, nh, remaining, outMap => do
      if ← NLMSG_OK host buf nh remaining then
        match ← parseMessage host buf proto outMap nh with
        | .stop result nlErrno => pure ⟨result, nlErrno, outMap⟩
        | .next outMap =>
            let len ← buf.uint32 host nh
            parseLoop proto fuel (nh + (alignUp len).toNat) (nlmsgRest remaining len) outMap
      else pure ⟨.NeedMore, 0, outMap⟩

/-- `parseDumpChunk`, given fuel for its loop. -/
def parseDumpChunk (proto : UInt8) (outMap : SocketTable) (fuel : ℕ) : Except Fault ParsedChunk :=
  parseLoop host buf proto fuel 0 (Int32.ofNat buf.size) outMap

end Walk

/-! ### What the table holds -/

namespace SocketTable
variable {t : SocketTable} {key : QByteArray}

theorem lookup_insert (h : ¬ t.Full key) (inode : UInt64) (k : QByteArray) :
    (t.insert key inode h).lookup k = if k = key then some inode else t.lookup k := by
  rw [insert, lookup, Hash.lookup_insert_ite]
  rfl

theorem mem_insert {inode : UInt64} {h : ¬ t.Full key} {k : QByteArray}
    (hk : k ∈ (t.insert key inode h).map) : k = key ∨ k ∈ t.map := (AList.mem_insert t.map).mp hk

/-- Without an entry there is room as long as the bound is not reached. -/
theorem lt_of_not_full (h : ¬ t.Full key) (hnone : t.lookup key = none) : t.size < kMaxSocketEntries :=
  (not_full_iff.mp h).resolve_right (AList.lookup_eq_none.mp hnone)

/-- All keys of the table are in `keys`. -/
def Within (keys : Finset QByteArray) (t : SocketTable) : Prop := ∀ k ∈ t.map, k ∈ keys

theorem within_empty (keys : Finset QByteArray) : Within keys {} :=
  fun k hk => absurd hk (AList.notMem_empty k)

theorem Within.insert {keys : Finset QByteArray} (h : t.Within keys) (hkey : key ∈ keys)
    (inode : UInt64) (hroom : ¬ t.Full key) : (t.insert key inode hroom).Within keys := by
  intro k hk
  rcases mem_insert hk with rfl | hk
  · exact hkey
  · exact h k hk

/-- There is room for a key when the keys there can be are no more than the bound. -/
theorem Within.not_full {keys : Finset QByteArray} (h : t.Within keys)
    (hcard : keys.card ≤ kMaxSocketEntries) (hkey : key ∈ keys) : ¬ t.Full key := by
  rintro ⟨hsize, hnew⟩
  have hsub : ∀ k ∈ t.map, k ∈ keys.erase key := by
    intro k hk
    refine Finset.mem_erase.mpr ⟨?_, h k hk⟩
    rintro rfl
    exact hnew hk
  have hle : t.size ≤ (keys.erase key).card := Hash.length_keys_le_card hsub
  have hpos := Finset.card_pos.mpr ⟨key, hkey⟩
  rw [Finset.card_erase_of_mem hkey] at hle
  omega

end SocketTable

/-- A local key's entry is what its inodes agree on. -/
theorem lookup_insertLocalKey {t : SocketTable} {key : QByteArray} (h : ¬ t.Full key)
    (inode : UInt64) (k : QByteArray) :
    (insertLocalKey t key inode).lookup k =
      if k = key then agree kAmbiguousLocalInode (t.lookup k) inode else t.lookup k := by
  unfold insertLocalKey
  split
  · next hbound =>
      rw [dif_pos (SocketTable.lt_of_not_full h hbound), SocketTable.lookup_insert]
      split
      · next hk => rw [hk, hbound, agree]
      · rfl
  · next bound hbound =>
      split
      · next hne =>
          rw [SocketTable.lookup_insert]
          split
          · next hk => rw [hk, hbound, agree, if_pos hne]
          · rfl
      · next heq =>
          split
          · next hk => rw [hk, hbound, agree, if_neg heq]
          · rfl

theorem SocketTable.Within.insertLocalKey {t : SocketTable} {keys : Finset QByteArray}
    (h : t.Within keys) {key : QByteArray} (hkey : key ∈ keys) (inode : UInt64) :
    (insertLocalKey t key inode).Within keys := by
  unfold SockDiag.insertLocalKey
  split
  · split
    · exact h.insert hkey inode _
    · exact h
  · split
    · exact h.insert hkey _ _
    · exact h

/-! ### Keys of flows and keys of local ends -/

theorem makeFlowKey_ne_makeLocalKey (proto : UInt8) (localAddr : HostAddress) (localPort : UInt16)
    (remoteAddr : HostAddress) (remotePort : UInt16) (proto' : UInt8) (addr : HostAddress)
    (port : UInt16) :
    makeFlowKey proto localAddr localPort remoteAddr remotePort ≠ makeLocalKey proto' addr port := by
  intro h
  have hlen := congrArg List.length h
  simp only [makeFlowKey, makeLocalKey, List.length_cons, List.length_append, length_bigEndian] at hlen
  have hlocal := localAddr.length_bytes
  have hremote := remoteAddr.length_bytes
  have haddr := addr.length_bytes
  omega

end SockDiag

end Qiftop.Backend
