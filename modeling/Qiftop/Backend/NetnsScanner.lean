import Qiftop.Backend.SockDiagResolver

/-!
# Backend — the processes of other network namespaces

`backend/linux/NetnsScanner.cpp`.  A tick lists the processes, groups them by network namespace, dumps
the sockets of each namespace and notes which process holds which socket; the tables of the namespaces
are merged into one.  Lookups are those of the host's resolver, on the merged tables.

A tick reads the world through the listing of `/proc` and the dump of each namespace, which is `none`
for a namespace that cannot be entered.  The order of the listing is that of the directory.
-/

namespace Qiftop.Backend
open Lib SockDiag

/-- A process as the listing finds it. -/
structure ListedProcess where
  pid : Int32
  netns : Option UInt64
  startTime : Option UInt64
  /-- The inodes of the sockets it holds. -/
  sockets : List UInt64
  deriving DecidableEq, Repr

structure NetnsPid where
  pid : Int32
  startTime : UInt64
  sockets : List UInt64
  deriving DecidableEq, Repr

structure NetnsBucket where
  inode : UInt64
  pids : List NetnsPid
  deriving DecidableEq, Repr

structure NetnsScanner where
  ready : Bool := true
  keyToInode : SocketTable := {}
  inodeToPid : Hash UInt64 PidStamp := ∅

namespace NetnsScanner

def kMaxNetnsesPerTick : ℕ := 256

/-! ### Grouping by namespace -/

/-- A process joins the group of its namespace; a new group is opened while there is room. -/
def join (netnses : List NetnsBucket) (ino : UInt64) (entry : NetnsPid) : List NetnsBucket :=
  if netnses.any fun b => b.inode = ino then
    netnses.map fun b => if b.inode = ino then { b with pids := b.pids ++ [entry] } else b
  else if netnses.length ≥ kMaxNetnsesPerTick then netnses
  else netnses ++ [⟨ino, [entry]⟩]

/-- One entry of the listing.  The scanner's own namespace is left to the host's resolver. -/
def group (anchorInode : UInt64) (netnses : List NetnsBucket) (p : ListedProcess) : List NetnsBucket :=
  if p.pid ≤ 0 then netnses
  else
    match p.netns with
    | none => netnses
    | some ino =>
        if ino = anchorInode then netnses
        else join netnses ino ⟨p.pid, p.startTime.getD 0, p.sockets⟩

/-! ### One namespace -/

/-- The sockets of one process. -/
def noteSockets (out : Hash UInt64 PidStamp) (entry : NetnsPid) : Hash UInt64 PidStamp :=
  entry.sockets.foldl (fun out inode => out.insert inode ⟨entry.pid, entry.startTime⟩) out

/-- `buildInodeToPidForNetns`; once the table is full nothing more is noted. -/
def buildInodeToPidForNetns (ns : NetnsBucket) : Hash UInt64 PidStamp :=
  ns.pids.foldl (fun out entry =>
    if out.keys.length ≥ kMaxSocketEntries then out
    else if entry.pid ≤ 0 then out
    else noteSockets out entry) ∅

/-- One entry of a namespace's table is merged: if it is a local key with an owner or a mark, or another
key with an owner. -/
def mergeKey (nsInodeToPid : Hash UInt64 PidStamp) (outKey : SocketTable) (key : QByteArray)
    (inode : UInt64) : SocketTable :=
  if h : outKey.Full key then outKey
  else if isLocalKey key then
    if isAmbiguousLocalInode inode || decide (inode ∈ nsInodeToPid) then insertLocalKey outKey key inode
    else outKey
  else if inode ∈ nsInodeToPid then outKey.insert key inode h
  else outKey

def mergeInode (outInode : Hash UInt64 PidStamp) (inode : UInt64) (stamp : PidStamp) :
    Hash UInt64 PidStamp :=
  if outInode.keys.length ≥ kMaxSocketEntries then outInode else outInode.insert inode stamp

/-- `scanOneNetns`, with the tables merged so far. -/
def scanOneNetns (dump : UInt64 → Option SocketTable) (merged : SocketTable × Hash UInt64 PidStamp)
    (ns : NetnsBucket) : SocketTable × Hash UInt64 PidStamp :=
  match dump ns.inode with
  | none => merged
  | some nsKeyToInode =>
      let nsInodeToPid := buildInodeToPidForNetns ns
      (nsKeyToInode.map.entries.foldl (fun out e => mergeKey nsInodeToPid out e.1 e.2) merged.1,
        nsInodeToPid.entries.foldl (fun out e => mergeInode out e.1 e.2) merged.2)

/-- A tick, with the listing in the order of the directory. -/
def tick (anchorInode : UInt64) (dump : UInt64 → Option SocketTable) (listing : List ListedProcess) :
    NetnsScanner :=
  let netnses := listing.foldl (group anchorInode) []
  let merged := netnses.foldl (scanOneNetns dump) ({}, ∅)
  { keyToInode := merged.1, inodeToPid := merged.2 }

/-! ### Lookups -/

/-- The entry of a flow, after the fallback for UDP. -/
def findSocket (s : NetnsScanner) (proto : UInt8) (key : QByteArray) (flow : SockFlow) :
    Option UInt64 :=
  let itSock := s.keyToInode.lookup key
  if itSock.isNone && decide (proto = IPPROTO_UDP) then
    let v6 := flow.localAddress.isIPv6
    let anyAddr := if v6 then HostAddress.AnyIPv6 else .AnyIPv4
    let itWildcard := s.keyToInode.lookup (makeLocalKey proto anyAddr flow.localPort)
    match s.keyToInode.lookup (makeLocalKey proto flow.localAddress flow.localPort) with
    | some l =>
        match itWildcard with
        | some w => if isAmbiguousLocalInode w || decide (w ≠ l) then none else some l
        | none => some l
    | none => itWildcard
  else itSock

def resolvePid (s : NetnsScanner) (pidStartTime : Int32 → Option UInt64) (flow : SockFlow) : Int32 :=
  if !s.ready then 0
  else
    let proto := if flow.proto = .Tcp then IPPROTO_TCP else if flow.proto = .Udp then IPPROTO_UDP else 0
    if proto = 0 then 0
    else
      let key := makeFlowKey proto flow.localAddress flow.localPort flow.remoteAddress flow.remotePort
      match s.findSocket proto key flow with
      | none => 0
      | some inode =>
          if isAmbiguousLocalInode inode then 0
          else
            match s.inodeToPid.lookup inode with
            | none => 0
            | some itPid =>
                match pidStartTime itPid.pid with
                | none => 0
                | some stNow => if stNow ≠ itPid.startTime then 0 else itPid.pid

end NetnsScanner

/-! ### What the two lookups have in common -/

/-- The number of a flow's protocol, 0 when it is not looked up. -/
def SockFlow.number (flow : SockFlow) : UInt8 :=
  if flow.proto = .Tcp then IPPROTO_TCP else if flow.proto = .Udp then IPPROTO_UDP else 0

def SockFlow.flowKey (flow : SockFlow) : QByteArray :=
  makeFlowKey flow.number flow.localAddress flow.localPort flow.remoteAddress flow.remotePort

def SockFlow.localKey (flow : SockFlow) : QByteArray :=
  makeLocalKey flow.number flow.localAddress flow.localPort

def SockFlow.wildcardKey (flow : SockFlow) : QByteArray :=
  makeLocalKey flow.number (if flow.localAddress.isIPv6 then .AnyIPv6 else .AnyIPv4) flow.localPort

namespace SockFlow
variable {flow : SockFlow}

theorem number_eq_udp_iff : flow.number = IPPROTO_UDP ↔ flow.proto = .Udp := by
  unfold number
  cases flow.proto <;> decide

/-- Only TCP and UDP flows are looked up. -/
theorem number_ne_zero_iff : flow.number ≠ 0 ↔ flow.proto = .Tcp ∨ flow.proto = .Udp := by
  unfold number
  cases flow.proto <;> decide

/-- The key of a flow that is looked up is none of a local end. -/
theorem isLocalKey_flowKey (h : flow.proto = .Tcp ∨ flow.proto = .Udp) :
    isLocalKey flow.flowKey = false := by
  unfold flowKey number
  rcases h with h | h
  · rw [h]
    rfl
  · rw [h]
    rfl

theorem isLocalKey_localKey (flow : SockFlow) : isLocalKey flow.localKey = true := rfl

theorem isLocalKey_wildcardKey (flow : SockFlow) : isLocalKey flow.wildcardKey = true := rfl

end SockFlow

theorem findSocket_alike (ready : Bool) (t : SocketTable) (inodeToPid : Hash UInt64 PidStamp)
    (proto : UInt8) (flow : SockFlow) :
    SockDiagResolver.findSocket ⟨ready, t, inodeToPid⟩ proto flow =
      NetnsScanner.findSocket ⟨ready, t, inodeToPid⟩ proto (makeFlowKey proto flow.localAddress
        flow.localPort flow.remoteAddress flow.remotePort) flow := by
  unfold SockDiagResolver.findSocket NetnsScanner.findSocket
  dsimp only
  cases t.lookup (makeFlowKey proto flow.localAddress flow.localPort flow.remoteAddress
    flow.remotePort) with
  | some inode => rfl
  | none =>
      generalize t.lookup (makeLocalKey proto flow.localAddress flow.localPort) = itLocal
      generalize t.lookup (makeLocalKey proto (if flow.localAddress.isIPv6 then HostAddress.AnyIPv6
        else HostAddress.AnyIPv4) flow.localPort) = itWildcard
      by_cases hudp : proto = IPPROTO_UDP
      · rw [if_pos hudp, decide_eq_true hudp, Option.isNone_none, Bool.and_self, if_pos rfl]
        cases itLocal with
        | none => rfl
        | some l => cases itWildcard <;> rfl
      · rw [if_neg hudp, decide_eq_false hudp]
        rfl

/-- The two resolvers answer alike from the same tables. -/
theorem resolvePid_alike (ready : Bool) (t : SocketTable) (inodeToPid : Hash UInt64 PidStamp)
    (pidStartTime : Int32 → Option UInt64) (flow : SockFlow) :
    SockDiagResolver.resolvePid ⟨ready, t, inodeToPid⟩ pidStartTime flow =
      NetnsScanner.resolvePid ⟨ready, t, inodeToPid⟩ pidStartTime flow := by
  unfold SockDiagResolver.resolvePid NetnsScanner.resolvePid
  dsimp only
  exact findSocket_alike ready t inodeToPid _ flow ▸ rfl

/-- The process noted for a socket, if its start time is still the one noted. -/
def heldBy (inodeToPid : Hash UInt64 PidStamp) (pidStartTime : Int32 → Option UInt64)
    (inode : UInt64) : Int32 :=
  if inode = kAmbiguousLocalInode then 0
  else
    match inodeToPid.lookup inode with
    | none => 0
    | some stamp => if pidStartTime stamp.pid = some stamp.startTime then stamp.pid else 0

theorem heldBy_pos {inodeToPid : Hash UInt64 PidStamp} {pidStartTime : Int32 → Option UInt64}
    {inode : UInt64} (h : 0 < heldBy inodeToPid pidStartTime inode) :
    inode ≠ kAmbiguousLocalInode ∧ ∃ stamp, inodeToPid.lookup inode = some stamp ∧
      heldBy inodeToPid pidStartTime inode = stamp.pid := by
  have hzero : ¬ (0 : Int32) < 0 := by decide
  unfold heldBy at h ⊢
  split at h
  · exact absurd h hzero
  · next hmark =>
      rw [if_neg hmark]
      split at h
      · exact absurd h hzero
      · next stamp hstamp =>
          split at h
          · next hnow => exact ⟨hmark, stamp, hstamp, by rw [if_pos hnow]⟩
          · exact absurd h hzero

/-- A lookup finds a socket and answers with the process noted for it. -/
theorem NetnsScanner.resolvePid_eq (s : NetnsScanner) (pidStartTime : Int32 → Option UInt64)
    (flow : SockFlow) :
    s.resolvePid pidStartTime flow =
      if s.ready = true ∧ flow.number ≠ 0 then
        (s.findSocket flow.number flow.flowKey flow).elim 0 (heldBy s.inodeToPid pidStartTime)
      else 0 := by
  unfold resolvePid
  dsimp only
  rw [← SockFlow.number, ← SockFlow.flowKey]
  cases s.ready with
  | false => rfl
  | true =>
      rw [Bool.not_true, if_neg Bool.false_ne_true]
      by_cases hproto : flow.number = 0
      · rw [if_pos hproto, if_neg fun h => h.2 hproto]
      · rw [if_neg hproto, if_pos ⟨rfl, hproto⟩]
        cases s.findSocket flow.number flow.flowKey flow with
        | none => rfl
        | some inode =>
            unfold heldBy isAmbiguousLocalInode
            simp only [decide_eq_true_eq, Option.elim_some]
            split
            · rfl
            · split
              · rfl
              · next stamp _ =>
                  cases hnow : pidStartTime stamp.pid with
                  | none => rfl
                  | some stNow =>
                      by_cases heq : stNow = stamp.startTime
                      · simp [heq]
                      · simp [heq]

namespace NetnsScanner
variable {s : NetnsScanner} {flow : SockFlow}

/-- An entry of its own decides. -/
theorem findSocket_exact {i : UInt64} (h : s.keyToInode.lookup flow.flowKey = some i) :
    s.findSocket flow.number flow.flowKey flow = some i := by
  rw [findSocket, h]
  rfl

/-- The socket of the local end, which no wildcard contradicts, or else of the wildcard. -/
def fallback (itLocal itWildcard : Option UInt64) : Option UInt64 :=
  match itLocal with
  | some l =>
      match itWildcard with
      | some w => if w = kAmbiguousLocalInode ∨ w ≠ l then none else some l
      | none => some l
  | none => itWildcard

theorem fallback_eq_some_iff {itLocal itWildcard : Option UInt64} {i : UInt64}
    (hi : i ≠ kAmbiguousLocalInode) :
    fallback itLocal itWildcard = some i ↔
      itLocal = some i ∧ (itWildcard = none ∨ itWildcard = some i) ∨
        itLocal = none ∧ itWildcard = some i := by
  unfold fallback
  cases itLocal with
  | none => simp
  | some l =>
      cases itWildcard with
      | none => simp
      | some w =>
          dsimp only
          split
          · next hdisagree =>
              refine iff_of_false nofun ?_
              rintro (⟨hl, hnone | hw⟩ | ⟨hnone, -⟩)
              · cases hnone
              · cases hl
                cases hw
                rcases hdisagree with hmark | hne
                · exact hi hmark
                · exact hne rfl
              · cases hnone
          · next hagree =>
              obtain ⟨-, hwl⟩ := not_or.mp hagree
              simp [not_not.mp hwl]

/-- Without an entry of its own, a UDP flow is found by its local end. -/
theorem findSocket_of_none (h : s.keyToInode.lookup flow.flowKey = none) :
    s.findSocket flow.number flow.flowKey flow =
      if flow.number = IPPROTO_UDP then
        fallback (s.keyToInode.lookup flow.localKey) (s.keyToInode.lookup flow.wildcardKey)
      else none := by
  unfold findSocket
  dsimp only
  rw [h, ← SockFlow.localKey, ← SockFlow.wildcardKey]
  by_cases hudp : flow.number = IPPROTO_UDP
  · rw [if_pos hudp, decide_eq_true hudp, Option.isNone_none, Bool.and_self, if_pos rfl]
    unfold fallback
    cases s.keyToInode.lookup flow.localKey with
    | none => rfl
    | some l =>
        cases s.keyToInode.lookup flow.wildcardKey with
        | none => rfl
        | some w => simp [isAmbiguousLocalInode]
  · rw [if_neg hudp, decide_eq_false hudp]
    rfl

end NetnsScanner

end Qiftop.Backend
