import Qiftop.Lib.Hash
import Qiftop.Backend.BsdFlowKey

/-!
# Backend — sockets and their processes on the BSDs

`backend/bsd/BsdSocketResolver.cpp`, with `flowKeyLocal` of `backend/bsd/BsdFlowKey.h`.  From tables of the
kernel the resolver makes two of its own, of the sockets by both ends and by the local end only: on NetBSD it
joins the sockets with their owners, on FreeBSD it asks each process for its sockets.  A flow is looked up by
both ends first.

* `flowKeyLocal_inj`: a local key tells the protocol and the end.
* `lookup_answers`: a flow gets the process of a socket with its two ends; only when there is none, that of a
  socket with its local end; and none when there is none.
-/

namespace Qiftop.Backend.Bsd
open Lib Qt

/-! ### Local keys -/

def flowKeyLocal (proto : L4Proto) («local» : Endpoint) : QString :=
  arg (arg (arg "%1|%2.%3".toList (number proto.toNat)) local.address.toString) (number local.port.toNat)

section Keys
variable {proto proto' : L4Proto} {l l' r : Endpoint}

theorem flowKeyLocal_eq (hl : PlainAddress l.address) : flowKeyLocal proto l =
    [proto.digit, '|'] ++ (l.address.toString ++ '.' :: number l.port.toNat) := by
  have hproto : '%' ∉ [proto.digit, '|'] := by cases proto <;> decide
  have h₁ : arg "%1|%2.%3".toList [proto.digit] = [proto.digit, '|'] ++ "%2.%3".toList := rfl
  have h₂ : arg "%2.%3".toList l.address.toString = l.address.toString ++ ".%3".toList := rfl
  have h₃ : arg ".%3".toList (number l.port.toNat) = '.' :: (number l.port.toNat ++ []) := rfl
  rw [flowKeyLocal, number_proto, h₁, arg_append hproto, h₂, arg_append hproto, arg_append hl.percent_notMem,
    h₃, List.append_nil]

/-- A key of both ends starts with that of the local end. -/
theorem flowKeyExact_eq_append (hl : PlainAddress l.address) (hr : PlainAddress r.address) :
    flowKeyExact proto l r =
      flowKeyLocal proto l ++ '|' :: (r.address.toString ++ '.' :: number r.port.toNat) := by
  rw [flowKeyExact_eq hl hr, flowKeyLocal_eq hl]
  simp [endsText]

/-- A local key tells the protocol and the end. -/
theorem flowKeyLocal_inj (hl : PlainAddress l.address) (hl' : PlainAddress l'.address)
    (h : flowKeyLocal proto l = flowKeyLocal proto' l') :
    proto = proto' ∧ l.address.toString = l'.address.toString ∧ l.port = l'.port := by
  have hr : PlainAddress (⟨ipv4Address 0, 0⟩ : Endpoint).address := plainAddress_ipv4 0
  have hexact : flowKeyExact proto l ⟨ipv4Address 0, 0⟩ = flowKeyExact proto' l' ⟨ipv4Address 0, 0⟩ := by
    rw [flowKeyExact_eq_append hl hr, flowKeyExact_eq_append hl' hr, h]
  obtain ⟨hproto, htext, hport, -⟩ := flowKeyExact_inj hl hr hl' hr hexact
  exact ⟨hproto, htext, hport⟩

end Keys

/-! ### The two tables -/

structure Attribution where
  process : ProcessInfo := {}
  container : ContainerInfo := {}
  deriving DecidableEq, Repr

/-- A socket whose owner is known. -/
structure SocketRecord where
  proto : L4Proto
  «local» : Endpoint
  remote : Endpoint
  attr : Attribution

structure BsdSocketResolver where
  exactMap : Hash QString Attribution := ∅
  localMap : Hash QString Attribution := ∅

/-- The socket has another end. -/
def SocketRecord.connected (x : SocketRecord) : Bool := !x.remote.address.isNull && x.remote.port != 0

/-- A socket entered in the tables: the last one of both ends, the first one of a local end. -/
def BsdSocketResolver.stamp (s : BsdSocketResolver) (x : SocketRecord) : BsdSocketResolver :=
  if x.local.address.isNull then s
  else
    let lk := flowKeyLocal x.proto x.local
    { exactMap := if x.connected then s.exactMap.insert (flowKeyExact x.proto x.local x.remote) x.attr
        else s.exactMap
      localMap := if lk ∈ s.localMap then s.localMap else s.localMap.insert lk x.attr }

def stampAll (sockets : List SocketRecord) : BsdSocketResolver := sockets.foldl BsdSocketResolver.stamp {}

def BsdSocketResolver.lookup (s : BsdSocketResolver) (proto : L4Proto) («local» remote : Endpoint) :
    Attribution :=
  match s.exactMap.lookup (flowKeyExact proto «local» remote) with
  | some attr => attr
  | none => (s.localMap.lookup (flowKeyLocal proto «local»)).getD {}

/-! ### What the kernel says -/

/-- A socket address; other families have none. -/
inductive Sockaddr where
  | none
  | inet (addr : UInt32) (port : UInt16)
  | inet6 (addr : BitVec 128) (port : UInt16)

def endpointFromSockaddr (v6 : IPv6Text) : Sockaddr → Endpoint
  | .none => {}
  | .inet addr port => ⟨ipv4Address addr, port⟩
  | .inet6 addr port => ⟨ipv6Address v6 addr, port⟩

namespace NetBSD

structure KinfoFile where
  isSocket : Bool
  fdata : UInt64
  pid : Int32

structure KinfoPcb where
  proto : L4Proto
  sockaddr : UInt64
  src : Sockaddr
  dst : Sockaddr

def buildPidInfo (procs : List ProcessInfo) : Hash Int32 ProcessInfo := Hash.indexBy ProcessInfo.pid procs

def buildSocketPid (files : List KinfoFile) : Hash UInt64 Int32 :=
  files.foldl (fun out f => if !f.isSocket || f.fdata == 0 || f.pid == 0 then out else out.insert f.fdata f.pid)
    ∅

/-- The sockets whose owner is known, in the order of the lists. -/
def sockets (v6 : IPv6Text) (procs : List ProcessInfo) (files : List KinfoFile) (pcbs : List KinfoPcb) :
    List SocketRecord :=
  pcbs.filterMap fun pcb =>
    ((buildSocketPid files).lookup pcb.sockaddr).bind fun pid =>
      ((buildPidInfo procs).lookup pid).map fun info =>
        ⟨pcb.proto, endpointFromSockaddr v6 pcb.src, endpointFromSockaddr v6 pcb.dst, ⟨info, {}⟩⟩

def refresh (v6 : IPv6Text) (procs : List ProcessInfo) (files : List KinfoFile) (pcbs : List KinfoPcb) :
    BsdSocketResolver := stampAll (sockets v6 procs files pcbs)

end NetBSD

namespace FreeBSD

structure KinfoProc where
  pid : Int32
  ruid : UInt32
  comm : QString
  jid : Int32

structure KinfoFile where
  isSocket : Bool
  isInet : Bool
  proto : Option L4Proto
  «local» : Sockaddr
  peer : Sockaddr

def attributionOf (jailNames : Hash Int32 QString) (kp : KinfoProc) : Attribution where
  process := { pid := kp.pid, uid := kp.ruid, comm := kp.comm }
  container := if kp.jid > 0 then
    ⟨"jail".toList, number kp.jid.toInt.toNat, (jailNames.lookup kp.jid).getD []⟩ else {}

def pidAttr (jails : List (Int32 × QString)) (procs : List KinfoProc) : Hash Int32 Attribution :=
  Hash.insertAll KinfoProc.pid (attributionOf (Hash.insertAll Prod.fst Prod.snd jails ∅)) procs ∅

def socketOf (v6 : IPv6Text) (attr : Attribution) (kf : KinfoFile) : Option SocketRecord :=
  if !kf.isSocket || !kf.isInet then none
  else kf.proto.map fun proto =>
    ⟨proto, endpointFromSockaddr v6 kf.local, endpointFromSockaddr v6 kf.peer, attr⟩

/-- The sockets of the processes, which come in the order of a hash. -/
def sockets (v6 : IPv6Text) (pids : Hash.Iteration (Σ _ : Int32, Attribution))
    (jails : List (Int32 × QString)) (procs : List KinfoProc) (files : Int32 → List KinfoFile) :
    List SocketRecord :=
  (pids.order (pidAttr jails procs).entries).flatMap fun e => (files e.1).filterMap (socketOf v6 e.2)

def refresh (v6 : IPv6Text) (pids : Hash.Iteration (Σ _ : Int32, Attribution))
    (jails : List (Int32 × QString)) (procs : List KinfoProc) (files : Int32 → List KinfoFile) :
    BsdSocketResolver := stampAll (sockets v6 pids jails procs files)

end FreeBSD

/-! ### What a lookup finds -/

namespace SocketRecord

/-- A socket of the flow's local end. -/
def OfLocal (proto : L4Proto) (l : Endpoint) (x : SocketRecord) : Prop :=
  x.local.address.isNull = false ∧ x.proto = proto ∧ x.local.address.toString = l.address.toString ∧
    x.local.port = l.port

/-- A socket of the flow's two ends. -/
def OfFlow (proto : L4Proto) (l r : Endpoint) (x : SocketRecord) : Prop :=
  x.OfLocal proto l ∧ x.connected = true ∧ x.remote.address.toString = r.address.toString ∧
    x.remote.port = r.port

/-- Its ends are addresses of the kernel. -/
structure Plain (x : SocketRecord) : Prop where
  «local» : PlainAddress x.local.address
  remote : PlainAddress x.remote.address

end SocketRecord

/-- What a flow may be answered, by the sockets there are. -/
def Answers (sockets : List SocketRecord) (proto : L4Proto) (l r : Endpoint) (a : Attribution) : Prop :=
  (∃ x ∈ sockets, x.OfFlow proto l r ∧ a = x.attr) ∨
    (∀ x ∈ sockets, ¬ x.OfFlow proto l r) ∧
      ((∃ x ∈ sockets, x.OfLocal proto l ∧ a = x.attr) ∨ (∀ x ∈ sockets, ¬ x.OfLocal proto l) ∧ a = {})

theorem stampAll_concat (sockets : List SocketRecord) (x : SocketRecord) :
    stampAll (sockets ++ [x]) = (stampAll sockets).stamp x := by
  simp [stampAll]

/-- The table of both ends has the last socket of a key. -/
theorem lookup_exactMap (sockets : List SocketRecord) (key : QString) :
    (stampAll sockets).exactMap.lookup key = (sockets.reverse.find? fun x =>
      !x.local.address.isNull && x.connected && flowKeyExact x.proto x.local x.remote == key).map
        SocketRecord.attr := by
  induction sockets using List.reverseRecOn with
  | nil => rfl
  | append_singleton sockets x ih =>
      rw [stampAll_concat, List.reverse_append, List.reverse_singleton, List.singleton_append,
        List.find?_cons, BsdSocketResolver.stamp]
      cases hnull : x.local.address.isNull with
      | true => simpa using ih
      | false =>
          cases hconnected : x.connected with
          | false => simpa using ih
          | true =>
              by_cases hkey : flowKeyExact x.proto x.local x.remote = key
              · simp [hkey]
              · have hother : (flowKeyExact x.proto x.local x.remote == key) = false :=
                  beq_eq_false_iff_ne.mpr hkey
                simpa [hother, Hash.lookup_insert_ite, Ne.symm hkey] using ih

/-- The table of local ends has the first socket of a key. -/
theorem lookup_localMap (sockets : List SocketRecord) (key : QString) :
    (stampAll sockets).localMap.lookup key = (sockets.find? fun x =>
      !x.local.address.isNull && flowKeyLocal x.proto x.local == key).map SocketRecord.attr := by
  induction sockets using List.reverseRecOn with
  | nil => rfl
  | append_singleton sockets x ih =>
      rw [stampAll_concat, List.find?_append, BsdSocketResolver.stamp]
      cases hnull : x.local.address.isNull with
      | true => simpa [hnull] using ih
      | false =>
          by_cases hkey : flowKeyLocal x.proto x.local = key
          · subst hkey
            cases hfound : (stampAll sockets).localMap.lookup (flowKeyLocal x.proto x.local) with
            | none =>
                rw [hfound, eq_comm, Option.map_eq_none_iff] at ih
                simp [hnull, AList.lookup_eq_none.mp hfound, ih]
            | some attr =>
                rw [hfound, eq_comm, Option.map_eq_some_iff] at ih
                obtain ⟨y, hy, hattr⟩ := ih
                simp [Hash.mem_of_lookup hfound, hfound, hy, hattr]
          · rw [if_neg Bool.false_ne_true]
            have hother : (if flowKeyLocal x.proto x.local ∈ (stampAll sockets).localMap then
                (stampAll sockets).localMap else
                (stampAll sockets).localMap.insert (flowKeyLocal x.proto x.local) x.attr).lookup key =
                  (stampAll sockets).localMap.lookup key := by
              split
              · rfl
              · rw [Hash.lookup_insert_ite, if_neg (Ne.symm hkey)]
            rw [hother, ih]
            simp [hkey]

section Lookup
variable {sockets : List SocketRecord} {proto : L4Proto} {l r : Endpoint} {x : SocketRecord}

theorem ofLocal_iff (hx : x.Plain) (hl : PlainAddress l.address) :
    x.OfLocal proto l ↔
      (!x.local.address.isNull && flowKeyLocal x.proto x.local == flowKeyLocal proto l) = true := by
  rw [Bool.and_eq_true, Bool.not_eq_true', beq_iff_eq]
  constructor
  · rintro ⟨hnull, hproto, htext, hport⟩
    exact ⟨hnull, by rw [flowKeyLocal_eq hx.local, flowKeyLocal_eq hl, hproto, htext, hport]⟩
  · rintro ⟨hnull, hkey⟩
    exact ⟨hnull, flowKeyLocal_inj hx.local hl hkey⟩

theorem ofFlow_iff (hx : x.Plain) (hl : PlainAddress l.address) (hr : PlainAddress r.address) :
    x.OfFlow proto l r ↔ (!x.local.address.isNull && x.connected &&
      flowKeyExact x.proto x.local x.remote == flowKeyExact proto l r) = true := by
  rw [Bool.and_eq_true, Bool.and_eq_true, Bool.not_eq_true', beq_iff_eq]
  constructor
  · rintro ⟨⟨hnull, hproto, htext, hport⟩, hconnected, hrtext, hrport⟩
    refine ⟨⟨hnull, hconnected⟩, ?_⟩
    rw [flowKeyExact_eq hx.local hx.remote, flowKeyExact_eq hl hr, hproto, htext, hport, hrtext, hrport]
  · rintro ⟨⟨hnull, hconnected⟩, hkey⟩
    obtain ⟨hproto, htext, hport, hrtext, hrport⟩ := flowKeyExact_inj hx.local hx.remote hl hr hkey
    exact ⟨⟨hnull, hproto, htext, hport⟩, hconnected, hrtext, hrport⟩

/-- **A lookup** answers with a socket of the flow, failing that with one of its local end, failing that with
nothing. -/
theorem lookup_answers (hsockets : ∀ x ∈ sockets, x.Plain) (hl : PlainAddress l.address)
    (hr : PlainAddress r.address) : Answers sockets proto l r ((stampAll sockets).lookup proto l r) := by
  unfold BsdSocketResolver.lookup
  rw [lookup_exactMap, lookup_localMap]
  cases hexact : sockets.reverse.find? fun x =>
      !x.local.address.isNull && x.connected && flowKeyExact x.proto x.local x.remote ==
        flowKeyExact proto l r with
  | some x =>
      have hx : x ∈ sockets := List.mem_reverse.mp (List.mem_of_find?_eq_some hexact)
      have hkey := List.find?_some hexact
      exact .inl ⟨x, hx, (ofFlow_iff (hsockets x hx) hl hr).mpr hkey, rfl⟩
  | none =>
      have hnoFlow : ∀ x ∈ sockets, ¬ x.OfFlow proto l r := by
        intro x hx hflow
        exact List.find?_eq_none.mp hexact x (List.mem_reverse.mpr hx)
          ((ofFlow_iff (hsockets x hx) hl hr).mp hflow)
      refine .inr ⟨hnoFlow, ?_⟩
      cases hlocal : sockets.find? fun x =>
          !x.local.address.isNull && flowKeyLocal x.proto x.local == flowKeyLocal proto l with
      | some x =>
          have hx : x ∈ sockets := List.mem_of_find?_eq_some hlocal
          have hkey := List.find?_some hlocal
          exact .inl ⟨x, hx, (ofLocal_iff (hsockets x hx) hl).mpr hkey, rfl⟩
      | none =>
          refine .inr ⟨fun x hx hofLocal => ?_, rfl⟩
          exact List.find?_eq_none.mp hlocal x hx ((ofLocal_iff (hsockets x hx) hl).mp hofLocal)

end Lookup

/-! ### The sockets there are -/

theorem plainAddress_sockaddr (v6 : IPv6Text) (sa : Sockaddr) :
    PlainAddress (endpointFromSockaddr v6 sa).address := by
  cases sa with
  | none => exact fun c hc => absurd hc List.not_mem_nil
  | inet addr port => exact plainAddress_ipv4 addr
  | inet6 addr port => exact plainAddress_ipv6 v6 addr

theorem NetBSD.sockets_plain (v6 : IPv6Text) (procs : List ProcessInfo) (files : List KinfoFile)
    (pcbs : List KinfoPcb) : ∀ x ∈ sockets v6 procs files pcbs, x.Plain := by
  intro x hx
  obtain ⟨pcb, -, hpcb⟩ := List.mem_filterMap.mp hx
  obtain ⟨pid, -, hpid⟩ := Option.bind_eq_some_iff.mp hpcb
  obtain ⟨info, -, rfl⟩ := Option.map_eq_some_iff.mp hpid
  exact ⟨plainAddress_sockaddr v6 _, plainAddress_sockaddr v6 _⟩

theorem FreeBSD.sockets_plain (v6 : IPv6Text) (pids : Hash.Iteration (Σ _ : Int32, Attribution))
    (jails : List (Int32 × QString)) (procs : List KinfoProc) (files : Int32 → List KinfoFile) :
    ∀ x ∈ sockets v6 pids jails procs files, x.Plain := by
  intro x hx
  obtain ⟨e, -, he⟩ := List.mem_flatMap.mp hx
  obtain ⟨kf, -, hkf⟩ := List.mem_filterMap.mp he
  unfold socketOf at hkf
  split at hkf
  · cases hkf
  · obtain ⟨proto, -, rfl⟩ := Option.map_eq_some_iff.mp hkf
    exact ⟨plainAddress_sockaddr v6 _, plainAddress_sockaddr v6 _⟩

end Qiftop.Backend.Bsd
