import Qiftop.Backend.NetnsMerge

/-!
# Backend — the order of a scan

No order is promised for the listing of processes, so lookups after a tick should not depend on it:
`World.OrderIndependent`.  Local keys are merged so that they do not.  Flow keys and sockets are not:
the last namespace and the last process win.

`orderIndependent_iff_oneProcess`: below the caps, lookups do not depend on the order exactly when, for
every flow, all processes that hold a socket the flow leads to are one.  In one direction whatever wins
is that process.  In the other, any process can be made to win: its namespace is listed last, and in it
the process last.
-/

namespace Qiftop.Backend
open Lib SockDiag NetnsScanner

/-- What a tick finds. -/
structure World where
  anchorInode : UInt64
  processes : List ListedProcess
  dump : UInt64 → Option SocketTable
  pids_nodup : (processes.map ListedProcess.pid).Nodup
  /-- Flow keys are entered with the inode of a socket; see `parseChunks_real`. -/
  inodes : ∀ ns t, dump ns = some t → t.Real

namespace World
variable (w : World)

/-! ### What should hold, and when it does -/

/-- The scanner after a tick over the processes in some order. -/
def scan (listing : List ListedProcess) : NetnsScanner := tick w.anchorInode w.dump listing

def OrderIndependent : Prop :=
  ∀ l l', l.Perm w.processes → l'.Perm w.processes → ∀ pidStartTime flow,
    (w.scan l).resolvePid pidStartTime flow = (w.scan l').resolvePid pidStartTime flow

/-- The sockets of scanned processes. -/
def heldInodes : Finset UInt64 :=
  ((w.processes.filter fun p => (nsOf w.anchorInode p).isSome).flatMap ListedProcess.sockets).toFinset

/-- The keys of all namespaces. -/
def allKeys : Finset QByteArray :=
  (order w.anchorInode w.processes).toFinset.biUnion fun ns =>
    (w.dump ns).elim ∅ fun t => t.map.keys.toFinset

structure BelowCaps : Prop where
  netnses : (order w.anchorInode w.processes).length ≤ kMaxNetnsesPerTick
  inodes : w.heldInodes.card < kMaxSocketEntries
  keys : w.allKeys.card ≤ kMaxSocketEntries

/-- A process of the namespace holds the socket. -/
def HeldIn (ns : UInt64) (i : UInt64) : Prop :=
  ∃ p ∈ w.processes, nsOf w.anchorInode p = some ns ∧ i ∈ p.sockets

/-- The process holds the socket, in a namespace that could be entered. -/
def Holds (i : UInt64) (p : ListedProcess) : Prop :=
  p ∈ w.processes ∧ ∃ ns, nsOf w.anchorInode p = some ns ∧ (w.dump ns).isSome = true ∧ i ∈ p.sockets

/-- The key is bound to the socket in a namespace of which a process holds it. -/
def Owned (key : QByteArray) (ns i : UInt64) : Prop :=
  ∃ t, w.dump ns = some t ∧ t.lookup key = some i ∧ w.HeldIn ns i

/-- The local key is bound to such a socket, or marked, in a namespace with processes. -/
def Offered (key : QByteArray) (ns i : UInt64) : Prop :=
  ns ∈ order w.anchorInode w.processes ∧ ∃ t, w.dump ns = some t ∧ t.lookup key = some i ∧
    (i = kAmbiguousLocalInode ∨ w.HeldIn ns i)

/-- All namespaces with an offer under the local key offer this socket. -/
def Agrees (key : QByteArray) (i : UInt64) : Prop :=
  i ≠ kAmbiguousLocalInode ∧ (∃ ns, w.Offered key ns i) ∧ ∀ ns j, w.Offered key ns j → j = i

def Silent (key : QByteArray) : Prop := ∀ ns j, ¬ w.Offered key ns j

/-- The sockets a flow leads to: by its own key; else, for UDP, by its local end, which no wildcard
contradicts, or by the wildcard. -/
inductive LeadsTo (flow : SockFlow) (i : UInt64) : Prop where
  | own {ns : UInt64} (h : w.Owned flow.flowKey ns i)
  | localEnd (hudp : flow.proto = .Udp) (hnone : ∀ ns j, ¬ w.Owned flow.flowKey ns j)
      (hlocal : w.Agrees flow.localKey i)
      (hwildcard : w.Silent flow.wildcardKey ∨ w.Agrees flow.wildcardKey i)
  | wildcard (hudp : flow.proto = .Udp) (hnone : ∀ ns j, ¬ w.Owned flow.flowKey ns j)
      (hlocal : w.Silent flow.localKey) (hwildcard : w.Agrees flow.wildcardKey i)

/-- All processes that hold a socket the flow leads to are one. -/
def OneProcess : Prop :=
  ∀ flow, flow.proto = .Tcp ∨ flow.proto = .Udp → ∀ i j p q, w.LeadsTo flow i → w.LeadsTo flow j →
    w.Holds i p → w.Holds j q → p = q

/-! ### The tables of a scan -/

section Scan
variable {w}

theorem pos_of_nsOf {anchorInode ns : UInt64} {p : ListedProcess} (h : nsOf anchorInode p = some ns) :
    0 < p.pid := by
  unfold nsOf at h
  split at h
  · cases h
  · next hpos => exact Int32.not_le.mp hpos

variable {l : List ListedProcess} (hl : l.Perm w.processes)
include hl

/-- The namespaces are the same in every order. -/
theorem order_perm : (order w.anchorInode l).Perm (order w.anchorInode w.processes) := by
  rw [List.perm_ext_iff_of_nodup (nodup_order _ l) (nodup_order _ _)]
  intro ns
  rw [mem_order, mem_order]
  simp only [hl.mem_iff]

theorem fits_bucketOf (ns : UInt64) : Fits w.heldInodes (bucketOf w.anchorInode l ns) := by
  intro e he
  obtain ⟨p, hp, rfl⟩ := List.mem_map.mp he
  obtain ⟨hmem, hns⟩ := List.mem_filter.mp hp
  have hns := of_decide_eq_true hns
  refine ⟨pos_of_nsOf hns, fun i hi => ?_⟩
  rw [heldInodes, List.mem_toFinset, List.mem_flatMap]
  exact ⟨p, List.mem_filter.mpr ⟨hl.mem_iff.mp hmem, by rw [hns]; rfl⟩, hi⟩

theorem mem_build_bucketOf (hcaps : w.BelowCaps) {ns i : UInt64} :
    i ∈ buildInodeToPidForNetns (bucketOf w.anchorInode l ns) ↔ w.HeldIn ns i := by
  rw [mem_build hcaps.inodes (fits_bucketOf hl ns)]
  constructor
  · rintro ⟨e, he, hi⟩
    obtain ⟨p, hp, rfl⟩ := List.mem_map.mp he
    obtain ⟨hmem, hns⟩ := List.mem_filter.mp hp
    exact ⟨p, hl.mem_iff.mp hmem, of_decide_eq_true hns, hi⟩
  · rintro ⟨p, hp, hns, hi⟩
    exact ⟨entryOf p, List.mem_map_of_mem
      (List.mem_filter.mpr ⟨hl.mem_iff.mpr hp, decide_eq_true hns⟩), hi⟩

theorem ownOf_eq_some_iff (hcaps : w.BelowCaps) {key : QByteArray} {ns i : UInt64} :
    ownOf w.dump key (bucketOf w.anchorInode l ns) = some i ↔ w.Owned key ns i := by
  unfold ownOf offered Owned
  simp only [Option.bind_eq_some_iff, Option.filter_eq_some_iff, decide_eq_true_eq,
    mem_build_bucketOf hl hcaps]
  rfl

theorem writeOf_eq_some_iff (hcaps : w.BelowCaps) {key : QByteArray} {ns i : UInt64}
    (hns : ns ∈ order w.anchorInode w.processes) :
    writeOf w.dump key (bucketOf w.anchorInode l ns) = some i ↔ w.Offered key ns i := by
  unfold writeOf offeredLocal Offered
  simp only [Option.bind_eq_some_iff, Option.filter_eq_some_iff, decide_eq_true_eq,
    mem_build_bucketOf hl hcaps, hns, true_and]
  rfl

theorem merged_scan (hcaps : w.BelowCaps) :
    Merged w.dump w.heldInodes w.allKeys
      ((order w.anchorInode l).map (bucketOf w.anchorInode l))
      ((w.scan l).keyToInode, (w.scan l).inodeToPid) := by
  have hlen : (order w.anchorInode l).length ≤ kMaxNetnsesPerTick := by
    rw [(order_perm hl).length_eq]
    exact hcaps.netnses
  unfold scan tick
  rw [foldl_group w.anchorInode hlen]
  refine merged_foldl hcaps.inodes hcaps.keys (fun g hg => ?_) fun g hg t ht k hk => ?_
  · obtain ⟨ns, -, rfl⟩ := List.mem_map.mp hg
    exact fits_bucketOf hl ns
  · obtain ⟨ns, hns, rfl⟩ := List.mem_map.mp hg
    have ht : w.dump ns = some t := ht
    rw [allKeys, Finset.mem_biUnion]
    refine ⟨ns, List.mem_toFinset.mpr ((order_perm hl).mem_iff.mp hns), ?_⟩
    rw [ht]
    exact List.mem_toFinset.mpr (AList.mem_keys.mpr hk)

variable (hcaps : w.BelowCaps)
include hcaps

theorem lookup_flow_some {k : QByteArray} (hk : isLocalKey k = false) {i : UInt64}
    (h : (w.scan l).keyToInode.lookup k = some i) : ∃ ns, w.Owned k ns i := by
  rw [(merged_scan hl hcaps).flow k hk] at h
  obtain ⟨g, hg, hown⟩ := List.exists_of_findSome?_eq_some h
  obtain ⟨ns, -, rfl⟩ := List.mem_map.mp (List.mem_reverse.mp hg)
  exact ⟨ns, (ownOf_eq_some_iff hl hcaps).mp hown⟩

theorem lookup_flow_none {k : QByteArray} (hk : isLocalKey k = false) :
    (w.scan l).keyToInode.lookup k = none ↔ ∀ ns i, ¬ w.Owned k ns i := by
  rw [(merged_scan hl hcaps).flow k hk, List.findSome?_eq_none_iff]
  constructor
  · intro h ns i howned
    obtain ⟨t, -, -, p, hp, hns, -⟩ := id howned
    have hmem : ns ∈ order w.anchorInode l :=
      (mem_order _).mpr ⟨p, hl.mem_iff.mpr hp, hns⟩
    have hnone := h _ (List.mem_reverse.mpr (List.mem_map_of_mem hmem))
    rw [(ownOf_eq_some_iff hl hcaps).mpr howned] at hnone
    cases hnone
  · intro h g hg
    obtain ⟨ns, -, rfl⟩ := List.mem_map.mp (List.mem_reverse.mp hg)
    rw [Option.eq_none_iff_forall_ne_some]
    exact fun i hi => h ns i ((ownOf_eq_some_iff hl hcaps).mp hi)

/-- What the namespaces have to say under a local key. -/
theorem mem_writes {k : QByteArray} {i : UInt64} :
    i ∈ ((order w.anchorInode l).map (bucketOf w.anchorInode l)).filterMap (writeOf w.dump k) ↔
      ∃ ns, w.Offered k ns i := by
  simp only [List.mem_filterMap, List.mem_map]
  constructor
  · rintro ⟨_, ⟨ns, hns, rfl⟩, hi⟩
    exact ⟨ns, (writeOf_eq_some_iff hl hcaps ((order_perm hl).mem_iff.mp hns)).mp hi⟩
  · rintro ⟨ns, hoffered⟩
    exact ⟨_, ⟨ns, (order_perm hl).mem_iff.mpr hoffered.1, rfl⟩,
      (writeOf_eq_some_iff hl hcaps hoffered.1).mpr hoffered⟩

theorem lookup_local_some {k : QByteArray} (hk : isLocalKey k = true) {i : UInt64}
    (hi : i ≠ kAmbiguousLocalInode) :
    (w.scan l).keyToInode.lookup k = some i ↔ w.Agrees k i := by
  rw [(merged_scan hl hcaps).local k hk, agreed_eq_some_iff hi]
  simp only [mem_writes hl hcaps]
  constructor
  · rintro ⟨hsome, hall⟩
    exact ⟨hi, hsome, fun ns j hj => hall j ⟨ns, hj⟩⟩
  · rintro ⟨-, hsome, hall⟩
    exact ⟨hsome, fun j ⟨ns, hj⟩ => hall ns j hj⟩

theorem lookup_local_none {k : QByteArray} (hk : isLocalKey k = true) :
    (w.scan l).keyToInode.lookup k = none ↔ w.Silent k := by
  rw [(merged_scan hl hcaps).local k hk, agreed_eq_none_iff, List.eq_nil_iff_forall_not_mem]
  simp only [mem_writes hl hcaps]
  exact ⟨fun h ns j hj => h j ⟨ns, hj⟩, fun h j ⟨ns, hj⟩ => h ns j hj⟩

/-- A socket is noted with a process that holds it. -/
theorem lookup_inode_some {i : UInt64} {stamp : PidStamp}
    (h : (w.scan l).inodeToPid.lookup i = some stamp) : ∃ p, w.Holds i p ∧ stamp = stampOf p := by
  rw [(merged_scan hl hcaps).inode i] at h
  obtain ⟨g, hg, hnote⟩ := List.exists_of_findSome?_eq_some h
  obtain ⟨ns, -, rfl⟩ := List.mem_map.mp (List.mem_reverse.mp hg)
  obtain ⟨t, ht, hnote⟩ := Option.bind_eq_some_iff.mp hnote
  rw [lookup_build hcaps.inodes (fits_bucketOf hl ns)] at hnote
  obtain ⟨e, he, rfl⟩ := Option.map_eq_some_iff.mp hnote
  obtain ⟨p, hp, rfl⟩ := List.mem_map.mp (List.mem_reverse.mp (List.mem_of_find?_eq_some he))
  obtain ⟨hmem, hns⟩ := List.mem_filter.mp hp
  have ht : w.dump ns = some t := ht
  refine ⟨p, ⟨hl.mem_iff.mp hmem, ns, of_decide_eq_true hns, by rw [ht]; rfl, ?_⟩, rfl⟩
  have hfound := List.find?_some he
  exact of_decide_eq_true hfound

theorem lookup_inode_ne_none {i : UInt64} {p : ListedProcess} (h : w.Holds i p) :
    (w.scan l).inodeToPid.lookup i ≠ none := by
  obtain ⟨hp, ns, hns, hdump, hi⟩ := h
  rw [(merged_scan hl hcaps).inode i, Ne, List.findSome?_eq_none_iff]
  intro hnone
  have hmem : ns ∈ order w.anchorInode l := (mem_order _).mpr ⟨p, hl.mem_iff.mpr hp, hns⟩
  have hnote := hnone _ (List.mem_reverse.mpr (List.mem_map_of_mem hmem))
  obtain ⟨t, ht⟩ := Option.isSome_iff_exists.mp hdump
  have hinode : (bucketOf w.anchorInode l ns).inode = ns := rfl
  rw [noteOf, hinode, ht, Option.bind_some, AList.lookup_eq_none, mem_build_bucketOf hl hcaps] at hnote
  exact hnote ⟨p, hp, hns, hi⟩

end Scan

/-! ### Listings with a last process -/

/-- A namespace that is listed after all others comes last. -/
theorem order_append {anchorInode ns : UInt64} {front back : List ListedProcess}
    (hback : ∀ q ∈ back, nsOf anchorInode q = some ns) (hne : back ≠ [])
    (hnew : ns ∉ order anchorInode front) :
    order anchorInode (front ++ back) = order anchorInode front ++ [ns] := by
  induction back using List.reverseRecOn with
  | nil => exact absurd rfl hne
  | append_singleton back q ih =>
      have hq := hback q (List.mem_append_right _ (List.mem_singleton_self q))
      rw [← List.append_assoc, order_concat, appear, hq, Option.elim_some]
      by_cases hback' : back = []
      · rw [hback', List.append_nil, if_neg hnew]
      · rw [ih (fun q' hq' => hback q' (List.mem_append_left _ hq')) hback', if_pos]
        exact List.mem_append_right _ (List.mem_singleton_self ns)

/-- Any scanned process can be listed last, with its namespace last. -/
theorem exists_listed_last {p : ListedProcess} (hp : p ∈ w.processes) {ns : UInt64}
    (hns : nsOf w.anchorInode p = some ns) :
    ∃ front, (front ++ [p]).Perm w.processes ∧
      ∃ first, order w.anchorInode (front ++ [p]) = first ++ [ns] := by
  have hmine : p ∈ w.processes.filter fun q => nsOf w.anchorInode q = some ns :=
    List.mem_filter.mpr ⟨hp, decide_eq_true hns⟩
  refine ⟨(w.processes.filter fun q => !decide (nsOf w.anchorInode q = some ns)) ++
    (w.processes.filter fun q => nsOf w.anchorInode q = some ns).erase p, ?_,
    order w.anchorInode (w.processes.filter fun q => !decide (nsOf w.anchorInode q = some ns)), ?_⟩
  · have hback := (List.perm_append_singleton p _).trans (List.perm_cons_erase hmine).symm
    rw [List.append_assoc]
    exact ((List.Perm.append_left _ hback).trans List.perm_append_comm).trans
      (List.filter_append_perm _ _)
  · rw [List.append_assoc]
    refine order_append (fun q hq => ?_) (by simp) fun hmem => ?_
    · rcases List.mem_append.mp hq with hq | hq
      · exact of_decide_eq_true (List.mem_filter.mp (List.mem_of_mem_erase hq)).2
      · rw [List.mem_singleton.mp hq]
        exact hns
    · obtain ⟨q, hq, hqns⟩ := (mem_order _).mp hmem
      have hother := (List.mem_filter.mp hq).2
      rw [hqns, decide_eq_true rfl] at hother
      cases hother

section Last
variable {w} {front : List ListedProcess} {p : ListedProcess} {ns : UInt64} {first : List UInt64}
  (hfirst : order w.anchorInode (front ++ [p]) = first ++ [ns])
include hfirst

theorem groups_reverse :
    ((order w.anchorInode (front ++ [p])).map (bucketOf w.anchorInode (front ++ [p]))).reverse =
      bucketOf w.anchorInode (front ++ [p]) ns ::
        (first.map (bucketOf w.anchorInode (front ++ [p]))).reverse := by
  rw [hfirst, List.map_append, List.reverse_append]
  rfl

variable (hl : (front ++ [p]).Perm w.processes) (hcaps : w.BelowCaps)
include hl hcaps

/-- The last namespace wins its flow keys. -/
theorem lookup_flow_last {k : QByteArray} (hk : isLocalKey k = false) {i : UInt64}
    (h : w.Owned k ns i) : (w.scan (front ++ [p])).keyToInode.lookup k = some i := by
  rw [(merged_scan hl hcaps).flow k hk, groups_reverse hfirst, List.findSome?_cons,
    (ownOf_eq_some_iff hl hcaps).mpr h]

/-- The last process wins its sockets. -/
theorem lookup_inode_last (hns : nsOf w.anchorInode p = some ns) {i : UInt64} (h : w.Holds i p) :
    (w.scan (front ++ [p])).inodeToPid.lookup i = some (stampOf p) := by
  obtain ⟨-, ns', hns', hdump, hi⟩ := h
  obtain rfl := Option.some.inj (hns.symm.trans hns')
  obtain ⟨t, ht⟩ := Option.isSome_iff_exists.mp hdump
  have hinode : (bucketOf w.anchorInode (front ++ [p]) ns).inode = ns := rfl
  have hpids : (bucketOf w.anchorInode (front ++ [p]) ns).pids =
      (bucketOf w.anchorInode front ns).pids ++ [entryOf p] := by
    rw [bucketOf_concat, if_pos hns]
  have hmine : decide (i ∈ (entryOf p).sockets) = true := decide_eq_true hi
  rw [(merged_scan hl hcaps).inode i, groups_reverse hfirst, List.findSome?_cons, noteOf, hinode,
    ht, Option.bind_some, lookup_build hcaps.inodes (fits_bucketOf hl ns), hpids, List.reverse_append,
    List.reverse_singleton, List.singleton_append, List.find?_cons, hmine]
  rfl

end Last

/-! ### What a scan answers -/

/-- What a lookup answers that is led to this process. -/
def answer (pidStartTime : Int32 → Option UInt64) (p : ListedProcess) : Int32 :=
  if pidStartTime p.pid = some (stampOf p).startTime then p.pid else 0

/-- The flow leads to a socket that is noted with this process. -/
def LeadsToProcess (s : NetnsScanner) (flow : SockFlow) (p : ListedProcess) : Prop :=
  ∃ i, i ≠ kAmbiguousLocalInode ∧ s.findSocket flow.number flow.flowKey flow = some i ∧
    s.inodeToPid.lookup i = some (stampOf p)

section Answers
variable {w} {flow : SockFlow} (hflow : flow.proto = .Tcp ∨ flow.proto = .Udp)

include hflow in
theorem resolvePid_eq_answer {listing : List ListedProcess} {p : ListedProcess}
    (h : LeadsToProcess (w.scan listing) flow p) (pidStartTime : Int32 → Option UInt64) :
    (w.scan listing).resolvePid pidStartTime flow = answer pidStartTime p := by
  obtain ⟨i, hi, hfound, hnoted⟩ := h
  rw [resolvePid_eq, if_pos ⟨rfl, SockFlow.number_ne_zero_iff.mpr hflow⟩, hfound, Option.elim_some,
    heldBy, if_neg hi, hnoted]
  rfl

/-- An answer that depends on the process tells it. -/
theorem answer_inj {p q : ListedProcess} (hp : p ∈ w.processes) (hq : q ∈ w.processes)
    (hpos : 0 < p.pid) (h : ∀ pidStartTime, answer pidStartTime p = answer pidStartTime q) : p = q := by
  -- only the first process is alive
  have halive := h fun pid => if pid = p.pid then some (stampOf p).startTime else none
  unfold answer at halive
  rw [if_pos (if_pos rfl)] at halive
  split at halive
  · exact List.inj_on_of_nodup_map w.pids_nodup hp hq halive
  · rw [halive] at hpos
    exact absurd hpos (by decide)

theorem Owned.exists_holds {key : QByteArray} {ns i : UInt64} (h : w.Owned key ns i) :
    ∃ p, nsOf w.anchorInode p = some ns ∧ w.Holds i p := by
  obtain ⟨t, ht, -, p, hp, hns, hi⟩ := h
  exact ⟨p, hns, hp, ns, hns, by rw [ht]; rfl, hi⟩

theorem LeadsTo.ne_mark {i : UInt64} (h : w.LeadsTo flow i)
    (hflow : flow.proto = .Tcp ∨ flow.proto = .Udp) : i ≠ kAmbiguousLocalInode := by
  cases h with
  | own h =>
      obtain ⟨t, ht, hkey, -⟩ := h
      rintro rfl
      exact w.inodes _ t ht _ (SockFlow.isLocalKey_flowKey hflow) hkey
  | localEnd _ _ hlocal _ => exact hlocal.1
  | wildcard _ _ _ hwildcard => exact hwildcard.1

variable {l : List ListedProcess} (hl : l.Perm w.processes) (hcaps : w.BelowCaps)
include hflow hl hcaps

/-- A flow with an owner is found by its own key. -/
theorem findSocket_owned {ns i : UInt64} (h : w.Owned flow.flowKey ns i) :
    ∃ ns' j, w.Owned flow.flowKey ns' j ∧
      (w.scan l).findSocket flow.number flow.flowKey flow = some j := by
  have hkey := SockFlow.isLocalKey_flowKey hflow
  cases hlookup : (w.scan l).keyToInode.lookup flow.flowKey with
  | none => exact absurd h ((lookup_flow_none hl hcaps hkey).mp hlookup ns i)
  | some j =>
      obtain ⟨ns', howned⟩ := lookup_flow_some hl hcaps hkey hlookup
      exact ⟨ns', j, howned, findSocket_exact hlookup⟩

/-- Without one, it is found by its local end. -/
theorem findSocket_eq_some_iff (hnone : ∀ ns j, ¬ w.Owned flow.flowKey ns j) {i : UInt64}
    (hi : i ≠ kAmbiguousLocalInode) :
    (w.scan l).findSocket flow.number flow.flowKey flow = some i ↔ w.LeadsTo flow i := by
  have hlookup := (lookup_flow_none hl hcaps (SockFlow.isLocalKey_flowKey hflow)).mpr hnone
  have hlocal := flow.isLocalKey_localKey
  have hwildcard := flow.isLocalKey_wildcardKey
  rw [findSocket_of_none hlookup]
  by_cases hudp : flow.proto = .Udp
  · rw [if_pos (SockFlow.number_eq_udp_iff.mpr hudp), fallback_eq_some_iff hi,
      lookup_local_some hl hcaps hlocal hi, lookup_local_some hl hcaps hwildcard hi,
      lookup_local_none hl hcaps hlocal, lookup_local_none hl hcaps hwildcard]
    constructor
    · rintro (⟨hagrees, hrest⟩ | ⟨hsilent, hagrees⟩)
      · exact .localEnd hudp hnone hagrees hrest
      · exact .wildcard hudp hnone hsilent hagrees
    · rintro (howned | ⟨_, _, hagrees, hrest⟩ | ⟨_, _, hsilent, hagrees⟩)
      · exact absurd howned (hnone _ i)
      · exact .inl ⟨hagrees, hrest⟩
      · exact .inr ⟨hsilent, hagrees⟩
  · rw [if_neg fun h => hudp (SockFlow.number_eq_udp_iff.mp h)]
    refine iff_of_false nofun ?_
    rintro (howned | ⟨h, _, _, _⟩ | ⟨h, _, _, _⟩)
    · exact hnone _ i howned
    · exact hudp h
    · exact hudp h

/-- What is found is a socket the flow leads to. -/
theorem leadsTo_of_findSocket {i : UInt64} (hi : i ≠ kAmbiguousLocalInode)
    (h : (w.scan l).findSocket flow.number flow.flowKey flow = some i) : w.LeadsTo flow i := by
  by_cases howned : ∃ ns j, w.Owned flow.flowKey ns j
  · obtain ⟨ns, j, howned⟩ := howned
    obtain ⟨ns', j', howned', hfound⟩ := findSocket_owned hflow hl hcaps howned
    obtain rfl := Option.some.inj (h.symm.trans hfound)
    exact .own howned'
  · push Not at howned
    exact (findSocket_eq_some_iff hflow hl hcaps howned hi).mp h

/-- A socket with a process is noted with one. -/
theorem leadsToProcess_of_holds {i : UInt64} {p : ListedProcess} (hi : w.LeadsTo flow i)
    (hfound : (w.scan l).findSocket flow.number flow.flowKey flow = some i) (hp : w.Holds i p) :
    ∃ q, w.Holds i q ∧ LeadsToProcess (w.scan l) flow q := by
  obtain ⟨stamp, hstamp⟩ := Option.ne_none_iff_exists'.mp (lookup_inode_ne_none hl hcaps hp)
  obtain ⟨q, hq, rfl⟩ := lookup_inode_some hl hcaps hstamp
  exact ⟨q, hq, i, hi.ne_mark hflow, hfound, hstamp⟩

/-- Of the processes a flow leads to, a scan answers with one. -/
theorem exists_leadsToProcess {i : UInt64} {p : ListedProcess} (hi : w.LeadsTo flow i)
    (hp : w.Holds i p) :
    ∃ j q, w.LeadsTo flow j ∧ w.Holds j q ∧ LeadsToProcess (w.scan l) flow q := by
  by_cases howned : ∃ ns j, w.Owned flow.flowKey ns j
  · obtain ⟨ns, j, howned⟩ := howned
    obtain ⟨ns', j', howned', hfound⟩ := findSocket_owned hflow hl hcaps howned
    obtain ⟨p', -, hp'⟩ := howned'.exists_holds
    obtain ⟨q, hq, hleads⟩ := leadsToProcess_of_holds hflow hl hcaps (.own howned') hfound hp'
    exact ⟨j', q, .own howned', hq, hleads⟩
  · push Not at howned
    have hfound := (findSocket_eq_some_iff hflow hl hcaps howned (hi.ne_mark hflow)).mpr hi
    obtain ⟨q, hq, hleads⟩ := leadsToProcess_of_holds hflow hl hcaps hi hfound hp
    exact ⟨i, q, hi, hq, hleads⟩

/-- Without such a process the answer is none. -/
theorem resolvePid_eq_zero (h : ∀ i p, w.LeadsTo flow i → ¬ w.Holds i p)
    (pidStartTime : Int32 → Option UInt64) : (w.scan l).resolvePid pidStartTime flow = 0 := by
  rw [resolvePid_eq, if_pos ⟨rfl, SockFlow.number_ne_zero_iff.mpr hflow⟩]
  cases hfound : (w.scan l).findSocket flow.number flow.flowKey flow with
  | none => rfl
  | some i =>
      rw [Option.elim_some, heldBy]
      split
      · rfl
      · next hi =>
          have hleads := leadsTo_of_findSocket hflow hl hcaps hi hfound
          cases hlookup : (w.scan l).inodeToPid.lookup i with
          | none => rfl
          | some stamp =>
              obtain ⟨p, hp, -⟩ := lookup_inode_some hl hcaps hlookup
              exact absurd hp (h i p hleads)

end Answers

/-! ### When the order does not matter -/

section Order
variable {w} (hcaps : w.BelowCaps) {flow : SockFlow} (hflow : flow.proto = .Tcp ∨ flow.proto = .Udp)

include hcaps in
/-- Whatever wins is the one process. -/
theorem OneProcess.orderIndependent (h : w.OneProcess) : w.OrderIndependent := by
  intro l l' hl hl' pidStartTime flow
  by_cases hflow : flow.proto = .Tcp ∨ flow.proto = .Udp
  · by_cases hsome : ∃ i p, w.LeadsTo flow i ∧ w.Holds i p
    · obtain ⟨i, p, hi, hp⟩ := hsome
      obtain ⟨j, q, hj, hq, hleads⟩ := exists_leadsToProcess hflow hl hcaps hi hp
      obtain ⟨j', q', hj', hq', hleads'⟩ := exists_leadsToProcess hflow hl' hcaps hi hp
      rw [resolvePid_eq_answer hflow hleads, resolvePid_eq_answer hflow hleads',
        h flow hflow j j' q q' hj hj' hq hq']
    · have hnone : ∀ i p, w.LeadsTo flow i → ¬ w.Holds i p :=
        fun i p hi hp => hsome ⟨i, p, hi, hp⟩
      rw [resolvePid_eq_zero hflow hl hcaps hnone, resolvePid_eq_zero hflow hl' hcaps hnone]
  · have hnumber : ¬ flow.number ≠ 0 := fun h => hflow (SockFlow.number_ne_zero_iff.mp h)
    rw [resolvePid_eq, resolvePid_eq, if_neg fun h => hnumber h.2, if_neg fun h => hnumber h.2]

/-- In some order the flow leads to this process. -/
def Wins (w : World) (flow : SockFlow) (p : ListedProcess) : Prop :=
  (p ∈ w.processes ∧ 0 < p.pid) ∧ ∃ l, l.Perm w.processes ∧ LeadsToProcess (w.scan l) flow p

include hflow in
theorem OrderIndependent.wins_unique (h : w.OrderIndependent) {p q : ListedProcess}
    (hp : w.Wins flow p) (hq : w.Wins flow q) : p = q := by
  obtain ⟨⟨hmem, hpos⟩, l, hl, hleads⟩ := hp
  obtain ⟨⟨hmem', -⟩, l', hl', hleads'⟩ := hq
  refine answer_inj hmem hmem' hpos fun pidStartTime => ?_
  rw [← resolvePid_eq_answer hflow hleads, h l l' hl hl', resolvePid_eq_answer hflow hleads']

include hcaps

/-- Listed last, a process wins the sockets that the flow leads to in this order. -/
theorem wins_of_last {i : UInt64} {p : ListedProcess} (hp : w.Holds i p) (hi : i ≠ kAmbiguousLocalInode)
    {ns : UInt64} (hns : nsOf w.anchorInode p = some ns)
    (hfound : ∀ front first, (front ++ [p]).Perm w.processes →
      order w.anchorInode (front ++ [p]) = first ++ [ns] →
      (w.scan (front ++ [p])).findSocket flow.number flow.flowKey flow = some i) :
    w.Wins flow p := by
  obtain ⟨front, hl, first, hfirst⟩ := exists_listed_last w hp.1 hns
  exact ⟨⟨hp.1, pos_of_nsOf hns⟩, _, hl, i, hi, hfound front first hl hfirst,
    lookup_inode_last hfirst hl hcaps hns hp⟩

include hflow

/-- A flow key has one owner: the last namespace wins, whichever it is. -/
theorem OrderIndependent.owned_unique (h : w.OrderIndependent) {ns ns' i i' : UInt64}
    (howned : w.Owned flow.flowKey ns i) (howned' : w.Owned flow.flowKey ns' i') : i = i' := by
  have hkey := SockFlow.isLocalKey_flowKey hflow
  have hwins : ∀ {ns i} {p : ListedProcess}, w.Owned flow.flowKey ns i →
      nsOf w.anchorInode p = some ns → w.Holds i p → w.Wins flow p :=
    fun howned hns hp => wins_of_last hcaps hp (LeadsTo.ne_mark (.own howned) hflow) hns
      fun _ _ hl hfirst => findSocket_exact (lookup_flow_last hfirst hl hcaps hkey howned)
  obtain ⟨p, hns, hp⟩ := howned.exists_holds
  obtain ⟨p', hns', hp'⟩ := howned'.exists_holds
  obtain rfl := h.wins_unique hflow (hwins howned hns hp) (hwins howned' hns' hp')
  obtain rfl := Option.some.inj (hns.symm.trans hns')
  obtain ⟨t, ht, hlookup, -⟩ := howned
  obtain ⟨t', ht', hlookup', -⟩ := howned'
  obtain rfl := Option.some.inj (ht.symm.trans ht')
  exact Option.some.inj (hlookup.symm.trans hlookup')

/-- So every process that holds a socket of the flow can win. -/
theorem OrderIndependent.wins (h : w.OrderIndependent) {i : UInt64} {p : ListedProcess}
    (hi : w.LeadsTo flow i) (hp : w.Holds i p) : w.Wins flow p := by
  obtain ⟨ns, hns, -⟩ := hp.2
  refine wins_of_last hcaps hp (hi.ne_mark hflow) hns fun front first hl _ => ?_
  by_cases howned : ∃ ns j, w.Owned flow.flowKey ns j
  · obtain ⟨ns', j, howned⟩ := howned
    obtain ⟨ns'', k, howned', hfound⟩ := findSocket_owned hflow hl hcaps howned
    have hik : i = k := by
      cases hi with
      | own hmine => exact h.owned_unique hcaps hflow hmine howned'
      | localEnd _ hnone _ _ => exact absurd howned (hnone ns' j)
      | wildcard _ hnone _ _ => exact absurd howned (hnone ns' j)
    rw [hfound, hik]
  · push Not at howned
    exact (findSocket_eq_some_iff hflow hl hcaps howned (hi.ne_mark hflow)).mpr hi

end Order

/-- **When the order of a scan matters.**  Lookups do not depend on it exactly when no flow leads to the
sockets of two processes. -/
theorem orderIndependent_iff_oneProcess (hcaps : w.BelowCaps) : w.OrderIndependent ↔ w.OneProcess := by
  refine ⟨fun h flow hflow i j p q hi hj hp hq => ?_, OneProcess.orderIndependent hcaps⟩
  exact h.wins_unique hflow (h.wins hcaps hflow hi hp) (h.wins hcaps hflow hj hq)

end World

/-! ### Two containers with the same addresses -/

/-- A connection from 10.0.0.2, port 40000, to port 443 of 10.0.0.1. -/
def containerFlow : SockFlow where
  proto := .Tcp
  localAddress := .v4 0x0a000002
  localPort := 40000
  remoteAddress := .v4 0x0a000001
  remotePort := 443

/-- Its socket, as the dump of a container reports it. -/
def containerSocket (inode : UInt32) : Diag where
  proto := IPPROTO_TCP
  msg := { family := AF_INET, sport := 40000, dport := 443,
           src := [10, 0, 0, 2] ++ List.replicate 12 0, dst := [10, 0, 0, 1] ++ List.replicate 12 0,
           inode := inode }

/-- Two containers with such a connection each.  The process of the first holds its socket, that of the
second these. -/
def twoContainers (sockets : List UInt64) : World where
  anchorInode := 1
  processes := [⟨100, some 2, some 7, [11]⟩, ⟨200, some 3, some 8, sockets⟩]
  dump ns := if ns = 2 then some (index {} (containerSocket 11))
    else if ns = 3 then some (index {} (containerSocket 22)) else none
  pids_nodup := (by decide : ([100, 200] : List Int32).Nodup)
  inodes := by
    have hempty : SocketTable.Real {} := fun _ _ h => by cases h
    intro ns t ht
    split at ht
    · exact Option.some.inj ht ▸ hempty.index _
    · split at ht
      · exact Option.some.inj ht ▸ hempty.index _
      · cases ht

/-- With a socket of its own, the process that is listed last is taken for the owner of both. -/
theorem twoContainers_order_matters : ¬ ∀ w : World, w.BelowCaps → w.OrderIndependent := by
  intro h
  have horder := h (twoContainers [22]) ⟨by decide, by decide, by decide⟩
    (twoContainers [22]).processes (twoContainers [22]).processes.reverse (List.Perm.refl _)
    (List.reverse_perm _) (fun pid => if pid = 100 then some 7 else some 8) containerFlow
  revert horder
  decide

/-- Without one, the order does not matter. -/
theorem twoContainers_order_does_not_matter : (twoContainers []).OrderIndependent := by
  refine (World.orderIndependent_iff_oneProcess _ ⟨by decide, by decide, by decide⟩).mpr ?_
  have hfirst : ∀ i p, (twoContainers []).Holds i p → p = ⟨100, some 2, some 7, [11]⟩ := by
    rintro i p ⟨hp, -, -, -, hi⟩
    rcases List.mem_pair.mp hp with rfl | rfl
    · rfl
    · cases hi
  intro flow _ i j p q _ _ hp hq
  rw [hfirst i p hp, hfirst j q hq]

end Qiftop.Backend
