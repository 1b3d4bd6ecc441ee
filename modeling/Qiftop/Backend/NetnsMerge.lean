import Qiftop.Backend.LocalKeys

/-!
# Backend — what the merged tables hold

A tick reads the processes in the order of the directory, and no order is promised.  This file says what
the merged tables hold after a tick over a listing, in terms of the order in which namespaces first
appear in it (`order`):

* a flow key leads to the socket of the last namespace in which one of its processes holds it;
* a local key leads to what the namespaces agree on, in any order;
* a socket leads to the last process that holds it, of the last namespace with such a process.
-/

namespace Qiftop.Backend.NetnsScanner
open Lib SockDiag

/-! ### Groups -/

section Groups
variable (anchorInode : UInt64)

/-- The namespace a process is scanned in. -/
def nsOf (p : ListedProcess) : Option UInt64 :=
  if p.pid ≤ 0 then none
  else
    match p.netns with
    | none => none
    | some ino => if ino = anchorInode then none else some ino

def entryOf (p : ListedProcess) : NetnsPid := ⟨p.pid, p.startTime.getD 0, p.sockets⟩

def stampOf (p : ListedProcess) : PidStamp := ⟨p.pid, p.startTime.getD 0⟩

theorem group_eq (netnses : List NetnsBucket) (p : ListedProcess) :
    group anchorInode netnses p =
      (nsOf anchorInode p).elim netnses fun ino => join netnses ino (entryOf p) := by
  unfold group nsOf
  by_cases hpid : p.pid ≤ 0
  · rw [if_pos hpid, if_pos hpid]
    rfl
  · rw [if_neg hpid, if_neg hpid]
    cases p.netns with
    | none => rfl
    | some ino =>
        dsimp only
        split <;> rfl

/-- A namespace takes its place when it first appears. -/
def appear (seen : List UInt64) (p : ListedProcess) : List UInt64 :=
  (nsOf anchorInode p).elim seen fun ino => if ino ∈ seen then seen else seen ++ [ino]

/-- The namespaces of a listing, in the order in which they first appear. -/
def order (listing : List ListedProcess) : List UInt64 := listing.foldl (appear anchorInode) []

theorem order_concat (listing : List ListedProcess) (p : ListedProcess) :
    order anchorInode (listing ++ [p]) = appear anchorInode (order anchorInode listing) p :=
  List.foldl_append

theorem mem_order {listing : List ListedProcess} {ns : UInt64} :
    ns ∈ order anchorInode listing ↔ ∃ p ∈ listing, nsOf anchorInode p = some ns := by
  induction listing using List.reverseRecOn with
  | nil => simp [order]
  | append_singleton listing p ih =>
      rw [order_concat, appear]
      cases hp : nsOf anchorInode p with
      | none => simp [ih, hp, or_and_right, exists_or]
      | some ino =>
          simp only [Option.elim_some, List.mem_append, List.mem_singleton, or_and_right, exists_or,
            exists_eq_left, hp, Option.some.injEq, ← ih]
          split
          · next hseen =>
              refine ⟨.inl, ?_⟩
              rintro (h | rfl)
              · exact h
              · exact hseen
          · rw [List.mem_append, List.mem_singleton]
            exact or_congr_right eq_comm

theorem nodup_order (listing : List ListedProcess) : (order anchorInode listing).Nodup := by
  induction listing using List.reverseRecOn with
  | nil => exact List.nodup_nil
  | append_singleton listing p ih =>
      rw [order_concat, appear]
      cases nsOf anchorInode p with
      | none => exact ih
      | some ino =>
          simp only [Option.elim_some]
          split
          · exact ih
          · next hnew =>
              rw [List.nodup_append]
              refine ⟨ih, List.nodup_singleton _, fun a ha b hb => ?_⟩
              rw [List.mem_singleton.mp hb]
              rintro rfl
              exact hnew ha

/-- The processes of a namespace, in the order of the listing. -/
def bucketOf (listing : List ListedProcess) (ns : UInt64) : NetnsBucket :=
  ⟨ns, (listing.filter fun p => nsOf anchorInode p = some ns).map entryOf⟩

theorem bucketOf_concat (listing : List ListedProcess) (p : ListedProcess) (ns : UInt64) :
    bucketOf anchorInode (listing ++ [p]) ns =
      if nsOf anchorInode p = some ns then
        ⟨ns, (bucketOf anchorInode listing ns).pids ++ [entryOf p]⟩
      else bucketOf anchorInode listing ns := by
  unfold bucketOf
  rw [List.filter_append, List.map_append]
  split
  · next hns => simp [hns]
  · next hns => simp [hns]

section Join
variable {listing : List ListedProcess} {p : ListedProcess} {ino : UInt64}
  (hp : nsOf anchorInode p = some ino)
include hp

/-- A process joins the group of its namespace. -/
theorem join_of_mem (hseen : ino ∈ order anchorInode listing) :
    join ((order anchorInode listing).map (bucketOf anchorInode listing)) ino (entryOf p) =
      (order anchorInode listing).map (bucketOf anchorInode (listing ++ [p])) := by
  have hany : ((order anchorInode listing).map (bucketOf anchorInode listing)).any
      (fun b => b.inode = ino) = true := by
    rw [List.any_map, List.any_eq_true]
    exact ⟨ino, hseen, decide_eq_true rfl⟩
  rw [join, if_pos hany, List.map_map]
  refine List.map_congr_left fun ns _ => ?_
  have hinode : (bucketOf anchorInode listing ns).inode = ns := rfl
  rw [bucketOf_concat, hp, Function.comp_apply, hinode]
  by_cases hns : ns = ino
  · rw [if_pos hns, if_pos (by rw [hns])]
  · rw [if_neg hns, if_neg fun h => hns (Option.some.inj h).symm]

/-- A process opens the group of its namespace. -/
theorem join_of_notMem (hnew : ino ∉ order anchorInode listing)
    (hcap : (order anchorInode listing).length < kMaxNetnsesPerTick) :
    join ((order anchorInode listing).map (bucketOf anchorInode listing)) ino (entryOf p) =
      (order anchorInode listing ++ [ino]).map (bucketOf anchorInode (listing ++ [p])) := by
  have hnone : ((order anchorInode listing).map (bucketOf anchorInode listing)).any
      (fun b => b.inode = ino) = false := by
    rw [List.any_map, List.any_eq_false]
    rintro ns hns h
    exact hnew (of_decide_eq_true h ▸ hns)
  have hempty : listing.filter (fun p => nsOf anchorInode p = some ino) = [] := by
    rw [List.filter_eq_nil_iff]
    exact fun q hq h => hnew ((mem_order anchorInode).mpr ⟨q, hq, of_decide_eq_true h⟩)
  have hothers : (order anchorInode listing).map (bucketOf anchorInode (listing ++ [p])) =
      (order anchorInode listing).map (bucketOf anchorInode listing) := by
    refine List.map_congr_left fun ns hns => ?_
    rw [bucketOf_concat, hp, if_neg]
    rintro h
    exact hnew (Option.some.inj h ▸ hns)
  rw [join, hnone, if_neg Bool.false_ne_true, List.length_map, if_neg (not_le.mpr hcap), List.map_append,
    hothers, List.map_singleton, bucketOf_concat, hp, if_pos rfl, bucketOf, hempty]
  rfl

end Join

/-- The groups of a listing with no more namespaces than a tick visits. -/
theorem foldl_group {listing : List ListedProcess}
    (hcap : (order anchorInode listing).length ≤ kMaxNetnsesPerTick) :
    listing.foldl (group anchorInode) [] =
      (order anchorInode listing).map (bucketOf anchorInode listing) := by
  induction listing using List.reverseRecOn with
  | nil => rfl
  | append_singleton listing p ih =>
      rw [List.foldl_append, List.foldl_cons, List.foldl_nil, group_eq]
      rw [order_concat, appear] at hcap ⊢
      cases hp : nsOf anchorInode p with
      | none =>
          rw [hp] at hcap
          rw [ih hcap]
          refine List.map_congr_left fun ns _ => ?_
          rw [bucketOf_concat, hp, if_neg nofun]
      | some ino =>
          rw [hp] at hcap
          simp only [Option.elim_some] at hcap ⊢
          by_cases hseen : ino ∈ order anchorInode listing
          · rw [if_pos hseen] at hcap ⊢
            rw [ih hcap, join_of_mem anchorInode hp hseen]
          · rw [if_neg hseen, List.length_append, List.length_singleton] at hcap
            rw [if_neg hseen, ih (by omega), join_of_notMem anchorInode hp hseen (by omega)]

end Groups

/-! ### The sockets of a namespace's processes -/

theorem lookup_noteSockets (out : Hash UInt64 PidStamp) (entry : NetnsPid) (i : UInt64) :
    (noteSockets out entry).lookup i =
      if i ∈ entry.sockets then some ⟨entry.pid, entry.startTime⟩ else out.lookup i := by
  unfold noteSockets
  induction entry.sockets using List.reverseRecOn with
  | nil => rfl
  | append_singleton sockets inode ih =>
      rw [List.foldl_append, List.foldl_cons, List.foldl_nil, Hash.lookup_insert_ite, ih]
      by_cases hi : i = inode
      · simp [hi]
      · simp [hi]

section Scan
variable {inodes : Finset UInt64} (hinodes : inodes.card < kMaxSocketEntries)
  {keys : Finset QByteArray} (hkeys : keys.card ≤ kMaxSocketEntries)

/-- What the caps ask of a group: its sockets are among these. -/
def Fits (inodes : Finset UInt64) (ns : NetnsBucket) : Prop :=
  ∀ e ∈ ns.pids, 0 < e.pid ∧ ∀ i ∈ e.sockets, i ∈ inodes

include hinodes in
/-- A socket is noted with the last process that holds it. -/
theorem lookup_build {ns : NetnsBucket} (h : Fits inodes ns) (i : UInt64) :
    (buildInodeToPidForNetns ns).lookup i =
      (ns.pids.reverse.find? fun e => i ∈ e.sockets).map fun e => ⟨e.pid, e.startTime⟩ := by
  obtain ⟨ino, pids⟩ := ns
  unfold buildInodeToPidForNetns
  dsimp only [Fits] at h ⊢
  induction pids using List.reverseRecOn generalizing i with
  | nil => rfl
  | append_singleton pids entry ih =>
      have hpids : ∀ e ∈ pids, 0 < e.pid ∧ ∀ i ∈ e.sockets, i ∈ inodes :=
        fun e he => h e (List.mem_append_left _ he)
      obtain ⟨hpos, -⟩ := h entry (List.mem_append_right _ (List.mem_singleton_self entry))
      rw [List.foldl_append, List.foldl_cons, List.foldl_nil, if_neg, if_neg (Int32.not_le.mpr hpos),
        lookup_noteSockets, ih _ hpids, List.reverse_append, List.reverse_singleton,
        List.singleton_append, List.find?_cons]
      · by_cases hi : i ∈ entry.sockets
        · simp [hi]
        · simp [hi]
      · rw [not_le]
        refine lt_of_le_of_lt (Hash.length_keys_le_card fun k hk => ?_) hinodes
        -- what is noted so far is a socket of one of the processes
        obtain ⟨stamp, hstamp⟩ := Hash.exists_lookup hk
        rw [ih _ hpids] at hstamp
        obtain ⟨e, he, -⟩ := Option.map_eq_some_iff.mp hstamp
        exact (hpids e (List.mem_reverse.mp (List.mem_of_find?_eq_some he))).2 k
          (by simpa using List.find?_some he)

include hinodes in
theorem mem_build {ns : NetnsBucket} (h : Fits inodes ns) {i : UInt64} :
    i ∈ buildInodeToPidForNetns ns ↔ ∃ e ∈ ns.pids, i ∈ e.sockets := by
  rw [← AList.lookup_isSome, lookup_build hinodes h, Option.isSome_map, List.find?_isSome]
  simp

/-! ### One namespace -/

theorem lookup_mergeKey (nsInodeToPid : Hash UInt64 PidStamp) {out : SocketTable} {key : QByteArray}
    (h : ¬ out.Full key) (inode : UInt64) (k : QByteArray) :
    (mergeKey nsInodeToPid out key inode).lookup k =
      if k ≠ key then out.lookup k
      else if isLocalKey key then
        if inode = kAmbiguousLocalInode ∨ inode ∈ nsInodeToPid then
          agree kAmbiguousLocalInode (out.lookup k) inode
        else out.lookup k
      else if inode ∈ nsInodeToPid then some inode else out.lookup k := by
  unfold mergeKey isAmbiguousLocalInode
  rw [dif_neg h]
  simp only [Bool.or_eq_true, decide_eq_true_eq]
  by_cases hk : k = key
  · rw [if_neg (not_not.mpr hk)]
    split
    · split
      · rw [lookup_insertLocalKey h, if_pos hk]
      · rfl
    · split
      · rw [SocketTable.lookup_insert, if_pos hk]
      · rfl
  · rw [if_pos hk]
    split
    · split
      · rw [lookup_insertLocalKey h, if_neg hk]
      · rfl
    · split
      · rw [SocketTable.lookup_insert, if_neg hk]
      · rfl

theorem within_mergeKey {nsInodeToPid : Hash UInt64 PidStamp} {out : SocketTable}
    (h : out.Within keys) {key : QByteArray} (hkey : key ∈ keys) (inode : UInt64) :
    (mergeKey nsInodeToPid out key inode).Within keys := by
  unfold mergeKey
  split
  · exact h
  · split
    · split
      · exact h.insertLocalKey hkey inode
      · exact h
    · split
      · exact h.insert hkey inode _
      · exact h

/-- The socket a namespace has to offer under a flow key: one that a process of it holds. -/
def offered (nsInodeToPid : Hash UInt64 PidStamp) (t : SocketTable) (key : QByteArray) : Option UInt64 :=
  (t.lookup key).filter fun i => decide (i ∈ nsInodeToPid)

/-- The same under a local key, where a mark is passed on. -/
def offeredLocal (nsInodeToPid : Hash UInt64 PidStamp) (t : SocketTable) (key : QByteArray) :
    Option UInt64 :=
  (t.lookup key).filter fun i => decide (i = kAmbiguousLocalInode ∨ i ∈ nsInodeToPid)

section Keys
variable (nsInodeToPid : Hash UInt64 PidStamp) {t out : SocketTable} (ht : t.Within keys)
  (hout : out.Within keys)
include ht hout

theorem within_mergeKeys :
    (t.map.entries.foldl (fun out e => mergeKey nsInodeToPid out e.1 e.2) out).Within keys :=
  Hash.foldl_entries_invariant (SocketTable.Within keys) (mergeKey nsInodeToPid) t.map (fun _ e he h =>
    within_mergeKey h (ht e.1 (Hash.mem_of_lookup (Hash.mem_entries_iff.mp he))) e.2) hout

include hkeys in
theorem lookup_mergeKeys (k : QByteArray) :
    (t.map.entries.foldl (fun out e => mergeKey nsInodeToPid out e.1 e.2) out).lookup k =
      if isLocalKey k then
        (offeredLocal nsInodeToPid t k).elim (out.lookup k) (agree kAmbiguousLocalInode (out.lookup k))
      else (offered nsInodeToPid t k).or (out.lookup k) := by
  have hmem : ∀ e ∈ t.map.entries, e.1 ∈ keys := fun e he =>
    ht e.1 (Hash.mem_of_lookup (Hash.mem_entries_iff.mp he))
  have hmerge := Hash.read_foldl_entries (SocketTable.Within keys) (mergeKey nsInodeToPid)
    (fun out => out.lookup k)
    (fun v x => if isLocalKey k then
        if v = kAmbiguousLocalInode ∨ v ∈ nsInodeToPid then agree kAmbiguousLocalInode x v else x
      else if v ∈ nsInodeToPid then some v else x) t.map
    (fun out e he h => within_mergeKey h (hmem e he) e.2)
    (fun out v hv h => by
      have hfull := h.not_full hkeys (ht k (Hash.mem_of_lookup hv))
      rw [lookup_mergeKey nsInodeToPid hfull, if_neg (not_not.mpr rfl)])
    (fun out e he hne h => by
      rw [lookup_mergeKey nsInodeToPid (h.not_full hkeys (hmem e he)), if_pos hne.symm]) hout
  have hlookup : t.lookup k = t.map.lookup k := rfl
  rw [hmerge, offeredLocal, offered, hlookup]
  cases t.map.lookup k with
  | none => simp
  | some v =>
      simp only [Option.elim_some, Option.filter_some, decide_eq_true_eq]
      split
      · split <;> rfl
      · split <;> rfl

end Keys

theorem mem_mergeInode {out : Hash UInt64 PidStamp} (h : ∀ i ∈ out, i ∈ inodes) {inode : UInt64}
    (hinode : inode ∈ inodes) (stamp : PidStamp) : ∀ i ∈ mergeInode out inode stamp, i ∈ inodes := by
  unfold mergeInode
  split
  · exact h
  · intro i hi
    rcases (AList.mem_insert out).mp hi with rfl | hi
    · exact hinode
    · exact h i hi

section Inodes
variable {nsInodeToPid out : Hash UInt64 PidStamp} (hns : ∀ i ∈ nsInodeToPid, i ∈ inodes)
  (hout : ∀ i ∈ out, i ∈ inodes)
include hns hout

theorem mem_mergeInodes :
    ∀ i ∈ nsInodeToPid.entries.foldl (fun out e => mergeInode out e.1 e.2) out, i ∈ inodes :=
  Hash.foldl_entries_invariant (fun out => ∀ i ∈ out, i ∈ inodes) mergeInode nsInodeToPid
    (fun _ e he h => mem_mergeInode h (hns e.1 (Hash.mem_of_lookup (Hash.mem_entries_iff.mp he))) e.2)
    hout

include hinodes in
theorem lookup_mergeInodes (i : UInt64) :
    (nsInodeToPid.entries.foldl (fun out e => mergeInode out e.1 e.2) out).lookup i =
      (nsInodeToPid.lookup i).or (out.lookup i) := by
  have hinsert : ∀ out : Hash UInt64 PidStamp, (∀ i ∈ out, i ∈ inodes) → ∀ inode stamp,
      mergeInode out inode stamp = out.insert inode stamp := fun out h inode stamp =>
    if_neg (not_le.mpr (lt_of_le_of_lt (Hash.length_keys_le_card h) hinodes))
  have hmerge := Hash.read_foldl_entries (fun out => ∀ i ∈ out, i ∈ inodes) mergeInode
    (fun out => out.lookup i) (fun v _ => some v) nsInodeToPid (k := i)
    (fun _ e he h => mem_mergeInode h (hns e.1 (Hash.mem_of_lookup (Hash.mem_entries_iff.mp he))) e.2)
    (fun out v _ h => by rw [hinsert out h, AList.lookup_insert])
    (fun out e _ hne h => by rw [hinsert out h, AList.lookup_insert_ne hne.symm]) hout
  rw [hmerge]
  cases nsInodeToPid.lookup i <;> rfl

end Inodes

/-! ### All namespaces -/

section Tables
variable (dump : UInt64 → Option SocketTable)

/-- What a group offers under a flow key, under a local key and for a socket. -/
def ownOf (key : QByteArray) (ns : NetnsBucket) : Option UInt64 :=
  (dump ns.inode).bind fun t => offered (buildInodeToPidForNetns ns) t key

@[inherit_doc ownOf]
def writeOf (key : QByteArray) (ns : NetnsBucket) : Option UInt64 :=
  (dump ns.inode).bind fun t => offeredLocal (buildInodeToPidForNetns ns) t key

@[inherit_doc ownOf]
def noteOf (i : UInt64) (ns : NetnsBucket) : Option PidStamp :=
  (dump ns.inode).bind fun _ => (buildInodeToPidForNetns ns).lookup i

/-- What the merged tables hold after these groups. -/
structure Merged (inodes : Finset UInt64) (keys : Finset QByteArray) (groups : List NetnsBucket)
    (merged : SocketTable × Hash UInt64 PidStamp) : Prop where
  within : merged.1.Within keys
  noted : ∀ i ∈ merged.2, i ∈ inodes
  flow : ∀ k, isLocalKey k = false → merged.1.lookup k = groups.reverse.findSome? (ownOf dump k)
  «local» : ∀ k, isLocalKey k = true →
    merged.1.lookup k = agreed kAmbiguousLocalInode (groups.filterMap (writeOf dump k))
  inode : ∀ i, merged.2.lookup i = groups.reverse.findSome? (noteOf dump i)

variable {dump}

include hinodes hkeys in
theorem Merged.scanOneNetns {groups : List NetnsBucket} {merged : SocketTable × Hash UInt64 PidStamp}
    (h : Merged dump inodes keys groups merged) {ns : NetnsBucket} (hfits : Fits inodes ns)
    (hdump : ∀ t, dump ns.inode = some t → t.Within keys) :
    Merged dump inodes keys (groups ++ [ns]) (scanOneNetns dump merged ns) := by
  have hreverse : (groups ++ [ns]).reverse = ns :: groups.reverse := by simp
  unfold NetnsScanner.scanOneNetns
  cases ht : dump ns.inode with
  | none =>
      -- a namespace that cannot be dumped adds nothing
      refine ⟨h.within, h.noted, fun k hk => ?_, fun k hk => ?_, fun i => ?_⟩
      · rw [hreverse, List.findSome?_cons, ownOf, ht]
        exact h.flow k hk
      · rw [List.filterMap_append, List.filterMap_cons, writeOf, ht, Option.bind_none,
          List.filterMap_nil, List.append_nil]
        exact h.local k hk
      · rw [hreverse, List.findSome?_cons, noteOf, ht]
        exact h.inode i
  | some t =>
      have hnoted : ∀ i ∈ buildInodeToPidForNetns ns, i ∈ inodes := by
        intro i hi
        obtain ⟨e, he, hie⟩ := (mem_build hinodes hfits).mp hi
        exact (hfits e he).2 i hie
      refine ⟨within_mergeKeys _ (hdump t ht) h.within, mem_mergeInodes hnoted h.noted,
        fun k hk => ?_, fun k hk => ?_, fun i => ?_⟩
      · rw [lookup_mergeKeys hkeys _ (hdump t ht) h.within, if_neg (by rw [hk]; exact Bool.false_ne_true),
          h.flow k hk, hreverse, List.findSome?_cons, ownOf, ht, Option.bind_some]
        cases offered (buildInodeToPidForNetns ns) t k <;> rfl
      · rw [lookup_mergeKeys hkeys _ (hdump t ht) h.within, if_pos hk, h.local k hk,
          List.filterMap_append, List.filterMap_cons, writeOf, ht, Option.bind_some]
        cases offeredLocal (buildInodeToPidForNetns ns) t k with
        | none => simp
        | some v => simp [agreed]
      · rw [lookup_mergeInodes hinodes hnoted h.noted, h.inode i, hreverse, List.findSome?_cons, noteOf,
          ht, Option.bind_some]
        cases (buildInodeToPidForNetns ns).lookup i <;> rfl

include hinodes hkeys in
theorem merged_foldl {groups : List NetnsBucket} (hfits : ∀ ns ∈ groups, Fits inodes ns)
    (hdump : ∀ ns ∈ groups, ∀ t, dump ns.inode = some t → t.Within keys) :
    Merged dump inodes keys groups (groups.foldl (NetnsScanner.scanOneNetns dump) ({}, ∅)) := by
  induction groups using List.reverseRecOn with
  | nil =>
      exact ⟨SocketTable.within_empty keys, fun i hi => absurd hi (AList.notMem_empty i),
        fun _ _ => rfl, fun _ _ => rfl, fun _ => rfl⟩
  | append_singleton groups ns ih =>
      have hlast := List.mem_append_right groups (List.mem_singleton_self ns)
      rw [List.foldl_append, List.foldl_cons, List.foldl_nil]
      exact (ih (fun g hg => hfits g (List.mem_append_left _ hg))
        (fun g hg => hdump g (List.mem_append_left _ hg))).scanOneNetns hinodes hkeys (hfits ns hlast)
        (hdump ns hlast)

end Tables

end Scan

end Qiftop.Backend.NetnsScanner
