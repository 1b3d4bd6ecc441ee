import Qiftop.Agent.TopTalkers
import Qiftop.Backend.Attribution
import Qiftop.Backend.LruCache

/-!
# Backend — polls of the conntrack monitor

The worker of `backend/linux/ConntrackMonitor.cpp`.  A poll dumps the kernel's table, one family after the
other, and asks the kernel by which interface each flow leaves that has no end here, and for the number of
each interface.  The worker remembers these answers from poll to poll, in two caches of bounded size.

* `Stored`: what all values of a cache satisfy, whatever is looked up, inserted and evicted.
* `run_polls`: the snapshots of a run, with the interfaces the kernel told at some poll.
* `run_uncached`: while the kernel's answers do not change, a snapshot is what it would be without the caches.
-/

namespace Qiftop.Backend
open Qt Lib Agent

/-! ### Values of a cache -/

namespace LruCache
variable {K V : Type} [DecidableEq K] {P : K → V → Prop} {c : LruCache K V}

/-- Every value of the cache stands in a relation to its key. -/
def Stored (P : K → V → Prop) (c : LruCache K V) : Prop :=
  ∀ k entry, c.items.lookup k = some entry → P k entry.value

theorem Stored.find (h : Stored P c) (k : K) :
    Stored P (c.find k).1 ∧ ∀ v, (c.find k).2 = some v → P k v := by
  unfold LruCache.find
  cases hk : c.items.lookup k with
  | none => exact ⟨h, nofun⟩
  | some entry =>
      refine ⟨h, fun v hv => ?_⟩
      cases hv
      exact h k entry hk

theorem Stored.evictLeastRecent (h : Stored P c) : Stored P c.evictLeastRecent := by
  unfold LruCache.evictLeastRecent
  split
  · exact h
  · next last _ =>
      intro k entry hk
      have hne : k ≠ last.key := by
        rintro rfl
        rw [AList.lookup_erase] at hk
        cases hk
      rw [AList.lookup_erase_ne hne] at hk
      exact h k entry hk

theorem Stored.insert (h : Stored P c) {k : K} {v : V} (hv : P k v) : Stored P (c.insert k v) := by
  have hinsert : ∀ (entry : Entry V) k' entry', entry.value = v →
      (c.items.insert k entry).lookup k' = some entry' → P k' entry'.value := by
    intro entry k' entry' hvalue hk'
    rw [Hash.lookup_insert_ite] at hk'
    split at hk'
    · next heq =>
        cases hk'
        rw [heq, hvalue]
        exact hv
    · exact h k' entry' hk'
  unfold LruCache.insert
  split
  · exact fun k' entry' hk' => hinsert _ k' entry' rfl hk'
  · have hpush : Stored P (c.push k v) := fun k' entry' hk' => hinsert _ k' entry' rfl hk'
    split
    · exact h
    · dsimp only
      split
      · exact hpush.evictLeastRecent
      · exact hpush

end LruCache

/-! ### A poll -/

/-- The entries of one family, and how the query ended. -/
structure Dump where
  entries : List NfConntrack := []
  failed : Bool := false
  denied : Bool := false

/-- What the system says during a poll. -/
structure Host where
  byAddr : Hash QHostAddress QString := ∅
  routeSourceForDest : QHostAddress → QHostAddress := fun _ => .null
  nameToIndex : QString → UInt32 := fun _ => 0
  opened : Bool := true
  dumps : List Dump := []
  resolver : Option (ℕ → ProcessResolver) := none

namespace Host

def localAddrs (host : Host) : Finset QHostAddress := host.byAddr.keys.toFinset

/-- The interface of the address by which the kernel would reach a remote end. -/
def routed (host : Host) (remote : QHostAddress) : QString :=
  let src := host.routeSourceForDest remote
  if src.isNull then [] else (host.byAddr.lookup src).getD []

end Host

def kRouteCacheMaxEntries : UInt64 := 8192

def kIfIndexCacheMaxEntries : UInt64 := 256

def kMaxInProcessFlows : ℕ := 4096

theorem kMaxInProcessFlows_pos : 0 < kMaxInProcessFlows := Nat.zero_lt_succ _

namespace ConntrackMonitor

def cachedIfIndex (host : Host) (cache : LruCache QString UInt32) (name : QString) :
    LruCache QString UInt32 × UInt32 :=
  if name.isEmpty then (cache, 0)
  else
    match cache.find name with
    | (cache, some idx) => (cache, idx)
    | (cache, none) => (cache.insert name (host.nameToIndex name), host.nameToIndex name)

def attributeIface (host : Host) (cache : LruCache QHostAddress QString) («local» remote : QHostAddress) :
    LruCache QHostAddress QString × QString :=
  match host.byAddr.lookup «local» with
  | some name => (cache, name)
  | none =>
      if remote.isNull then (cache, [])
      else
        match cache.find remote with
        | (cache, some iface) => (cache, iface)
        | (cache, none) => (cache.insert remote (host.routed remote), host.routed remote)

/-- The caches, what was collected in a poll, and how many flows there were. -/
structure PollState where
  out : List Connection := []
  routeCache : LruCache QHostAddress QString
  ifIndexCache : LruCache QString UInt32
  seen : ℕ := 0

/-- What the callback asks, answered from the caches first. -/
def PollState.ctx (st : PollState) (host : Host) : PollCtx where
  localAddrs := host.localAddrs
  attributeIface l r := (ConntrackMonitor.attributeIface host st.routeCache l r).2
  ifIndex name := (cachedIfIndex host st.ifIndexCache name).2
  cap := kMaxInProcessFlows

/-- An entry of the dump: its flow is offered to the heap, and what was asked for it is remembered. -/
def collect (H : StdHeap) (host : Host) (st : PollState) (ct : NfConntrack) : PollState :=
  match nfctCallback (st.ctx host) ct with
  | none => st
  | some c =>
      { out := admitFlowTopK H st.out c kMaxInProcessFlows
        routeCache := (attributeIface host st.routeCache c.local.address c.remote.address).1
        ifIndexCache := (cachedIfIndex host st.ifIndexCache c.iface).1
        seen := st.seen + 1 }

structure Worker where
  wantChain : Bool := false
  warnedOpen : Bool := false
  warnedDump : Bool := false
  warnedCap : Bool := false
  routeCache : LruCache QHostAddress QString := { maxEntries := kRouteCacheMaxEntries }
  ifIndexCache : LruCache QString UInt32 := { maxEntries := kIfIndexCacheMaxEntries }

inductive Output where
  | permissionDenied
  | connectionsUpdated (flows : List Connection)

/-- The query of one family. -/
def query (H : StdHeap) (host : Host) (st : PollState × Bool × List Output) (dump : Dump) :
    PollState × Bool × List Output :=
  let (poll, warnedDump, outs) := st
  let poll := dump.entries.foldl (collect H host) poll
  if dump.failed && !warnedDump then
    (poll, true, outs ++ if dump.denied then [.permissionDenied] else [])
  else (poll, warnedDump, outs)

def Worker.queried (H : StdHeap) (w : Worker) (host : Host) : PollState × Bool × List Output :=
  host.dumps.foldl (query H host) ({ routeCache := w.routeCache, ifIndexCache := w.ifIndexCache },
    w.warnedDump, [])

/-- The flows of a poll, before attribution. -/
def Worker.pollFlows (H : StdHeap) (w : Worker) (host : Host) : List Connection := (w.queried H host).1.out

def Worker.poll (H : StdHeap) (w : Worker) (host : Host) : Worker × List Output :=
  if !host.opened then
    ({ w with warnedOpen := true },
      (if w.warnedOpen then [] else [.permissionDenied]) ++
        [.connectionsUpdated (attributeFlows host.resolver w.wantChain [])])
  else
    let (poll, warnedDump, outs) := w.queried H host
    ({ w with
        warnedDump, warnedCap := w.warnedCap || decide (poll.seen > kMaxInProcessFlows)
        routeCache := poll.routeCache, ifIndexCache := poll.ifIndexCache },
      outs ++ [.connectionsUpdated (attributeFlows host.resolver w.wantChain poll.out)])

/-! ### What the caches hold -/

section Caches
variable (P : QHostAddress → QString → Prop) (Q : QString → UInt32 → Prop)

/-- The caches are sound, and what they hold of a remote end and of a name satisfies `P` and `Q`. -/
structure Warm (routeCache : LruCache QHostAddress QString) (ifIndexCache : LruCache QString UInt32) :
    Prop where
  routes : routeCache.Stored P
  indexes : ifIndexCache.Stored Q
  routesSound : routeCache.Sound
  indexesSound : ifIndexCache.Sound
  routesMax : routeCache.maxEntries = kRouteCacheMaxEntries
  indexesMax : ifIndexCache.maxEntries = kIfIndexCacheMaxEntries

/-- The kernel's answers in this poll satisfy them. -/
structure Tells (host : Host) : Prop where
  routed : ∀ remote, P remote (host.routed remote)
  index : ∀ name, Q name (host.nameToIndex name)

/-- The interface of a flow: that of its local end, failing that one that satisfies `P`; and its number. -/
structure Located (host : Host) («local» remote : QHostAddress) (iface : QString) (ifIndex : UInt32) :
    Prop where
  ours : ∀ name, host.byAddr.lookup «local» = some name → iface = name
  null : host.byAddr.lookup «local» = none → remote.isNull = true → iface = []
  routed : host.byAddr.lookup «local» = none → remote.isNull = false → P remote iface
  unnamed : iface = [] → ifIndex = 0
  index : iface ≠ [] → Q iface ifIndex

end Caches

section Warm
variable {P : QHostAddress → QString → Prop} {Q : QString → UInt32 → Prop} {host : Host}
variable {routeCache : LruCache QHostAddress QString} {ifIndexCache : LruCache QString UInt32}

theorem maxEntries_find {K V : Type} [DecidableEq K] (c : LruCache K V) (k : K) :
    (c.find k).1.maxEntries = c.maxEntries := by
  unfold LruCache.find
  split <;> rfl

theorem maxEntries_insert {K V : Type} [DecidableEq K] (c : LruCache K V) (k : K) (v : V) :
    (c.insert k v).maxEntries = c.maxEntries := by
  unfold LruCache.insert
  split
  · rfl
  · split
    · rfl
    · dsimp only
      split
      · exact LruCache.maxEntries_evictLeastRecent _
      · rfl

theorem Warm.attributeIface (h : Warm P Q routeCache ifIndexCache) (htold : Tells P Q host)
    («local» remote : QHostAddress) :
    let r := attributeIface host routeCache «local» remote
    Warm P Q r.1 ifIndexCache ∧
      (∀ name, host.byAddr.lookup «local» = some name → r.2 = name) ∧
      (host.byAddr.lookup «local» = none → remote.isNull = true → r.2 = []) ∧
      (host.byAddr.lookup «local» = none → remote.isNull = false → P remote r.2) := by
  intro r
  have hr : r = ConntrackMonitor.attributeIface host routeCache «local» remote := rfl
  unfold ConntrackMonitor.attributeIface at hr
  cases hlocal : host.byAddr.lookup «local» with
  | some name =>
      rw [hlocal] at hr
      rw [hr]
      exact ⟨h, fun name' hname => Option.some.inj hname, nofun, nofun⟩
  | none =>
      rw [hlocal] at hr
      dsimp only at hr
      cases hnull : remote.isNull with
      | true =>
          rw [hnull, if_pos rfl] at hr
          rw [hr]
          exact ⟨h, nofun, fun _ _ => rfl, nofun⟩
      | false =>
          rw [hnull, if_neg Bool.false_ne_true] at hr
          obtain ⟨hstored, hfound⟩ := h.routes.find remote
          have hsound := (h.routesSound.find remote).1
          have hmax := maxEntries_find routeCache remote
          cases hfind : routeCache.find remote with
          | mk cache found =>
              rw [hfind] at hr hstored hfound hsound hmax
              cases found with
              | some iface =>
                  rw [hr]
                  exact ⟨⟨hstored, h.indexes, hsound, h.indexesSound, hmax.trans h.routesMax, h.indexesMax⟩,
                    nofun, nofun, fun _ _ => hfound iface rfl⟩
              | none =>
                  rw [hr]
                  have hinserted := (hsound.step (.insert remote (host.routed remote))).1
                  exact ⟨⟨hstored.insert (htold.routed remote), h.indexes, hinserted, h.indexesSound,
                    (maxEntries_insert _ _ _).trans (hmax.trans h.routesMax), h.indexesMax⟩, nofun, nofun,
                    fun _ _ => htold.routed remote⟩

theorem Warm.cachedIfIndex (h : Warm P Q routeCache ifIndexCache) (htold : Tells P Q host) (name : QString) :
    let r := cachedIfIndex host ifIndexCache name
    Warm P Q routeCache r.1 ∧ (name = [] → r.2 = 0) ∧ (name ≠ [] → Q name r.2) := by
  intro r
  have hr : r = ConntrackMonitor.cachedIfIndex host ifIndexCache name := rfl
  unfold ConntrackMonitor.cachedIfIndex at hr
  cases name with
  | nil =>
      rw [hr]
      exact ⟨h, fun _ => rfl, fun hne => absurd rfl hne⟩
  | cons ch name =>
      rw [List.isEmpty_cons, if_neg Bool.false_ne_true] at hr
      obtain ⟨hstored, hfound⟩ := h.indexes.find (ch :: name)
      have hsound := (h.indexesSound.find (ch :: name)).1
      have hmax := maxEntries_find ifIndexCache (ch :: name)
      cases hfind : ifIndexCache.find (ch :: name) with
      | mk cache found =>
          rw [hfind] at hr hstored hfound hsound hmax
          cases found with
          | some idx =>
              rw [hr]
              exact ⟨⟨h.routes, hstored, h.routesSound, hsound, h.routesMax, hmax.trans h.indexesMax⟩, nofun,
                fun _ => hfound idx rfl⟩
          | none =>
              rw [hr]
              have hinserted := (hsound.step (.insert (ch :: name) (host.nameToIndex (ch :: name)))).1
              exact ⟨⟨h.routes, hstored.insert (htold.index _), h.routesSound, hinserted, h.routesMax,
                (maxEntries_insert _ _ _).trans (hmax.trans h.indexesMax)⟩, nofun, fun _ => htold.index _⟩

/-! ### What a poll collects -/

/-- A flow without its interface. -/
def bare (c : Connection) : Connection := { c with iface := [], ifIndex := 0 }

/-- A flow with what the callback asks for it. -/
def located (ctx : PollCtx) (c : Connection) : Connection :=
  let iface := ctx.attributeIface c.local.address c.remote.address
  { c with iface, ifIndex := if iface.isEmpty then 0 else ctx.ifIndex iface }

theorem located_ifIndex {ctx : PollCtx} {c : Connection} (h : (located ctx c).iface ≠ []) :
    (located ctx c).ifIndex = ctx.ifIndex (located ctx c).iface :=
  if_neg fun hempty => h (List.isEmpty_iff.mp hempty)

theorem nfctCallback_eq (ctx : PollCtx) (ct : NfConntrack) :
    nfctCallback ctx ct = (nfctCallback { localAddrs := ctx.localAddrs } ct).map (located ctx) := by
  unfold nfctCallback
  split
  · rfl
  · rfl

/-- What is not asked for stays empty. -/
theorem bare_nfctCallback {localAddrs : Finset QHostAddress} {ct : NfConntrack} {c : Connection}
    (h : nfctCallback { localAddrs } ct = some c) : bare c = c := by
  unfold nfctCallback at h
  split at h
  · cases h
    unfold orientConntrackFlow
    split <;> rfl
  · cases h

theorem admit_natCast (H : StdHeap) {cap : ℕ} (hcap : 0 < cap) {flows heap rest : List Connection}
    (h : Admitted cap flows heap rest) (c : Connection) :
    ∃ rest', Admitted cap (flows ++ [c]) (admitFlowTopK H heap c cap) rest' := by
  have hcap' : (0 : Int) < cap := Int.natCast_pos.mpr hcap
  rw [← Int.toNat_natCast cap] at h ⊢
  exact h.admit H hcap' c

theorem admitted_nil (H : StdHeap) {cap : ℕ} (hcap : 0 < cap) : ∃ rest, Admitted cap [] [] rest := by
  have hempty := admitted_admitAll H (Int.natCast_pos.mpr hcap) []
  rw [Int.toNat_natCast] at hempty
  exact hempty

/-- The flows of the entries so far, and the loudest of them in the heap. -/
structure Collected (P : QHostAddress → QString → Prop) (Q : QString → UInt32 → Prop) (host : Host)
    (entries : List NfConntrack) (flows : List Connection) (st : PollState) : Prop where
  warm : Warm P Q st.routeCache st.ifIndexCache
  dump : flows.map bare = entries.filterMap (nfctCallback { localAddrs := host.localAddrs })
  located : ∀ c ∈ flows, Located P Q host c.local.address c.remote.address c.iface c.ifIndex
  loudest : ∃ rest, Admitted kMaxInProcessFlows flows st.out rest

theorem Collected.collect (H : StdHeap) (htold : Tells P Q host) {entries : List NfConntrack}
    {flows : List Connection} {st : PollState} (h : Collected P Q host entries flows st) (ct : NfConntrack) :
    ∃ flows', Collected P Q host (entries ++ [ct]) flows' (collect H host st ct) := by
  have hctx := nfctCallback_eq (st.ctx host) ct
  unfold ConntrackMonitor.collect
  cases hplain : nfctCallback { localAddrs := host.localAddrs } ct with
  | none =>
      have hnone : nfctCallback (st.ctx host) ct = none := by
        rw [hctx]
        exact congrArg (Option.map _) hplain
      rw [hnone]
      refine ⟨flows, h.warm, ?_, h.located, h.loudest⟩
      rw [List.filterMap_append, h.dump]
      simp [hplain]
  | some c =>
      obtain ⟨hroutes, hours, hnull, hrouted⟩ := h.warm.attributeIface htold c.local.address c.remote.address
      obtain ⟨hwarm, hunnamed, hindex⟩ := hroutes.cachedIfIndex htold
        (attributeIface host st.routeCache c.local.address c.remote.address).2
      have hsome : nfctCallback (st.ctx host) ct = some (ConntrackMonitor.located (st.ctx host) c) := by
        rw [hctx]
        exact congrArg (Option.map _) hplain
      rw [hsome]
      refine ⟨flows ++ [ConntrackMonitor.located (st.ctx host) c], hwarm, ?_, ?_, ?_⟩
      · have hbare : bare (ConntrackMonitor.located (st.ctx host) c) = c := bare_nfctCallback hplain
        rw [List.filterMap_append, List.map_append, h.dump]
        simp [hplain, hbare]
      · intro c' hc'
        rcases List.mem_append.mp hc' with hc' | hc'
        · exact h.located c' hc'
        · rw [List.mem_singleton.mp hc']
          refine ⟨hours, hnull, hrouted, fun hempty => ?_, fun hne => ?_⟩
          · exact if_pos (List.isEmpty_iff.mpr hempty)
          · rw [located_ifIndex hne]
            exact hindex hne
      · obtain ⟨rest, hloudest⟩ := h.loudest
        dsimp only
        exact admit_natCast H kMaxInProcessFlows_pos hloudest _

theorem Collected.foldl (H : StdHeap) (htold : Tells P Q host) (cts : List NfConntrack)
    {entries : List NfConntrack} {flows : List Connection} {st : PollState}
    (h : Collected P Q host entries flows st) :
    ∃ flows', Collected P Q host (entries ++ cts) flows' (cts.foldl (ConntrackMonitor.collect H host) st) := by
  induction cts generalizing entries flows st with
  | nil => exact ⟨flows, by rwa [List.append_nil]⟩
  | cons ct cts ih =>
      obtain ⟨flows', h'⟩ := h.collect H htold ct
      rw [List.append_cons]
      exact ih h'

theorem query_fst (H : StdHeap) (host : Host) (st : PollState × Bool × List Output) (dump : Dump) :
    (query H host st dump).1 = dump.entries.foldl (ConntrackMonitor.collect H host) st.1 := by
  obtain ⟨poll, warnedDump, outs⟩ := st
  unfold query
  dsimp only
  split
  · rfl
  · rfl

/-- The entries of one family after the other, whether or not a query failed. -/
theorem queries_fst (H : StdHeap) (host : Host) (dumps : List Dump)
    (st : PollState × Bool × List Output) :
    (dumps.foldl (query H host) st).1 =
      (dumps.flatMap Dump.entries).foldl (ConntrackMonitor.collect H host) st.1 := by
  induction dumps generalizing st with
  | nil => rfl
  | cons dump dumps ih =>
      rw [List.foldl_cons, ih, query_fst, List.flatMap_cons, List.foldl_append]

theorem Warm.collected (h : Warm P Q routeCache ifIndexCache) (H : StdHeap) :
    Collected P Q host [] [] { routeCache, ifIndexCache } :=
  ⟨h, rfl, fun _ hc => absurd hc List.not_mem_nil, admitted_nil H kMaxInProcessFlows_pos⟩

/-- The flows of a poll. -/
theorem Warm.queried (H : StdHeap) {w : Worker} (h : Warm P Q w.routeCache w.ifIndexCache)
    (htold : Tells P Q host) :
    ∃ flows, Collected P Q host (host.dumps.flatMap Dump.entries) flows (w.queried H host).1 := by
  unfold Worker.queried
  rw [queries_fst]
  exact (h.collected H).foldl H htold (host.dumps.flatMap Dump.entries)

theorem Warm.poll (H : StdHeap) {w : Worker} (h : Warm P Q w.routeCache w.ifIndexCache)
    (htold : Tells P Q host) :
    Warm P Q (w.poll H host).1.routeCache (w.poll H host).1.ifIndexCache := by
  unfold Worker.poll
  split
  · exact h
  · obtain ⟨flows, hcollected⟩ := h.queried H htold
    exact hcollected.warm

/-- The caches after any polls. -/
theorem run_warm (H : StdHeap) {w : Worker} (h : Warm P Q w.routeCache w.ifIndexCache) (hosts : List Host)
    (htold : ∀ host ∈ hosts, Tells P Q host) :
    let w' := (run (Worker.poll H) w hosts).1
    Warm P Q w'.routeCache w'.ifIndexCache := by
  induction hosts generalizing w with
  | nil => exact h
  | cons host hosts ih =>
      have hpoll := h.poll H (htold host (List.mem_cons_self))
      exact ih hpoll fun host' hhost' => htold host' (List.mem_cons_of_mem _ hhost')

/-- The flow of an entry of the dump. -/
def Dumped (host : Host) (c : Connection) : Prop :=
  ∃ ct ∈ host.dumps.flatMap Dump.entries, nfctCallback { localAddrs := host.localAddrs } ct = some (bare c)

theorem outs_queried (H : StdHeap) (w : Worker) (host : Host) :
    ∀ o ∈ (w.queried H host).2.2, o = .permissionDenied := by
  have hfold : ∀ (dumps : List Dump) (st : PollState × Bool × List Output),
      (∀ o ∈ st.2.2, o = Output.permissionDenied) →
      ∀ o ∈ (dumps.foldl (query H host) st).2.2, o = Output.permissionDenied := by
    intro dumps
    induction dumps with
    | nil => exact fun st h => h
    | cons dump dumps ih =>
        intro st h
        refine ih _ ?_
        obtain ⟨poll, warnedDump, outs⟩ := st
        unfold query
        dsimp only
        split
        · intro o ho
          rcases List.mem_append.mp ho with ho | ho
          · exact h o ho
          · split at ho
            · exact List.mem_singleton.mp ho
            · cases ho
        · exact h
  exact hfold host.dumps _ (fun o ho => absurd ho List.not_mem_nil)

/-- What a poll emits: complaints, and flows of the dump, at most 4096, attributed. -/
theorem Warm.outputs (H : StdHeap) {w : Worker} (h : Warm P Q w.routeCache w.ifIndexCache)
    (htold : Tells P Q host) :
    ∀ o ∈ (w.poll H host).2, o = .permissionDenied ∨
      ∃ kept, o = .connectionsUpdated (attributeFlows host.resolver w.wantChain kept) ∧
        kept.length ≤ kMaxInProcessFlows ∧ ∀ c ∈ kept, Dumped host c := by
  intro o ho
  unfold Worker.poll at ho
  split at ho
  · rcases List.mem_append.mp ho with ho | ho
    · split at ho
      · cases ho
      · exact .inl (List.mem_singleton.mp ho)
    · exact .inr ⟨[], List.mem_singleton.mp ho, Nat.zero_le _, fun c hc => absurd hc List.not_mem_nil⟩
  · rcases List.mem_append.mp ho with ho | ho
    · exact .inl (outs_queried H w host o ho)
    · obtain ⟨flows, hcollected⟩ := h.queried H htold
      obtain ⟨rest, hkeeps, -⟩ := hcollected.loudest
      refine .inr ⟨_, List.mem_singleton.mp ho, ?_, fun c hc => ?_⟩
      · rw [hkeeps.length]
        exact Nat.min_le_left _ _
      · have hflow : c ∈ flows := hkeeps.perm.subset (List.mem_append_left _ hc)
        have hbare : bare c ∈ flows.map bare := List.mem_map_of_mem hflow
        rw [hcollected.dump] at hbare
        exact List.mem_filterMap.mp hbare

theorem warm_start (wantChain : Bool) :
    let w : Worker := { wantChain }
    Warm P Q w.routeCache w.ifIndexCache where
  routes := nofun
  indexes := nofun
  routesSound := LruCache.sound_empty _
  indexesSound := LruCache.sound_empty _
  routesMax := rfl
  indexesMax := rfl

end Warm

/-! ### Runs -/

/-- The kernel's answer for a remote end in one of the polls. -/
def Routed (hosts : List Host) (remote : QHostAddress) (iface : QString) : Prop :=
  ∃ host ∈ hosts, iface = host.routed remote

/-- The kernel's number for a name in one of the polls. -/
def Named (hosts : List Host) (name : QString) (ifIndex : UInt32) : Prop :=
  ∃ host ∈ hosts, ifIndex = host.nameToIndex name

theorem tells_of_mem {hosts : List Host} {host : Host} (h : host ∈ hosts) :
    Tells (Routed hosts) (Named hosts) host :=
  ⟨fun _ => ⟨host, h, rfl⟩, fun _ => ⟨host, h, rfl⟩⟩

theorem run_wantChain (H : StdHeap) (w : Worker) (hosts : List Host) :
    (run (Worker.poll H) w hosts).1.wantChain = w.wantChain := by
  refine run_invariant (fun w' : Worker => w'.wantChain = w.wantChain) (fun w' host h => ?_) rfl hosts
  unfold Worker.poll
  split
  · exact h
  · exact h

theorem poll_opened (H : StdHeap) (w : Worker) {host : Host} (h : host.opened = true) :
    (w.poll H host).2.getLast? =
      some (.connectionsUpdated (attributeFlows host.resolver w.wantChain (w.pollFlows H host))) := by
  unfold Worker.poll
  rw [h]
  exact List.getLast?_concat

/-- Of the flows of the dumped entries, each with its interface, the 4096 loudest.  The interface of a flow
that has an end here is that of its address, else what the kernel told at some poll. -/
def Loudest (polls : List Host) (host : Host) (kept : List Connection) : Prop :=
  ∃ flows rest,
    flows.map bare =
      (host.dumps.flatMap Dump.entries).filterMap (nfctCallback { localAddrs := host.localAddrs }) ∧
    (∀ c ∈ flows,
      Located (Routed polls) (Named polls) host c.local.address c.remote.address c.iface c.ifIndex) ∧
    Keeps lowTotal kMaxInProcessFlows flows kept rest

/-- **The snapshot of a poll, after any polls before it**: the loudest flows of its dump.  The caches never
outgrow their bounds. -/
theorem run_polls (H : StdHeap) (wantChain : Bool) (hosts : List Host) (host : Host)
    (hopened : host.opened = true) :
    let w := (run (Worker.poll H) { wantChain } hosts).1
    (∃ kept, Loudest (hosts ++ [host]) host kept ∧
      (w.poll H host).2.getLast? =
        some (.connectionsUpdated (attributeFlows host.resolver wantChain kept))) ∧
      (w.poll H host).1.routeCache.size ≤ 8192 ∧ (w.poll H host).1.ifIndexCache.size ≤ 256 := by
  intro w
  have hpolls : ∀ host' ∈ hosts ++ [host],
      Tells (Routed (hosts ++ [host])) (Named (hosts ++ [host])) host' := fun _ => tells_of_mem
  have hwarm : Warm (Routed (hosts ++ [host])) (Named (hosts ++ [host])) w.routeCache w.ifIndexCache :=
    run_warm H (warm_start wantChain) hosts fun host' h => hpolls host' (List.mem_append_left _ h)
  have hhost := hpolls host (List.mem_append_right _ (List.mem_singleton_self _))
  constructor
  · obtain ⟨flows, hcollected⟩ := hwarm.queried H hhost
    obtain ⟨rest, hloudest⟩ := hcollected.loudest
    refine ⟨w.pollFlows H host, ⟨flows, rest, hcollected.dump, hcollected.located, hloudest.keeps⟩, ?_⟩
    rw [poll_opened H w hopened, run_wantChain]
  · have hwarm' := hwarm.poll H hhost
    have hroutes := hwarm'.routesSound.bounded
    have hindexes := hwarm'.indexesSound.bounded
    rw [hwarm'.routesMax] at hroutes
    rw [hwarm'.indexesMax] at hindexes
    exact ⟨hroutes, hindexes⟩

/-- A gateway that forwards one flow. -/
def gateway : Host where
  byAddr := (∅ : Hash QHostAddress QString).insert ⟨.IPv4Protocol, "10.0.0.1".toList⟩ "eth0".toList
  routeSourceForDest _ := ⟨.IPv4Protocol, "10.0.0.1".toList⟩
  nameToIndex _ := 2
  dumps := [{ entries := [{
    l3proto := 2, l4proto := 17, portSrc := 53, portDst := 53
    ipv4Src := ⟨.IPv4Protocol, "192.0.2.1".toList⟩
    ipv4Dst := ⟨.IPv4Protocol, "192.0.2.9".toList⟩ }] }]

theorem gateway_polled :
    let w := (run (Worker.poll .sorted) {} [gateway]).1
    (∃ kept, Loudest [gateway, gateway] gateway kept ∧
      (w.poll .sorted gateway).2.getLast? = some (.connectionsUpdated kept)) ∧
      (w.poll .sorted gateway).1.routeCache.size ≤ 8192 ∧
      (w.poll .sorted gateway).1.ifIndexCache.size ≤ 256 :=
  run_polls .sorted false [gateway] gateway rfl

/-! ### Polls without the caches -/

/-- What the callback is told when nothing is remembered. -/
def uncached (host : Host) : PollCtx where
  localAddrs := host.localAddrs
  attributeIface l r :=
    match host.byAddr.lookup l with
    | some name => name
    | none => if r.isNull then [] else host.routed r
  ifIndex := host.nameToIndex
  cap := kMaxInProcessFlows

section Unchanged
variable {host : Host}

theorem Warm.nfctCallback_eq {st : PollState}
    (h : Warm (fun r iface => iface = host.routed r) (fun name idx => idx = host.nameToIndex name)
      st.routeCache st.ifIndexCache) (ct : NfConntrack) :
    nfctCallback (st.ctx host) ct = nfctCallback (uncached host) ct := by
  have htold : Tells (fun r iface => iface = host.routed r) (fun name idx => idx = host.nameToIndex name)
      host := ⟨fun _ => rfl, fun _ => rfl⟩
  have hiface : ∀ l r, (st.ctx host).attributeIface l r = (uncached host).attributeIface l r := by
    intro l r
    obtain ⟨-, hours, hnull, hrouted⟩ := h.attributeIface htold l r
    simp only [uncached]
    cases hl : host.byAddr.lookup l with
    | some name => exact hours name hl
    | none =>
        cases hr : r.isNull with
        | true => exact hnull hl hr
        | false => exact hrouted hl hr
  have hindex : ∀ name, name ≠ [] → (st.ctx host).ifIndex name = (uncached host).ifIndex name := by
    intro name hname
    exact (h.cachedIfIndex htold name).2.2 hname
  have hlocated : ∀ c, ConntrackMonitor.located (st.ctx host) c = ConntrackMonitor.located (uncached host) c := by
    intro c
    unfold ConntrackMonitor.located
    rw [hiface]
    dsimp only
    cases hname : (uncached host).attributeIface c.local.address c.remote.address with
    | nil => rfl
    | cons ch name => rw [hindex (ch :: name) (List.cons_ne_nil ch name)]
  rw [ConntrackMonitor.nfctCallback_eq, ConntrackMonitor.nfctCallback_eq (uncached host), funext hlocated]
  rfl

/-- A flow offered to the heap, with what the callback is told. -/
def offer (H : StdHeap) (ctx : PollCtx) (heap : List Connection) (ct : NfConntrack) : List Connection :=
  match nfctCallback ctx ct with
  | some c => admitFlowTopK H heap c ctx.cap
  | none => heap

theorem Collected.foldl_out (H : StdHeap) {entries : List NfConntrack} {flows : List Connection}
    {st : PollState}
    (h : Collected (fun r iface => iface = host.routed r) (fun name idx => idx = host.nameToIndex name)
      host entries flows st) (cts : List NfConntrack) :
    (cts.foldl (ConntrackMonitor.collect H host) st).out =
      cts.foldl (offer H (uncached host)) st.out := by
  induction cts generalizing entries flows st with
  | nil => rfl
  | cons ct cts ih =>
      have hout : (ConntrackMonitor.collect H host st ct).out = offer H (uncached host) st.out ct := by
        unfold ConntrackMonitor.collect offer
        rw [h.warm.nfctCallback_eq]
        cases nfctCallback (uncached host) ct with
        | none => rfl
        | some c =>
            have hcap : (uncached host).cap = kMaxInProcessFlows := rfl
            dsimp only
            rw [hcap]
      have htold : Tells (fun r iface => iface = host.routed r)
          (fun name idx => idx = host.nameToIndex name) host := ⟨fun _ => rfl, fun _ => rfl⟩
      obtain ⟨flows', h'⟩ := h.collect H htold ct
      rw [List.foldl_cons, List.foldl_cons, ← hout]
      exact ih h'

/-- **The caches do not show**: while the kernel answers the same, a snapshot is the one it would be if
every flow was asked for. -/
theorem run_uncached (H : StdHeap) (wantChain : Bool) (hosts : List Host)
    (hopened : host.opened = true)
    (hsame : ∀ h ∈ hosts, h.routed = host.routed ∧ h.nameToIndex = host.nameToIndex) :
    let w := (run (Worker.poll H) { wantChain } hosts).1
    (w.poll H host).2.getLast? = some (.connectionsUpdated (attributeFlows host.resolver wantChain
      (conntrackSnapshot H (uncached host) (host.dumps.flatMap Dump.entries)))) := by
  intro w
  have htold : ∀ h ∈ hosts, Tells (fun r iface => iface = host.routed r)
      (fun name idx => idx = host.nameToIndex name) h := fun h hh =>
    ⟨congrFun (hsame h hh).1, congrFun (hsame h hh).2⟩
  have hwarm := run_warm H (warm_start wantChain) hosts htold
  have hflows : w.pollFlows H host =
      conntrackSnapshot H (uncached host) (host.dumps.flatMap Dump.entries) := by
    rw [Worker.pollFlows, Worker.queried, queries_fst]
    exact (hwarm.collected H).foldl_out H _
  rw [poll_opened H w hopened, run_wantChain, hflows]

/-- The answers of the second poll are remembered from the first. -/
theorem gateway_uncached :
    let w := (run (Worker.poll .sorted) {} [gateway]).1
    (w.poll .sorted gateway).2.getLast? = some (.connectionsUpdated
      (conntrackSnapshot .sorted (uncached gateway) (gateway.dumps.flatMap Dump.entries))) :=
  run_uncached .sorted false [gateway] rfl fun h hh => by
    rw [List.mem_singleton.mp hh]
    exact ⟨rfl, rfl⟩

end Unchanged

end ConntrackMonitor

end Qiftop.Backend
