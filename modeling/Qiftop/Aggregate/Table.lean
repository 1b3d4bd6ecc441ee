import Qiftop.Aggregate.Rows

/-!
# Aggregate — the table over a run

A run is any list of calls: snapshots at any clock values, attribution patches, animation ticks
and setters (`Op`, `run`).  Beside the aggregator a run carries its history, the post-aggregation
snapshots in order (`Poll`), so that what the table should hold can be said without looking at the
aggregator: which keys the last snapshot had, when a key was last seen, and what the raw rate
between the last two snapshots is (`lastKeys`, `lastSeen`, `expectedRaw`).

`TableInv` relates the two: distinct keys, an exact position index, live rows and `prev` holding
exactly the keys of the last snapshot, stale rows within their budget, raw rates as expected.  One
snapshot preserves it (`HistoryInv.updateConnections`); every other call leaves alone what it reads
(`HistoryInv.congr`, `Op.sameTable`); so it holds after every run (`tableInv_run`).
-/

namespace Qiftop.Aggregate
open Qt Lib Backend Heuristics

/-! ### History -/

/-- One snapshot, after direction inference and aggregation, with the clock and the budgets in
force. -/
structure Poll where
  snapshot : List Connection
  nowMs : Int
  retentionFor : L4Proto → Int

namespace Poll

def keys (p : Poll) : List QString := p.snapshot.map Connection.key

/-- The connection of the snapshot under a key. -/
def find (p : Poll) (k : QString) : Option Connection :=
  (Hash.indexBy Connection.key p.snapshot).lookup k

theorem find_eq_none {p : Poll} {k : QString} : p.find k = none ↔ k ∉ p.keys := by
  rw [find, AList.lookup_eq_none, Hash.mem_indexBy, keys]

end Poll

/-- The keys of the last snapshot.  The most recent poll comes first. -/
def lastKeys : List Poll → List QString
  | [] => []
  | p :: _ => p.keys

/-- The last snapshot, indexed. -/
def lastIndex : List Poll → Hash QString Connection
  | [] => ∅
  | p :: _ => Hash.indexBy Connection.key p.snapshot

/-- The clock of the last snapshot. -/
def lastMs : List Poll → Int
  | [] => 0
  | p :: _ => p.nowMs

/-- When a key was last in a snapshot. -/
def lastSeen : List Poll → QString → Option Int
  | [], _ => none
  | p :: ps, k => if k ∈ p.keys then some p.nowMs else lastSeen ps k

section
variable {F : Type} [Double F]

/-- The raw rate of a key between the last two snapshots: the byte difference over the elapsed
seconds, zero when the counter went down or either snapshot lacks the key. -/
def expectedRaw (bytes : Connection → UInt64) : List Poll → QString → F
  | p :: q :: _, k =>
      match q.find k, p.find k with
      | some old, some new =>
          if bytes old ≤ bytes new then
            Double.div (Double.ofInt (bytes new - bytes old).toNat)
              (Aggregator.deltaSecs (p.nowMs - q.nowMs))
          else Double.ofInt 0
      | _, _ => Double.ofInt 0
  | _, _ => Double.ofInt 0

/-- No rate without a sample in the last snapshot. -/
theorem expectedRaw_of_notMem {bytes : Connection → UInt64} {polls : List Poll} {k : QString}
    (h : k ∉ lastKeys polls) : (expectedRaw bytes polls k : F) = Double.ofInt 0 := by
  cases polls with
  | nil => rfl
  | cons p ps =>
      cases ps with
      | nil => rfl
      | cons q qs =>
          have hp : p.find k = none := Poll.find_eq_none.mpr h
          rw [expectedRaw, hp]
          split
          · next h' => cases h'
          · rfl

/-- The rate a refresh computes from `prev` is the expected one. -/
theorem rawRate_eq_expectedRaw (bytes : Connection → UInt64) (p : Poll) (polls : List Poll)
    {k : QString} {c : Connection} (hc : p.find k = some c) :
    Aggregator.rawRate (Aggregator.deltaSecs (p.nowMs - lastMs polls))
        (Aggregator.byteDelta (((lastIndex polls).lookup k).map bytes) (bytes c)) =
      (expectedRaw bytes (p :: polls) k : F) := by
  cases polls with
  | nil => rfl
  | cons q qs =>
      have hq : (lastIndex (q :: qs)).lookup k = q.find k := rfl
      rw [expectedRaw, hc, hq]
      cases q.find k with
      | none => rfl
      | some old =>
          by_cases hle : bytes old ≤ bytes c
          · simp [Aggregator.byteDelta, Aggregator.rawRate, hle, lastMs]
          · simp [Aggregator.byteDelta, Aggregator.rawRate, hle]

end

/-! ### The invariant -/

/-- What the table holds after a run with history `polls`. -/
structure TableInv {F : Type} [Double F] (s : Aggregator F) (polls : List Poll) : Prop where
  /-- The keys of the rows are pairwise distinct. -/
  keys_nodup : (s.rows.map Row.key).Nodup
  /-- The index maps exactly each row's key to the row's position. -/
  keyToIdx_iff : ∀ k i, s.keyToIdx.lookup k = some i ↔ ∃ r, s.rows[i]? = some r ∧ r.key = k
  /-- The live rows have exactly the keys of the last snapshot. -/
  live_iff : ∀ k, (∃ r ∈ s.rows, r.key = k ∧ r.stale = false) ↔ k ∈ lastKeys polls
  /-- `prev` has exactly the keys of the last snapshot. -/
  prev_iff : ∀ k, k ∈ s.prev ↔ k ∈ lastKeys polls
  /-- A row's time stamp is the last time its key was in a snapshot. -/
  lastSeen_eq : ∀ r ∈ s.rows, lastSeen polls r.key = some r.lastSeenMs
  /-- A stale row was last seen within its protocol's budget, as of the last snapshot. -/
  stale_within : ∀ r ∈ s.rows, r.stale = true → ∃ p ∈ polls.head?, ∃ t,
    lastSeen polls r.key = some t ∧ p.nowMs - t ≤ p.retentionFor r.current.proto
  /-- The raw rates are those between the last two snapshots. -/
  rxRaw_eq : ∀ r ∈ s.rows, r.rxRaw = expectedRaw Connection.rxBytes polls r.key
  txRaw_eq : ∀ r ∈ s.rows, r.txRaw = expectedRaw Connection.txBytes polls r.key

/-- `TableInv` with the two facts the next snapshot needs: `prev` is the last snapshot, and the
remembered clock is its clock. -/
structure HistoryInv {F : Type} [Double F] (s : Aggregator F) (polls : List Poll) : Prop
    extends TableInv s polls where
  prev_eq : s.prev = lastIndex polls
  lastElapsedMs_eq : s.lastElapsedMs = lastMs polls

namespace Aggregator
variable {F : Type} [Double F] {s : Aggregator F} {polls : List Poll}

/-- The poll a snapshot adds to the history. -/
def poll (s : Aggregator F) (nowMs : Int) (conns : List Connection) : Poll :=
  ⟨s.postAggregation nowMs conns, nowMs, s.retentionFor⟩

omit [Double F] in
theorem mem_keys_poll {nowMs : Int} {conns : List Connection} {k : QString} :
    k ∈ (s.poll nowMs conns).keys ↔ k ∈ s.incoming nowMs conns :=
  mem_incoming.symm

/-- A row that is stale after a snapshot was not pruned. -/
theorem within_of_stale {nowMs : Int} {conns : List Connection} {r' : Row F}
    (hr : r' ∈ (s.updateConnections nowMs conns).rows) (hs : r'.stale = true) :
    nowMs - r'.lastSeenMs ≤ s.retentionFor r'.current.proto := by
  rcases mem_rows_updateConnections.mp hr with ⟨r, -, rfl, hp⟩ | ⟨c, -, rfl⟩
  · rw [pruned, hs] at hp
    simpa using hp
  · cases hs

theorem historyInv_init (range : UInt16 × UInt16) :
    HistoryInv (Aggregator.init (F := F) range) [] where
  keys_nodup := List.nodup_nil
  keyToIdx_iff k i := by simp [Aggregator.init]
  live_iff k := by simp [Aggregator.init, lastKeys]
  prev_iff k := by simp [Aggregator.init, lastKeys]
  lastSeen_eq r hr := absurd hr (by simp [Aggregator.init])
  stale_within r hr := absurd hr (by simp [Aggregator.init])
  rxRaw_eq r hr := absurd hr (by simp [Aggregator.init])
  txRaw_eq r hr := absurd hr (by simp [Aggregator.init])
  prev_eq := rfl
  lastElapsedMs_eq := rfl

end Aggregator

namespace HistoryInv
variable {F : Type} [Double F] {s : Aggregator F} {polls : List Poll}

/-- A stale row's key is not in the last snapshot: the live row of that key would be a second
one. -/
theorem notMem_lastKeys_of_stale (h : HistoryInv s polls) {r : Row F} (hr : r ∈ s.rows)
    (hs : r.stale = true) : r.key ∉ lastKeys polls := by
  intro hk
  obtain ⟨r', hr', e, hl⟩ := (h.live_iff r.key).mpr hk
  obtain rfl : r' = r := List.inj_on_of_nodup_map h.keys_nodup hr' hr e
  rw [hs] at hl
  cases hl

/-- Stale rows show no rate. -/
theorem expectedRaw_of_stale (h : HistoryInv s polls) {r : Row F} (hr : r ∈ s.rows)
    (hs : r.stale = true) (bytes : Connection → UInt64) :
    (expectedRaw bytes polls r.key : F) = Double.ofInt 0 :=
  expectedRaw_of_notMem (h.notMem_lastKeys_of_stale hr hs)

section Update
variable (h : HistoryInv s polls) (nowMs : Int) (conns : List Connection)
include h

/-- A row the snapshot found: its time stamp and its raw rates. -/
theorem refreshRow_spec {r : Row F} {c : Connection}
    (hc : (s.incoming nowMs conns).lookup r.key = some c) :
    (s.refreshRow nowMs r c).lastSeenMs = nowMs ∧
      (s.refreshRow nowMs r c).rxRaw =
        expectedRaw Connection.rxBytes (s.poll nowMs conns :: polls) r.key ∧
      (s.refreshRow nowMs r c).txRaw =
        expectedRaw Connection.txBytes (s.poll nowMs conns :: polls) r.key := by
  have hf : (s.poll nowMs conns).find r.key = some c := hc
  have hrx := rawRate_eq_expectedRaw (F := F) Connection.rxBytes (s.poll nowMs conns) polls hf
  have htx := rawRate_eq_expectedRaw (F := F) Connection.txBytes (s.poll nowMs conns) polls hf
  refine ⟨rfl, ?_, ?_⟩
  · rw [← hrx, ← h.prev_eq, ← h.lastElapsedMs_eq]; rfl
  · rw [← htx, ← h.prev_eq, ← h.lastElapsedMs_eq]; rfl

/-- A row the snapshot misses keeps its time stamp and shows no rate. -/
theorem updateRow_of_missing {r : Row F} (hr : r ∈ s.rows)
    (hk : r.key ∉ s.incoming nowMs conns) :
    let r' := s.updateRow nowMs (s.incoming nowMs conns) r
    r'.lastSeenMs = r.lastSeenMs ∧ r'.current = r.current ∧ r'.rxRaw = Double.ofInt 0 ∧
      r'.txRaw = Double.ofInt 0 := by
  have e : s.updateRow nowMs (s.incoming nowMs conns) r =
      if r.stale then r else Aggregator.staleRow r := by
    rw [Aggregator.updateRow, AList.lookup_eq_none.mpr hk]
  intro r'
  cases hs : r.stale with
  | true =>
      have e' : r' = r := by simp only [r', e, hs, if_true]
      rw [e']
      refine ⟨rfl, rfl, ?_, ?_⟩
      · rw [h.rxRaw_eq r hr, h.expectedRaw_of_stale hr hs]
      · rw [h.txRaw_eq r hr, h.expectedRaw_of_stale hr hs]
  | false =>
      have e' : r' = Aggregator.staleRow r := by
        simp only [r', e, hs, Bool.false_eq_true, if_false]
      rw [e']
      exact ⟨rfl, rfl, rfl, rfl⟩

/-- A flow that gets a new row was not in the previous snapshot. -/
theorem notMem_lastKeys_of_fresh {c : Connection} (hc : c ∈ s.fresh nowMs conns) :
    c.key ∉ lastKeys polls := by
  intro hk
  obtain ⟨r, hr, e, -⟩ := (h.live_iff c.key).mpr hk
  exact Aggregator.notMem_fresh_of_row hr e hc

/-- The rate of a flow that was not in the previous snapshot is zero. -/
theorem expectedRaw_of_fresh {c : Connection} (hc : c ∈ s.fresh nowMs conns)
    (bytes : Connection → UInt64) :
    (expectedRaw bytes (s.poll nowMs conns :: polls) c.key : F) = Double.ofInt 0 := by
  have hk := h.notMem_lastKeys_of_fresh nowMs conns hc
  cases polls with
  | nil => rfl
  | cons q qs =>
      have hq : q.find c.key = none := Poll.find_eq_none.mpr hk
      rw [expectedRaw, hq]

/-- What the history says of each row of the new table. -/
theorem row_updateConnections {r' : Row F} (hr : r' ∈ (s.updateConnections nowMs conns).rows) :
    lastSeen (s.poll nowMs conns :: polls) r'.key = some r'.lastSeenMs ∧
      r'.rxRaw = expectedRaw Connection.rxBytes (s.poll nowMs conns :: polls) r'.key ∧
      r'.txRaw = expectedRaw Connection.txBytes (s.poll nowMs conns :: polls) r'.key := by
  rcases Aggregator.mem_rows_updateConnections.mp hr with ⟨r, hrs, rfl, -⟩ | ⟨c, hc, rfl⟩
  · rw [Aggregator.key_updateRow]
    by_cases hk : r.key ∈ s.incoming nowMs conns
    · obtain ⟨c, hc⟩ := Hash.exists_lookup hk
      have e : s.updateRow nowMs (s.incoming nowMs conns) r = s.refreshRow nowMs r c := by
        rw [Aggregator.updateRow, hc]
      obtain ⟨h₁, h₂, h₃⟩ := h.refreshRow_spec nowMs conns hc
      rw [e]
      refine ⟨?_, h₂, h₃⟩
      rw [lastSeen, if_pos (Aggregator.mem_keys_poll.mpr hk), h₁]
      rfl
    · obtain ⟨h₁, -, h₂, h₃⟩ := h.updateRow_of_missing nowMs conns hrs hk
      have hk' : r.key ∉ (s.poll nowMs conns).keys := fun h' => hk (Aggregator.mem_keys_poll.mp h')
      refine ⟨?_, ?_, ?_⟩
      · rw [lastSeen, if_neg hk', h₁]
        exact h.lastSeen_eq r hrs
      · rw [h₂, expectedRaw_of_notMem hk']
      · rw [h₃, expectedRaw_of_notMem hk']
  · have hk : c.key ∈ (s.poll nowMs conns).keys :=
      Aggregator.mem_keys_poll.mpr (Hash.mem_of_lookup (Aggregator.mem_fresh.mp hc).1)
    refine ⟨?_, ?_, ?_⟩
    · exact if_pos hk
    · exact (h.expectedRaw_of_fresh nowMs conns hc _).symm
    · exact (h.expectedRaw_of_fresh nowMs conns hc _).symm

/-- **A snapshot keeps the invariant**, with the snapshot added to the history. -/
theorem updateConnections :
    HistoryInv (s.updateConnections nowMs conns) (s.poll nowMs conns :: polls) where
  keys_nodup := Aggregator.nodup_keys_updateConnections h.keys_nodup
  keyToIdx_iff k i := by
    rw [Aggregator.keyToIdx_updateConnections]
    exact Hash.lookup_positions (Aggregator.nodup_keys_updateConnections h.keys_nodup) k i
  live_iff k := by
    constructor
    · rintro ⟨r, hr, rfl, hl⟩
      exact Aggregator.mem_keys_poll.mpr (Aggregator.mem_incoming_of_live hr hl)
    · intro hk
      exact Aggregator.exists_live_of_mem_incoming (Aggregator.mem_keys_poll.mp hk)
  prev_iff k := Aggregator.mem_keys_poll.symm
  lastSeen_eq r hr := (h.row_updateConnections nowMs conns hr).1
  stale_within r hr hs := ⟨s.poll nowMs conns, rfl, r.lastSeenMs,
    (h.row_updateConnections nowMs conns hr).1, Aggregator.within_of_stale hr hs⟩
  rxRaw_eq r hr := (h.row_updateConnections nowMs conns hr).2.1
  txRaw_eq r hr := (h.row_updateConnections nowMs conns hr).2.2
  prev_eq := rfl
  lastElapsedMs_eq := rfl

end Update

end HistoryInv

/-! ### Calls that leave the table alone -/

/-- A connection without its attribution. -/
def flow (c : Connection) : Connection :=
  { c with reason := .Resolved, process := {}, container := {}, containerChain := [] }

/-- What the invariants read of a row. -/
structure RowCore (F : Type) where
  flow : Connection
  stale : Bool
  lastSeenMs : Int
  rxRaw : F
  txRaw : F

def Row.core {F : Type} (r : Row F) : RowCore F :=
  ⟨flow r.current, r.stale, r.lastSeenMs, r.rxRaw, r.txRaw⟩

theorem key_flow (c : Connection) : (flow c).key = c.key := by
  simp only [flow, Connection.key]

theorem Row.key_eq_of_core {F : Type} {r r' : Row F} (h : r.core = r'.core) : r.key = r'.key := by
  have e := congrArg (fun c => c.flow.key) h
  simpa only [Row.core, Row.key, key_flow] using e

/-- `s'` has the table of `s`, up to attribution and displayed rates. -/
structure SameTable {F : Type} (s s' : Aggregator F) : Prop where
  cores : s'.rows.map Row.core = s.rows.map Row.core
  keyToIdx : s'.keyToIdx = s.keyToIdx
  prev : s'.prev = s.prev
  lastElapsedMs : s'.lastElapsedMs = s.lastElapsedMs

namespace SameTable
variable {F : Type} {s s' s'' : Aggregator F}

theorem refl (s : Aggregator F) : SameTable s s := ⟨rfl, rfl, rfl, rfl⟩

theorem trans (h : SameTable s s') (h' : SameTable s' s'') : SameTable s s'' :=
  ⟨h'.cores.trans h.cores, h'.keyToIdx.trans h.keyToIdx, h'.prev.trans h.prev,
    h'.lastElapsedMs.trans h.lastElapsedMs⟩

/-- A row of the new table has the core of a row of the old one. -/
theorem back (h : SameTable s s') : ∀ r' ∈ s'.rows, ∃ r ∈ s.rows, r.core = r'.core :=
  fun _ h' => List.mem_map.mp (h.cores ▸ List.mem_map_of_mem h')

theorem forth (h : SameTable s s') : ∀ r ∈ s.rows, ∃ r' ∈ s'.rows, r'.core = r.core :=
  fun _ h' => List.mem_map.mp (h.cores ▸ List.mem_map_of_mem h')

theorem symm (h : SameTable s s') : SameTable s' s :=
  ⟨h.cores.symm, h.keyToIdx.symm, h.prev.symm, h.lastElapsedMs.symm⟩

theorem map_key (h : SameTable s s') : s'.rows.map Row.key = s.rows.map Row.key := by
  have hkeys : ∀ rows : List (Row F),
      rows.map Row.key = (rows.map Row.core).map fun c => c.flow.key := fun rows => by
    rw [List.map_map]
    exact List.map_congr_left fun r _ => (key_flow r.current).symm
  rw [hkeys, hkeys, h.cores]

theorem exists_at (h : SameTable s s') {i : Nat} {k : QString}
    (hk : ∃ r, s.rows[i]? = some r ∧ r.key = k) : ∃ r', s'.rows[i]? = some r' ∧ r'.key = k := by
  obtain ⟨r, hr, rfl⟩ := hk
  have hget : (s'.rows[i]?).map Row.core = (s.rows[i]?).map Row.core := by
    rw [← List.getElem?_map, ← List.getElem?_map, h.cores]
  rw [hr, Option.map_some, Option.map_eq_some_iff] at hget
  obtain ⟨r', hr', hcore⟩ := hget
  exact ⟨r', hr', Row.key_eq_of_core hcore⟩

theorem exists_live (h : SameTable s s') {k : QString}
    (hk : ∃ r ∈ s.rows, r.key = k ∧ r.stale = false) : ∃ r' ∈ s'.rows, r'.key = k ∧ r'.stale = false := by
  obtain ⟨r, hr, rfl, hlive⟩ := hk
  obtain ⟨r', hr', hcore⟩ := h.forth r hr
  exact ⟨r', hr', Row.key_eq_of_core hcore, (congrArg RowCore.stale hcore).trans hlive⟩

end SameTable

/-- **The invariant depends on the cores of the rows only.** -/
theorem HistoryInv.congr {F : Type} [Double F] {s s' : Aggregator F} {polls : List Poll}
    (h : HistoryInv s polls) (e : SameTable s s') : HistoryInv s' polls := by
  have back := e.back
  refine { h with
    keys_nodup := e.map_key ▸ h.keys_nodup
    keyToIdx_iff := fun k i => ?_
    live_iff := fun k => ?_
    prev_iff := fun k => e.prev ▸ h.prev_iff k
    lastSeen_eq := fun r' h' => ?_
    stale_within := fun r' h' hs => ?_
    rxRaw_eq := fun r' h' => ?_
    txRaw_eq := fun r' h' => ?_
    prev_eq := e.prev.trans h.prev_eq
    lastElapsedMs_eq := e.lastElapsedMs.trans h.lastElapsedMs_eq }
  · rw [e.keyToIdx, h.keyToIdx_iff]
    exact ⟨e.exists_at, e.symm.exists_at⟩
  · rw [← h.live_iff k]
    exact ⟨e.symm.exists_live, e.exists_live⟩
  · obtain ⟨r, hm, e⟩ := back r' h'
    have hk : r.key = r'.key := Row.key_eq_of_core e
    have ht : r.lastSeenMs = r'.lastSeenMs := congrArg RowCore.lastSeenMs e
    rw [← hk, ← ht]
    exact h.lastSeen_eq r hm
  · obtain ⟨r, hm, e⟩ := back r' h'
    have hk : r.key = r'.key := Row.key_eq_of_core e
    have hpr : r.current.proto = r'.current.proto := congrArg (fun c => c.flow.proto) e
    rw [← hk, ← hpr]
    exact h.stale_within r hm ((congrArg RowCore.stale e).trans hs)
  · obtain ⟨r, hm, e⟩ := back r' h'
    have hk : r.key = r'.key := Row.key_eq_of_core e
    rw [← hk, ← h.rxRaw_eq r hm]
    exact (congrArg RowCore.rxRaw e).symm
  · obtain ⟨r, hm, e⟩ := back r' h'
    have hk : r.key = r'.key := Row.key_eq_of_core e
    rw [← hk, ← h.txRaw_eq r hm]
    exact (congrArg RowCore.txRaw e).symm

namespace Aggregator
variable {F : Type} [Double F]

/-- A patch entry rewrites the attribution of a connection and nothing else. -/
theorem patchConnection_eq (cur p : Connection) :
    patchConnection cur p =
      { cur with
        process := if p.process.valid then p.process else cur.process
        reason := if p.process.valid ∧ cur.process ≠ p.process then p.reason else cur.reason
        container := if p.container.valid then p.container else cur.container
        containerChain :=
          if p.containerChain.isEmpty then cur.containerChain else p.containerChain } := by
  have hp : (if p.process.valid then p.process else cur.process) =
      if p.process.valid ∧ cur.process ≠ p.process then p.process else cur.process := by
    split <;> split <;> simp_all
  have hc : (if p.container.valid then p.container else cur.container) =
      if p.container.valid ∧ cur.container ≠ p.container then p.container else cur.container := by
    split <;> split <;> simp_all
  have hch : (if p.containerChain.isEmpty then cur.containerChain else p.containerChain) =
      if !p.containerChain.isEmpty ∧ cur.containerChain ≠ p.containerChain then p.containerChain
      else cur.containerChain := by
    split <;> split <;> simp_all
  rw [hp, hc, hch]
  by_cases h₁ : p.process.valid ∧ cur.process ≠ p.process <;>
  by_cases h₂ : p.container.valid ∧ cur.container ≠ p.container <;>
  by_cases h₃ : !p.containerChain.isEmpty ∧ cur.containerChain ≠ p.containerChain <;>
  simp only [patchConnection, h₁, h₂, h₃, if_true, if_false, not_false_eq_true, ne_eq, and_self]

theorem key_patchConnection (cur p : Connection) : (patchConnection cur p).key = cur.key := by
  rw [patchConnection_eq]
  rfl

/-- A patch entry changes no more than the attribution. -/
theorem flow_patchConnection (cur p : Connection) : flow (patchConnection cur p) = flow cur := by
  rw [patchConnection_eq]
  rfl

omit [Double F] in
theorem core_patch (r : Row F) (p : Connection) :
    Row.core { r with current := patchConnection r.current p } = r.core := by
  simp only [Row.core, flow_patchConnection]

omit [Double F] in
/-- Modifying one row keeps what the modification keeps. -/
theorem map_modify {α : Type} (g : Row F → α) (rows : List (Row F)) (i : Nat) {f : Row F → Row F}
    (hf : ∀ r, g (f r) = g r) : (rows.modify i f).map g = rows.map g := by
  refine List.ext_getElem? fun j => ?_
  rw [List.getElem?_map, List.getElem?_map, List.getElem?_modify]
  split <;> cases rows[j]? <;> simp [hf]

omit [Double F] in
/-- A patch touches the rows only. -/
theorem applyAttributionPatch_eq (s : Aggregator F) (patch : List Connection) :
    ∃ rows, s.applyAttributionPatch patch = { s with rows } := by
  induction patch generalizing s with
  | nil => exact ⟨s.rows, rfl⟩
  | cons p patch ih =>
      obtain ⟨rows, e⟩ := ih (s.patchRow p)
      refine ⟨rows, e.trans ?_⟩
      unfold patchRow
      split <;> rfl

omit [Double F] in
theorem sameTable_patchRow (s : Aggregator F) (p : Connection) : SameTable s (s.patchRow p) := by
  unfold patchRow
  split
  · exact .refl s
  · exact ⟨map_modify _ _ _ fun r => core_patch r p, rfl, rfl, rfl⟩

omit [Double F] in
theorem sameTable_applyAttributionPatch (s : Aggregator F) (patch : List Connection) :
    SameTable s (s.applyAttributionPatch patch) := by
  induction patch generalizing s with
  | nil => exact .refl s
  | cons p patch ih => exact (sameTable_patchRow s p).trans (ih _)

omit [Double F] in
/-- A change of every row that keeps the cores. -/
theorem sameTable_mapRows (s : Aggregator F) {f : Row F → Row F} (hf : ∀ r, (f r).core = r.core) :
    SameTable s { s with rows := s.rows.map f } := by
  refine ⟨?_, rfl, rfl, rfl⟩
  have e : Row.core ∘ f = Row.core := funext hf
  rw [List.map_map, e]

end Aggregator

/-! ### Runs -/

/-- A call of the aggregator. -/
inductive Op where
  | updateConnections (nowMs : Int) (connections : List Connection)
  | applyAttributionPatch (patch : List Connection)
  | advanceSmoothing (nowMs : Int)
  | setDnsResolver (present : Bool)
  | setHostnameResolutionEnabled (enabled : Bool)
  | setLocalAddresses (addrs : Finset QHostAddress)
  | setStaleRetentionMs (ms : Int)
  | setStaleRetentionMsUdp (ms : Int)
  | setUdpAggregateByPeer (v : Bool)
  | setResolveIfaceAddrsAsLocalhost (v : Bool)
  | setThroughputMaxMode (m : ThroughputMaxMode)
  | setThroughputWindowMs (ms : Int)
  | setRateSmoothingMs (ms : Int)
  | setPollIntervalMs (ms : Int)

section Run
variable {F : Type} [Double F]

def Op.apply (s : Aggregator F) : Op → Aggregator F
  | .updateConnections nowMs conns => s.updateConnections nowMs conns
  | .applyAttributionPatch patch => s.applyAttributionPatch patch
  | .advanceSmoothing nowMs => s.advanceSmoothing nowMs
  | .setDnsResolver v => s.setDnsResolver v
  | .setHostnameResolutionEnabled v => s.setHostnameResolutionEnabled v
  | .setLocalAddresses a => s.setLocalAddresses a
  | .setStaleRetentionMs ms => s.setStaleRetentionMs ms
  | .setStaleRetentionMsUdp ms => s.setStaleRetentionMsUdp ms
  | .setUdpAggregateByPeer v => s.setUdpAggregateByPeer v
  | .setResolveIfaceAddrsAsLocalhost v => s.setResolveIfaceAddrsAsLocalhost v
  | .setThroughputMaxMode m => s.setThroughputMaxMode m
  | .setThroughputWindowMs ms => s.setThroughputWindowMs ms
  | .setRateSmoothingMs ms => s.setRateSmoothingMs ms
  | .setPollIntervalMs ms => s.setPollIntervalMs ms

/-- The history after a call. -/
def Op.record (s : Aggregator F) (polls : List Poll) : Op → List Poll
  | .updateConnections nowMs conns => s.poll nowMs conns :: polls
  | _ => polls

/-- An aggregator with its history. -/
structure Traced (F : Type) where
  agg : Aggregator F
  polls : List Poll

def Traced.step (t : Traced F) (op : Op) : Traced F := ⟨op.apply t.agg, op.record t.agg t.polls⟩

/-- A run from construction. -/
def run (range : UInt16 × UInt16) (ops : List Op) : Traced F :=
  ops.foldl Traced.step ⟨Aggregator.init range, []⟩

theorem run_concat (range : UInt16 × UInt16) (ops : List Op) (op : Op) :
    run (F := F) range (ops ++ [op]) = (run range ops).step op := by
  simp [run]

/-- **Only a snapshot changes the table.** -/
theorem Op.sameTable (s : Aggregator F) {op : Op}
    (hop : ∀ nowMs conns, op ≠ .updateConnections nowMs conns) : SameTable s (op.apply s) := by
  cases op with
  | updateConnections nowMs conns => exact absurd rfl (hop nowMs conns)
  | applyAttributionPatch patch => exact s.sameTable_applyAttributionPatch patch
  | advanceSmoothing nowMs =>
      simp only [Op.apply, Aggregator.advanceSmoothing]
      split
      · exact .refl s
      · refine s.sameTable_mapRows fun r => ?_
        unfold Aggregator.advanceRow
        split <;> rfl
  | setThroughputWindowMs ms =>
      simp only [Op.apply, Aggregator.setThroughputWindowMs]
      generalize (if ms < 1000 then (1000 : Int) else ms) = w
      split
      · exact .refl s
      · split
        · exact (s.sameTable_mapRows (f := Aggregator.trimSamples (s.lastElapsedMs - w))
            fun _ => rfl).trans ⟨rfl, rfl, rfl, rfl⟩
        · exact ⟨rfl, rfl, rfl, rfl⟩
  | setDnsResolver | setHostnameResolutionEnabled | setLocalAddresses | setStaleRetentionMs
  | setStaleRetentionMsUdp | setUdpAggregateByPeer | setResolveIfaceAddrsAsLocalhost
  | setThroughputMaxMode | setRateSmoothingMs | setPollIntervalMs => exact ⟨rfl, rfl, rfl, rfl⟩

/-- A call is a snapshot or changes no table. -/
theorem Op.cases_poll (op : Op) : (∃ nowMs conns, op = .updateConnections nowMs conns) ∨
    ∀ nowMs conns, op ≠ .updateConnections nowMs conns := by
  cases op with
  | updateConnections nowMs conns => exact .inl ⟨nowMs, conns, rfl⟩
  | _ => exact .inr fun _ _ h => nomatch h

/-- **One call keeps the invariant.** -/
theorem HistoryInv.step {t : Traced F} (h : HistoryInv t.agg t.polls) (op : Op) :
    HistoryInv (t.step op).agg (t.step op).polls := by
  rcases op.cases_poll with ⟨nowMs, conns, rfl⟩ | hop
  · exact h.updateConnections nowMs conns
  · have hrec : op.record t.agg t.polls = t.polls := by
      cases op with
      | updateConnections nowMs conns => exact absurd rfl (hop nowMs conns)
      | _ => rfl
    rw [Traced.step, hrec]
    exact h.congr (op.sameTable t.agg hop)

/-- The UDP retention is never negative: its setter clamps it. -/
theorem Op.staleRetentionMsUdp_nonneg {s : Aggregator F} (h : 0 ≤ s.staleRetentionMsUdp)
    (op : Op) : 0 ≤ (op.apply s).staleRetentionMsUdp := by
  cases op with
  | applyAttributionPatch patch =>
      obtain ⟨rows, e⟩ := s.applyAttributionPatch_eq patch
      rw [Op.apply, e]
      exact h
  | advanceSmoothing nowMs =>
      simp only [Op.apply, Aggregator.advanceSmoothing]
      split <;> exact h
  | setThroughputWindowMs ms =>
      simp only [Op.apply, Aggregator.setThroughputWindowMs]
      generalize (if ms < 1000 then (1000 : Int) else ms) = w
      split <;> exact h
  | setStaleRetentionMsUdp ms =>
      simp only [Op.apply, Aggregator.setStaleRetentionMsUdp]
      split <;> omega
  | updateConnections | setUdpAggregateByPeer | setDnsResolver | setHostnameResolutionEnabled
  | setLocalAddresses | setStaleRetentionMs | setResolveIfaceAddrsAsLocalhost
  | setThroughputMaxMode | setRateSmoothingMs | setPollIntervalMs => exact h

theorem staleRetentionMsUdp_nonneg_run (range : UInt16 × UInt16) (ops : List Op) :
    0 ≤ (run (F := F) range ops).agg.staleRetentionMsUdp := by
  induction ops using List.reverseRecOn with
  | nil => exact (by decide : (0 : Int) ≤ 60000)
  | append_singleton ops op ih =>
      rw [run_concat]
      exact op.staleRetentionMsUdp_nonneg ih

theorem historyInv_run (range : UInt16 × UInt16) (ops : List Op) :
    HistoryInv (run (F := F) range ops).agg (run (F := F) range ops).polls := by
  induction ops using List.reverseRecOn with
  | nil => exact Aggregator.historyInv_init range
  | append_singleton ops op ih =>
      rw [run_concat]
      exact ih.step op

/-- **The table over every run.** -/
theorem tableInv_run (range : UInt16 × UInt16) (ops : List Op) :
    TableInv (run (F := F) range ops).agg (run (F := F) range ops).polls :=
  (historyInv_run range ops).toTableInv

end Run

end Qiftop.Aggregate
