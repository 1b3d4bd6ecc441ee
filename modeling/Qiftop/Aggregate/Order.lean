import Qiftop.Aggregate.Table
import Qiftop.Aggregate.UdpMonotone

/-!
# Aggregate — snapshot order

Two snapshots that are permutations of each other, with distinct keys, lead to the same table up to
row order and up to the connection an aggregate is shown through.

A connection's `tally` is its key and its counters.  The indexed snapshots agree on tallies
(`tally_lookup_incoming`): a flow that is passed through is the only one of its key, and a peer's
totals are sums over its connections.  A row's `view` is its tally with everything the row keeps
besides its connection; refreshing, staling and pruning depend on tallies only
(`view_updateRow`, `pruned_congr`), so the new tables are permutations of each other in views
(`views_perm`).
-/

namespace Qiftop.Aggregate
open Qt Lib Backend Heuristics

/-- A connection's key and counters. -/
def tally (c : Connection) : QString × (Counter → UInt64) := (c.key, fun q => q.ofConnection c)

/-- A row, its connection reduced to the tally. -/
def Row.view {F : Type} (r : Row F) : (QString × (Counter → UInt64)) × Row F :=
  (tally r.current, { r with current := {} })

namespace Aggregator
variable {F : Type} [Double F] {s : Aggregator F} {nowMs : Int} {conns₁ conns₂ : List Connection}

/-! ### The indexed snapshots -/

section Perm
variable (p : conns₁.Perm conns₂)
  (hnd : ((conns₁.map s.direct).map Connection.key).Nodup)
include p

omit [Double F] in
theorem group_perm (a : QString) : (s.group conns₁ a).Perm (s.group conns₂ a) :=
  ((p.map s.direct).filter _).filter _

include hnd

omit [Double F] in
/-- The totals of a peer do not depend on the order of its connections. -/
theorem total_observeAll_perm (q : Counter) (st : UdpAggState) (a : QString) :
    q.total (st.observeAll nowMs (s.group conns₁ a)) =
      q.total (st.observeAll nowMs (s.group conns₂ a)) := by
  have hg := group_perm (s := s) p a
  have hnd₁ := nodup_group hnd a
  have h₁ := UdpAggState.total_observeAll q nowMs st hnd₁
  have h₂ := UdpAggState.total_observeAll q nowMs st ((hg.map Connection.key).nodup_iff.mp hnd₁)
  rw [← (hg.map fun c => q.ofMember (st.member c)).sum_eq,
    ← (hg.map fun c => q.ofConnection c + st.retired q c).sum_eq] at h₂
  exact add_right_cancel (h₁.trans h₂.symm)

omit [Double F] in
/-- Where nothing is aggregated the flow itself is looked up. -/
theorem lookup_incoming_perm_of_off (hoff : s.udpAggregateByPeer = false) {k : QString}
    {c : Connection} (hc : (s.incoming nowMs conns₁).lookup k = some c) :
    (s.incoming nowMs conns₂).lookup k = some c := by
  have hnd₂ : ((conns₂.map s.direct).map Connection.key).Nodup :=
    ((p.map s.direct).map Connection.key).nodup_iff.mp hnd
  have hpost : ∀ conns, s.postAggregation nowMs conns = conns.map s.direct := fun conns => by
    rw [postAggregation, hoff]
    rfl
  obtain ⟨hmem, hkey⟩ := Hash.lookup_indexBy_some hc
  rw [hpost] at hmem
  rw [incoming, hpost, ← hkey]
  exact Hash.lookup_indexBy_of_nodup hnd₂ ((p.map s.direct).mem_iff.mp hmem)

omit [Double F] in
/-- So is a flow that passes the aggregation by. -/
theorem lookup_incoming_perm_of_passes (hon : s.udpAggregateByPeer = true) {k : QString}
    {c : Connection} (hc : (s.incoming nowMs conns₁).lookup k = some c)
    (hpass : passesThrough c = true) : (s.incoming nowMs conns₂).lookup k = some c := by
  have hnd₂ : ((conns₂.map s.direct).map Connection.key).Nodup :=
    ((p.map s.direct).map Connection.key).nodup_iff.mp hnd
  obtain ⟨hmem, hkey⟩ := Hash.lookup_indexBy_some hc
  have hc₁ : c ∈ conns₁.map s.direct := mem_of_passesThrough hon hmem hpass
  have hc₂ : c ∈ conns₂.map s.direct := (p.map s.direct).mem_iff.mp hc₁
  have hin : k ∈ s.incoming nowMs conns₂ := by
    rw [mem_incoming, ← hkey]
    exact List.mem_map_of_mem ((mem_postAggregation hon).mpr (.inl ⟨hc₂, hpass⟩))
  obtain ⟨d, hd⟩ := Hash.exists_lookup hin
  obtain ⟨hdmem, hdkey⟩ := Hash.lookup_indexBy_some hd
  have hdpass : passesThrough d = true :=
    (passesThrough_congr (hdkey.trans hkey.symm)).trans hpass
  obtain rfl : d = c := List.inj_on_of_nodup_map hnd₂
    (mem_of_passesThrough hon hdmem hdpass) hc₂ (hdkey.trans hkey.symm)
  exact hd

omit [Double F] in
/-- An aggregate has the same totals, whatever the order of its members. -/
theorem tally_lookup_incoming_of_group (hon : s.udpAggregateByPeer = true)
    (hret : 0 ≤ s.staleRetentionMsUdp) {k : QString} {c : Connection}
    (hc : (s.incoming nowMs conns₁).lookup k = some c) (hpass : passesThrough c = false) :
    ∃ d, (s.incoming nowMs conns₂).lookup k = some d ∧ tally d = tally c := by
  have hg₁ := group_ne_nil_of_lookup_incoming hon hc hpass
  have hg₂ : s.group conns₂ k ≠ [] := fun h => hg₁ (List.perm_nil.mp (h ▸ group_perm p k))
  obtain ⟨st₁, k₁, hst₁, hk₁, -, -, hin₁⟩ := lookup_incoming_of_group nowMs hon hret hg₁
  obtain ⟨st₂, k₂, hst₂, hk₂, -, -, hin₂⟩ := lookup_incoming_of_group nowMs hon hret hg₂
  rw [lookup_nextUdpAgg_of_group nowMs hon hret hg₁, Option.some.injEq] at hst₁
  rw [lookup_nextUdpAgg_of_group nowMs hon hret hg₂, Option.some.injEq] at hst₂
  obtain rfl : st₁.withTotals k₁ = c := Option.some.inj (hin₁.symm.trans hc)
  refine ⟨_, hin₂, Prod.ext (hk₂.trans hk₁.symm) (funext fun q => ?_)⟩
  change q.ofConnection (st₂.withTotals k₂) = q.ofConnection (st₁.withTotals k₁)
  rw [Counter.ofConnection_withTotals, Counter.ofConnection_withTotals, ← hst₁, ← hst₂,
    UdpAggState.total_expireMembers, UdpAggState.total_expireMembers,
    total_observeAll_perm p hnd]

omit [Double F] in
/-- One direction of the agreement: what the first index shows, the second shows too. -/
theorem tally_lookup_incoming_of_some (hret : 0 ≤ s.staleRetentionMsUdp) {k : QString}
    {c : Connection} (hc : (s.incoming nowMs conns₁).lookup k = some c) :
    ∃ d, (s.incoming nowMs conns₂).lookup k = some d ∧ tally d = tally c := by
  cases hon : s.udpAggregateByPeer with
  | false => exact ⟨c, lookup_incoming_perm_of_off p hnd hon hc, rfl⟩
  | true =>
      cases hpass : passesThrough c with
      | true => exact ⟨c, lookup_incoming_perm_of_passes p hnd hon hc hpass, rfl⟩
      | false => exact tally_lookup_incoming_of_group p hnd hon hret hc hpass

variable (nowMs) in
omit [Double F] in
/-- **The indexed snapshots agree on tallies.** -/
theorem tally_lookup_incoming (hret : 0 ≤ s.staleRetentionMsUdp) (k : QString) :
    ((s.incoming nowMs conns₁).lookup k).map tally =
      ((s.incoming nowMs conns₂).lookup k).map tally := by
  have hnd₂ : ((conns₂.map s.direct).map Connection.key).Nodup :=
    ((p.map s.direct).map Connection.key).nodup_iff.mp hnd
  cases hc : (s.incoming nowMs conns₁).lookup k with
  | some c =>
      obtain ⟨d, hd, e⟩ := tally_lookup_incoming_of_some p hnd hret hc
      rw [hd, Option.map_some, Option.map_some, e]
  | none =>
      cases hd : (s.incoming nowMs conns₂).lookup k with
      | none => rfl
      | some d =>
          obtain ⟨c, hc', -⟩ := tally_lookup_incoming_of_some p.symm hnd₂ hret hd
          rw [hc] at hc'
          cases hc'

end Perm

/-! ### The rows -/

omit [Double F] in
/-- Pruning looks at the view of a row only. -/
theorem pruned_congr {r₁ r₂ : Row F} (h : r₁.view = r₂.view) :
    s.pruned nowMs r₁ = s.pruned nowMs r₂ := by
  have hkey : r₁.current.key = r₂.current.key := congrArg (fun v => v.1.1) h
  have hstale : r₁.stale = r₂.stale := congrArg (fun v => v.2.stale) h
  have hseen : r₁.lastSeenMs = r₂.lastSeenMs := congrArg (fun v => v.2.lastSeenMs) h
  rw [pruned, pruned, hstale, hseen, (Connection.key_inj_iff.mp hkey).1]

/-- Two indexes that agree on tallies update a row alike. -/
theorem view_updateRow {inc₁ inc₂ : Hash QString Connection}
    (h : ∀ k, (inc₁.lookup k).map tally = (inc₂.lookup k).map tally) (r : Row F) :
    (s.updateRow nowMs inc₁ r).view = (s.updateRow nowMs inc₂ r).view := by
  have hk := h r.key
  unfold updateRow
  cases h₁ : inc₁.lookup r.key with
  | none =>
      rw [h₁, Option.map_none] at hk
      rw [Option.map_eq_none_iff.mp hk.symm]
  | some c =>
      rw [h₁, Option.map_some] at hk
      obtain ⟨d, h₂, e⟩ := Option.map_eq_some_iff.mp hk.symm
      have hrx : d.rxBytes = c.rxBytes := congrFun (congrArg Prod.snd e) .rxBytes
      have htx : d.txBytes = c.txBytes := congrFun (congrArg Prod.snd e) .txBytes
      rw [h₂]
      refine Prod.ext e.symm ?_
      simp only [Row.view, refreshRow, hrx, htx]

omit [Double F] in
/-- Filtering after two maps that agree on views, for a predicate on views. -/
theorem map_view_filter {f g : Row F → Row F} {keep : Row F → Bool} (rows : List (Row F))
    (hview : ∀ r, (f r).view = (g r).view)
    (hkeep : ∀ r₁ r₂ : Row F, r₁.view = r₂.view → keep r₁ = keep r₂) :
    ((rows.map f).filter keep).map Row.view = ((rows.map g).filter keep).map Row.view := by
  induction rows with
  | nil => rfl
  | cons r rows ih =>
      simp only [List.map_cons, List.filter_cons, hkeep _ _ (hview r)]
      split
      · rw [List.map_cons, List.map_cons, hview r, ih]
      · exact ih

variable (nowMs) in
theorem view_survivors {inc₁ inc₂ : Hash QString Connection}
    (h : ∀ k, (inc₁.lookup k).map tally = (inc₂.lookup k).map tally) :
    (s.survivors nowMs inc₁).map Row.view = (s.survivors nowMs inc₂).map Row.view :=
  map_view_filter s.rows (view_updateRow h) fun _ _ e => by rw [pruned_congr e]

/-- The tallies of the flows that get a new row. -/
theorem tally_additions {inc₁ inc₂ : Hash QString Connection} {idx₁ idx₂ : Hash QString Nat}
    (h : ∀ k, (inc₁.lookup k).map tally = (inc₂.lookup k).map tally)
    (hidx : ∀ k, k ∈ idx₁ ↔ k ∈ idx₂) :
    ((additions inc₁ idx₁).map tally).Perm ((additions inc₂ idx₂).map tally) := by
  -- the two indexes, with tallies for connections, have the same lookups
  have hperm : (Hash.filterMap (fun _ c => some (tally c)) inc₁).entries.Perm
      (Hash.filterMap (fun _ c => some (tally c)) inc₂).entries := by
    refine Hash.entries_perm_of_lookup fun k => ?_
    have hk := h k
    rw [Option.map_eq_bind, Option.map_eq_bind] at hk
    rw [Hash.lookup_filterMap, Hash.lookup_filterMap]
    exact hk
  have hadd : ∀ (inc : Hash QString Connection) (idx : Hash QString Nat),
      (additions inc idx).map tally =
        ((Hash.filterMap (fun _ c => some (tally c)) inc).entries.filter
          fun e => decide (e.1 ∉ idx)).map Sigma.snd := by
    intro inc idx
    simp only [additions, Hash.filterMap, Option.map_some, List.filterMap_eq_map', List.filter_map,
      List.map_map]
    rfl
  rw [hadd, hadd]
  have hfilter : (fun e : (_ : QString) × (QString × (Counter → UInt64)) => decide (e.1 ∉ idx₁)) =
      fun e => decide (e.1 ∉ idx₂) := by
    funext e
    simp only [hidx]
  rw [hfilter]
  exact (hperm.filter _).map _

/-- **The new tables are the same up to row order**, in views. -/
theorem views_perm (p : conns₁.Perm conns₂)
    (hnd : ((conns₁.map s.direct).map Connection.key).Nodup)
    (hret : 0 ≤ s.staleRetentionMsUdp) :
    ((s.updateConnections nowMs conns₁).rows.map Row.view).Perm
      ((s.updateConnections nowMs conns₂).rows.map Row.view) := by
  have h := tally_lookup_incoming nowMs p hnd hret
  have hsurv := view_survivors (s := s) nowMs h
  have hidx : ∀ k, k ∈ indexRows (s.survivors nowMs (s.incoming nowMs conns₁)) ↔
      k ∈ indexRows (s.survivors nowMs (s.incoming nowMs conns₂)) := by
    have hkeys : ∀ rows : List (Row F),
        rows.map Row.key = (rows.map Row.view).map fun v => v.1.1 := fun rows => by
      rw [List.map_map]
      rfl
    intro k
    rw [indexRows, indexRows, Hash.mem_positions, Hash.mem_positions, hkeys, hkeys, hsurv]
  have hnew : ∀ cs : List Connection, (cs.map (newRow (F := F) nowMs)).map Row.view =
      (cs.map tally).map fun t => (t, newRow nowMs {}) := fun cs => by
    rw [List.map_map, List.map_map]
    rfl
  rw [rows_updateConnections, rows_updateConnections, List.map_append, List.map_append, hsurv,
    hnew, hnew]
  exact ((tally_additions h hidx).map _).append_left _

end Aggregator

/-- **Snapshot order does not matter.**  From every state a run reaches, two permutations of a
snapshot with distinct keys lead to tables with the same keys, and rows of one key have the same
counters, the same byte deltas against the previous snapshot, the same raw rates and the same
staleness. -/
theorem updateConnections_order {F : Type} [Double F] (range : UInt16 × UInt16) (ops : List Op)
    (nowMs : Int) {conns₁ conns₂ : List Connection} (p : conns₁.Perm conns₂)
    (hnd : ((conns₁.map (run (F := F) range ops).agg.direct).map Connection.key).Nodup) :
    let s := (run (F := F) range ops).agg
    let t₁ := s.updateConnections nowMs conns₁
    let t₂ := s.updateConnections nowMs conns₂
    (∀ k, k ∈ t₁.rows.map Row.key ↔ k ∈ t₂.rows.map Row.key) ∧
    ∀ r₁ ∈ t₁.rows, ∀ r₂ ∈ t₂.rows, r₁.key = r₂.key →
      (∀ q : Counter, q.ofConnection r₁.current = q.ofConnection r₂.current) ∧
      Aggregator.byteDelta ((s.prev.lookup r₁.key).map (·.rxBytes)) r₁.current.rxBytes =
        Aggregator.byteDelta ((s.prev.lookup r₂.key).map (·.rxBytes)) r₂.current.rxBytes ∧
      Aggregator.byteDelta ((s.prev.lookup r₁.key).map (·.txBytes)) r₁.current.txBytes =
        Aggregator.byteDelta ((s.prev.lookup r₂.key).map (·.txBytes)) r₂.current.txBytes ∧
      r₁.rxRaw = r₂.rxRaw ∧ r₁.txRaw = r₂.txRaw ∧ r₁.stale = r₂.stale := by
  intro s t₁ t₂
  have hviews : (t₁.rows.map Row.view).Perm (t₂.rows.map Row.view) :=
    Aggregator.views_perm p hnd (staleRetentionMsUdp_nonneg_run range ops)
  have hkeys : ∀ rows : List (Row F),
      rows.map Row.key = (rows.map Row.view).map fun v => v.1.1 := fun rows => by
    rw [List.map_map]
    rfl
  refine ⟨fun k => ?_, fun r₁ h₁ r₂ h₂ hk => ?_⟩
  · rw [hkeys, hkeys]
    exact (hviews.map _).mem_iff
  · -- the row of the second table with the view of `r₁` has the key of `r₂`, so it is `r₂`
    obtain ⟨r, hr, hv⟩ := List.mem_map.mp (hviews.mem_iff.mp (List.mem_map_of_mem h₁))
    have hnodup : (t₂.rows.map Row.key).Nodup :=
      Aggregator.nodup_keys_updateConnections (historyInv_run range ops).keys_nodup
    have hrk : r.key = r₁.key := congrArg (fun v => v.1.1) hv
    obtain rfl : r = r₂ := List.inj_on_of_nodup_map hnodup hr h₂ (hrk.trans hk)
    have hq : ∀ q : Counter, q.ofConnection r₁.current = q.ofConnection r.current := fun q =>
      (congrFun (congrArg (fun v => v.1.2) hv) q).symm
    have hrx : r₁.current.rxBytes = r.current.rxBytes := hq .rxBytes
    have htx : r₁.current.txBytes = r.current.txBytes := hq .txBytes
    refine ⟨hq, by rw [hk, hrx], by rw [hk, htx], ?_, ?_, ?_⟩
    · exact congrArg (fun v => v.2.rxRaw) hv.symm
    · exact congrArg (fun v => v.2.txRaw) hv.symm
    · exact congrArg (fun v => v.2.stale) hv.symm

/-- Two lookups to one name server, in either order. -/
theorem updateConnections_order_dns :
    let s := (run (F := ℚ) (32768, 60999) []).agg
    let t₁ := s.updateConnections 1000 [dnsFlow 40000 100 50, dnsFlow 40001 7 7]
    let t₂ := s.updateConnections 1000 [dnsFlow 40001 7 7, dnsFlow 40000 100 50]
    t₁.rows.map (·.current.rxBytes) = [107] ∧
      ∀ k, k ∈ t₁.rows.map Row.key ↔ k ∈ t₂.rows.map Row.key :=
  ⟨by decide +kernel, (updateConnections_order (F := ℚ) (32768, 60999) [] 1000
    (.swap (dnsFlow 40001 7 7) (dnsFlow 40000 100 50) []) (by decide +kernel)).1⟩

end Qiftop.Aggregate
