import Qiftop.Aggregate.ConnectionAggregator

/-!
# Aggregate — the rows after a snapshot

What one `updateConnections` call does to the row list, for any state and any snapshot.

* `rows_updateConnections`, `keyToIdx_updateConnections`: the new rows are the survivors of the
  old ones followed by one row per flow no survivor has, and the index is the index of that list.
* `mem_rows_updateConnections`: where a row of the new table comes from.
* `key_updateRow`: refreshing or staling a row keeps its key.

Everything else about a call is read off these.
-/

namespace Qiftop.Aggregate
open Qt Lib Backend Heuristics

namespace Aggregator
variable {F : Type} [Double F] {s : Aggregator F} {nowMs : Int} {conns : List Connection}

/-- The snapshot as `updateConnections` indexes it. -/
def incoming (s : Aggregator F) (nowMs : Int) (conns : List Connection) : Hash QString Connection :=
  Hash.indexBy Connection.key (s.postAggregation nowMs conns)

omit [Double F] in
theorem key_of_lookup_incoming {k : QString} {c : Connection}
    (h : (s.incoming nowMs conns).lookup k = some c) : c.key = k :=
  (Hash.lookup_indexBy_some h).2

omit [Double F] in
theorem mem_incoming {k : QString} :
    k ∈ s.incoming nowMs conns ↔ k ∈ (s.postAggregation nowMs conns).map Connection.key :=
  Hash.mem_indexBy

/-! ### One row -/

/-- Refreshing or staling a row keeps its key. -/
theorem key_updateRow (r : Row F) :
    (s.updateRow nowMs (s.incoming nowMs conns) r).key = r.key := by
  unfold updateRow
  split
  · next c h => exact key_of_lookup_incoming h
  · split <;> rfl

/-- A row of the snapshot is live afterwards. -/
theorem stale_updateRow_of_mem {r : Row F} (h : r.key ∈ s.incoming nowMs conns) :
    (s.updateRow nowMs (s.incoming nowMs conns) r).stale = false := by
  obtain ⟨c, hc⟩ := Hash.exists_lookup h
  rw [updateRow, hc]
  rfl

/-- A row missing from the snapshot is stale afterwards. -/
theorem stale_updateRow_of_notMem {r : Row F} (h : r.key ∉ s.incoming nowMs conns) :
    (s.updateRow nowMs (s.incoming nowMs conns) r).stale = true := by
  rw [updateRow, AList.lookup_eq_none.mpr h]
  cases hr : r.stale with
  | true => simp [hr]
  | false => rfl

theorem updateRow_of_lookup {r : Row F} {c : Connection}
    (h : (s.incoming nowMs conns).lookup r.key = some c) :
    s.updateRow nowMs (s.incoming nowMs conns) r = s.refreshRow nowMs r c := by
  rw [updateRow, h]

/-- A row missing from the snapshot keeps its connection and its time stamp. -/
theorem updateRow_of_notMem {r : Row F} (h : r.key ∉ s.incoming nowMs conns) :
    (s.updateRow nowMs (s.incoming nowMs conns) r).current = r.current ∧
      (s.updateRow nowMs (s.incoming nowMs conns) r).lastSeenMs = r.lastSeenMs := by
  rw [updateRow, AList.lookup_eq_none.mpr h]
  cases hr : r.stale with
  | true => exact ⟨rfl, rfl⟩
  | false => exact ⟨rfl, rfl⟩

omit [Double F] in
theorem pruned_of_live {r : Row F} (h : r.stale = false) : s.pruned nowMs r = false := by
  simp [pruned, h]

/-! ### The row list -/

theorem foldl_appendRow (rows : List (Row F)) (cs : List Connection) :
    cs.foldl (appendRow nowMs) (rows, indexRows rows) =
      (rows ++ cs.map (newRow nowMs), indexRows (rows ++ cs.map (newRow nowMs))) := by
  induction cs generalizing rows with
  | nil => simp
  | cons c cs ih =>
      have h : (indexRows rows).insert c.key rows.length =
          indexRows (rows ++ [newRow (F := F) nowMs c]) :=
        (Hash.positions_concat Row.key rows (newRow nowMs c)).symm
      rw [List.foldl_cons, appendRow, h, ih]
      simp

/-- The flows of the snapshot that get a new row. -/
def fresh (s : Aggregator F) (nowMs : Int) (conns : List Connection) : List Connection :=
  additions (s.incoming nowMs conns) (indexRows (s.survivors nowMs (s.incoming nowMs conns)))

/-- **The rows after a snapshot**: the survivors, then one row per new flow. -/
theorem rows_updateConnections :
    (s.updateConnections nowMs conns).rows =
      s.survivors nowMs (s.incoming nowMs conns) ++ (s.fresh nowMs conns).map (newRow nowMs) := by
  simp only [updateConnections, fresh, incoming, foldl_appendRow]

theorem keyToIdx_updateConnections :
    (s.updateConnections nowMs conns).keyToIdx =
      indexRows (s.updateConnections nowMs conns).rows := by
  simp only [updateConnections, foldl_appendRow]

theorem mem_survivors {r' : Row F} :
    r' ∈ s.survivors nowMs (s.incoming nowMs conns) ↔
      (∃ r ∈ s.rows, s.updateRow nowMs (s.incoming nowMs conns) r = r') ∧
        s.pruned nowMs r' = false := by
  simp [survivors]

theorem mem_fresh {c : Connection} :
    c ∈ s.fresh nowMs conns ↔ (s.incoming nowMs conns).lookup c.key = some c ∧
      c.key ∉ (s.survivors nowMs (s.incoming nowMs conns)).map Row.key := by
  simp only [fresh, additions, List.mem_map, List.mem_filter, decide_eq_true_eq, indexRows,
    Hash.mem_positions]
  constructor
  · rintro ⟨⟨k, c'⟩, ⟨hm, hn⟩, rfl⟩
    have hl := Hash.mem_entries_iff.mp hm
    obtain rfl : c'.key = k := key_of_lookup_incoming hl
    exact ⟨hl, by simpa using hn⟩
  · rintro ⟨hl, hn⟩
    exact ⟨⟨c.key, c⟩, ⟨Hash.mem_entries_iff.mpr hl, by simpa using hn⟩, rfl⟩

/-- **Where a row of the new table comes from**: an old row that survived, or a new flow. -/
theorem mem_rows_updateConnections {r' : Row F} :
    r' ∈ (s.updateConnections nowMs conns).rows ↔
      (∃ r ∈ s.rows, s.updateRow nowMs (s.incoming nowMs conns) r = r' ∧
        s.pruned nowMs r' = false) ∨
      ∃ c ∈ s.fresh nowMs conns, newRow nowMs c = r' := by
  rw [rows_updateConnections, List.mem_append, mem_survivors, List.mem_map]
  constructor
  · rintro (⟨⟨r, hr, e⟩, hp⟩ | h)
    · exact .inl ⟨r, hr, e, hp⟩
    · exact .inr h
  · rintro (⟨r, hr, e, hp⟩ | h)
    · exact .inl ⟨⟨r, hr, e⟩, hp⟩
    · exact .inr h

/-- An old row of the snapshot survives. -/
theorem mem_survivors_of_mem {r : Row F} (hr : r ∈ s.rows) (h : r.key ∈ s.incoming nowMs conns) :
    s.updateRow nowMs (s.incoming nowMs conns) r ∈ s.survivors nowMs (s.incoming nowMs conns) :=
  mem_survivors.mpr ⟨⟨r, hr, rfl⟩, pruned_of_live (stale_updateRow_of_mem h)⟩

/-- A flow with an old row gets no second one. -/
theorem notMem_fresh_of_row {r : Row F} (hr : r ∈ s.rows) {c : Connection} (e : r.key = c.key) :
    c ∉ s.fresh nowMs conns := by
  intro hc
  obtain ⟨hl, hn⟩ := mem_fresh.mp hc
  have hk : r.key ∈ s.incoming nowMs conns := e ▸ Hash.mem_of_lookup hl
  refine hn (List.mem_map.mpr ⟨_, mem_survivors_of_mem hr hk, ?_⟩)
  rw [key_updateRow, e]

/-- Every flow of the snapshot has a live row. -/
theorem exists_live_of_mem_incoming {k : QString} (h : k ∈ s.incoming nowMs conns) :
    ∃ r ∈ (s.updateConnections nowMs conns).rows, r.key = k ∧ r.stale = false := by
  by_cases hs : k ∈ (s.survivors nowMs (s.incoming nowMs conns)).map Row.key
  · obtain ⟨r', hr', rfl⟩ := List.mem_map.mp hs
    obtain ⟨⟨r, hr, rfl⟩, hp⟩ := mem_survivors.mp hr'
    refine ⟨_, mem_rows_updateConnections.mpr (.inl ⟨r, hr, rfl, hp⟩), rfl, ?_⟩
    exact stale_updateRow_of_mem (by rwa [key_updateRow] at h)
  · obtain ⟨c, hc⟩ := Hash.exists_lookup h
    obtain rfl := key_of_lookup_incoming hc
    exact ⟨_, mem_rows_updateConnections.mpr (.inr ⟨c, mem_fresh.mpr ⟨hc, hs⟩, rfl⟩), rfl, rfl⟩

/-- Only the flows of the snapshot have live rows. -/
theorem mem_incoming_of_live {r' : Row F} (hr : r' ∈ (s.updateConnections nowMs conns).rows)
    (hl : r'.stale = false) : r'.key ∈ s.incoming nowMs conns := by
  rcases mem_rows_updateConnections.mp hr with ⟨r, -, rfl, -⟩ | ⟨c, hc, rfl⟩
  · by_contra hk
    rw [key_updateRow] at hk
    rw [stale_updateRow_of_notMem hk] at hl
    cases hl
  · exact Hash.mem_of_lookup (mem_fresh.mp hc).1

/-- Distinct keys stay distinct. -/
theorem nodup_keys_updateConnections (hnd : (s.rows.map Row.key).Nodup) :
    ((s.updateConnections nowMs conns).rows.map Row.key).Nodup := by
  rw [rows_updateConnections, List.map_append, List.nodup_append]
  refine ⟨?_, ?_, ?_⟩
  · have hk : ((s.rows.map (s.updateRow nowMs (s.incoming nowMs conns))).map Row.key).Nodup := by
      have hf : Row.key ∘ s.updateRow nowMs (s.incoming nowMs conns) = Row.key :=
        funext fun r => key_updateRow r
      rw [List.map_map, hf]
      exact hnd
    exact hk.sublist (List.filter_sublist.map Row.key)
  · have hsub : ((s.fresh nowMs conns).map (newRow (F := F) nowMs)).map Row.key =
        (s.fresh nowMs conns).map Connection.key := by
      rw [List.map_map]; rfl
    rw [hsub, fresh, additions, List.map_map]
    have hkeys : ∀ e ∈ (s.incoming nowMs conns).entries, (Connection.key ∘ Sigma.snd) e = e.1 :=
      fun e he => key_of_lookup_incoming (Hash.mem_entries_iff.mp he)
    rw [List.map_congr_left fun e he => hkeys e (List.mem_of_mem_filter he)]
    exact (AList.keys_nodup (s.incoming nowMs conns)).sublist (List.filter_sublist.map Sigma.fst)
  · rintro k hk k' hk' rfl
    obtain ⟨r, hr, rfl⟩ := List.mem_map.mp hk'
    obtain ⟨c, hc, rfl⟩ := List.mem_map.mp hr
    exact (mem_fresh.mp hc).2 hk

end Aggregator

end Qiftop.Aggregate
