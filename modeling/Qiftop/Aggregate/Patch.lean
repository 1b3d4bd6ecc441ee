import Qiftop.Aggregate.Conservation

/-!
# Aggregate — where an attribution patch lands

With an exact index a patch is a map over the rows: each row is patched by the entries of its own
key, in order (`rows_applyAttributionPatch`).

Whether an entry has the key of the row that shows its flow is another matter.  A snapshot's
connections get an inferred direction before they are keyed; a patch's entries are keyed as they
came.  So an entry finds its flow's row exactly when inference leaves the wire direction as it is
(`Reaches`), and only an entry with another process than the row's changes the row's reason:
`patch_lands_iff` says exactly when a flow's row carries what the patch says of it.
-/

namespace Qiftop.Aggregate
open Qt Lib Backend Heuristics

section
variable {F : Type} [Double F]

/-! ### A patch as a map over the rows -/

/-- A connection after a list of entries. -/
def patchAll (cur : Connection) (ps : List Connection) : Connection :=
  ps.foldl Aggregator.patchConnection cur

theorem key_patchAll (cur : Connection) (ps : List Connection) :
    (patchAll cur ps).key = cur.key := by
  induction ps generalizing cur with
  | nil => rfl
  | cons p ps ih => exact (ih _).trans (Aggregator.key_patchConnection cur p)

/-- A row after the entries of its key. -/
def Row.patched (patch : List Connection) (r : Row F) : Row F :=
  { r with current := patchAll r.current (patch.filter fun p => p.key = r.key) }

omit [Double F] in
theorem Row.key_patched (patch : List Connection) (r : Row F) : (r.patched patch).key = r.key :=
  key_patchAll r.current _

omit [Double F] in
theorem Row.patched_singleton (p : Connection) (r : Row F) : Row.patched [p] r =
    if p.key = r.key then { r with current := Aggregator.patchConnection r.current p } else r := by
  by_cases e : p.key = r.key
  · simp [Row.patched, patchAll, e]
  · simp [Row.patched, patchAll, e]

/-- One entry patches the row of its key. -/
theorem rows_patchRow {s : Aggregator F} {polls : List Poll} (h : HistoryInv s polls)
    (p : Connection) : (s.patchRow p).rows = s.rows.map (Row.patched [p]) := by
  unfold Aggregator.patchRow
  refine List.ext_getElem? fun j => ?_
  rw [List.getElem?_map]
  cases hl : s.keyToIdx.lookup p.key with
  | none =>
      cases hj : s.rows[j]? with
      | none => simp
      | some r =>
          have hne : ¬ p.key = r.key := fun e => by
            rw [e, (h.keyToIdx_iff r.key j).mpr ⟨r, hj, rfl⟩] at hl
            cases hl
          simp [Row.patched_singleton, hne]
  | some i =>
      cases hj : s.rows[j]? with
      | none => simp [List.getElem?_modify, hj]
      | some r =>
          have hiff : i = j ↔ p.key = r.key := by
            constructor
            · rintro rfl
              obtain ⟨r', hr', hk⟩ := (h.keyToIdx_iff p.key i).mp hl
              rw [hj] at hr'
              rw [Option.some.inj hr', hk]
            · intro e
              have := (h.keyToIdx_iff p.key j).mpr ⟨r, hj, e.symm⟩
              rw [hl] at this
              exact Option.some.inj this
          simp [List.getElem?_modify, hj, Row.patched_singleton, hiff]

/-- **A patch patches every row by the entries of its key.** -/
theorem rows_applyAttributionPatch {s : Aggregator F} {polls : List Poll} (h : HistoryInv s polls)
    (patch : List Connection) :
    (s.applyAttributionPatch patch).rows = s.rows.map (Row.patched patch) := by
  induction patch generalizing s with
  | nil =>
      have e : (Row.patched [] : Row F → Row F) = id := funext fun r => rfl
      rw [e, List.map_id]
      rfl
  | cons p patch ih =>
      have hstep : (s.patchRow p).rows = s.rows.map (Row.patched [p]) := rows_patchRow h p
      rw [Aggregator.applyAttributionPatch, List.foldl_cons]
      have hrest := ih (h.congr (s.sameTable_patchRow p))
      rw [Aggregator.applyAttributionPatch] at hrest
      rw [hrest, hstep, List.map_map]
      refine List.map_congr_left fun r _ => ?_
      rw [Function.comp_apply, Row.patched, Row.key_patched]
      by_cases e : p.key = r.key
      · simp [Row.patched, patchAll, e]
      · simp [Row.patched, patchAll, e]

/-- A row without its attribution: flow and counters, rates, samples, times and staleness. -/
def Row.unattributed (r : Row F) : Row F := { r with current := flow r.current }

omit [Double F] in
/-- **A patch changes attribution only.** -/
theorem unattributed_applyAttributionPatch (s : Aggregator F) (patch : List Connection) :
    (s.applyAttributionPatch patch).rows.map Row.unattributed = s.rows.map Row.unattributed := by
  induction patch generalizing s with
  | nil => rfl
  | cons p patch ih =>
      refine (ih (s.patchRow p)).trans ?_
      unfold Aggregator.patchRow
      split
      · rfl
      · refine Aggregator.map_modify _ _ _ fun r => ?_
        simp only [Row.unattributed, Aggregator.flow_patchConnection]

/-- A call that is neither a snapshot nor a patch keeps what the rows show. -/
theorem Op.map_current (s : Aggregator F) {op : Op}
    (hpoll : ∀ nowMs conns, op ≠ .updateConnections nowMs conns)
    (hpatch : ∀ patch, op ≠ .applyAttributionPatch patch) :
    (op.apply s).rows.map Row.current = s.rows.map Row.current := by
  have hmap : ∀ f : Row F → Row F, (∀ r, (f r).current = r.current) →
      (s.rows.map f).map Row.current = s.rows.map Row.current := fun f hf => by
    rw [List.map_map]
    exact List.map_congr_left fun r _ => hf r
  cases op with
  | updateConnections nowMs conns => exact absurd rfl (hpoll nowMs conns)
  | applyAttributionPatch patch => exact absurd rfl (hpatch patch)
  | advanceSmoothing nowMs =>
      simp only [Op.apply, Aggregator.advanceSmoothing]
      split
      · rfl
      · refine hmap _ fun r => ?_
        unfold Aggregator.advanceRow
        split <;> rfl
  | setThroughputWindowMs ms =>
      simp only [Op.apply, Aggregator.setThroughputWindowMs]
      generalize (if ms < 1000 then (1000 : Int) else ms) = w
      split
      · rfl
      · by_cases hm : s.maxMode = .Windowed
        · simp only [hm, if_true]
          exact hmap _ fun _ => rfl
        · simp only [hm, if_false]
  | setDnsResolver | setHostnameResolutionEnabled | setLocalAddresses | setStaleRetentionMs
  | setStaleRetentionMsUdp | setUdpAggregateByPeer | setResolveIfaceAddrsAsLocalhost
  | setThroughputMaxMode | setRateSmoothingMs | setPollIntervalMs => rfl

/-- Aggregation stays off until it is switched on. -/
theorem Op.udpAggregateByPeer_off {s : Aggregator F} {op : Op} (h : s.udpAggregateByPeer = false)
    (hop : op ≠ .setUdpAggregateByPeer true) : (op.apply s).udpAggregateByPeer = false := by
  cases op with
  | setUdpAggregateByPeer v =>
      cases v with
      | false => rfl
      | true => exact absurd rfl hop
  | applyAttributionPatch patch =>
      obtain ⟨rows, e⟩ := s.applyAttributionPatch_eq patch
      rw [Op.apply, e]
      exact h
  | advanceSmoothing nowMs =>
      simp only [Op.apply, Aggregator.advanceSmoothing]
      split <;> exact h
  | setThroughputWindowMs ms =>
      simp only [Op.apply, Aggregator.setThroughputWindowMs]
      generalize (if ms < 1000 then (1000 : Int) else ms) = w
      split <;> exact h
  | _ => exact h

/-! ### Flows and the entries that name them -/

omit [Double F] in
/-- A valid process always replaces the row's; the reason follows a change of process. -/
theorem patchConnection_of_valid {p : Connection} (hv : p.process.valid = true)
    (cur : Connection) :
    (Aggregator.patchConnection cur p).process = p.process ∧
      (Aggregator.patchConnection cur p).reason =
        if cur.process = p.process then cur.reason else p.reason := by
  rw [Aggregator.patchConnection_eq]
  refine ⟨if_pos hv, ?_⟩
  by_cases e : cur.process = p.process
  · simp [e]
  · simp [e, hv]

omit [Double F] in
/-- What a patch makes of process and reason depends on process and reason only. -/
theorem patchAll_congr {a b : Connection} (hp : a.process = b.process) (hr : a.reason = b.reason)
    (ps : List Connection) :
    (patchAll a ps).process = (patchAll b ps).process ∧
      (patchAll a ps).reason = (patchAll b ps).reason := by
  induction ps generalizing a b with
  | nil => exact ⟨hp, hr⟩
  | cons p ps ih =>
      refine ih ?_ ?_
      · rw [Aggregator.patchConnection_eq, Aggregator.patchConnection_eq, hp]
      · rw [Aggregator.patchConnection_eq, Aggregator.patchConnection_eq, hp, hr]

/-- What a flow is told apart by: its protocol and the texts of its endpoints. -/
def flowId (c : Connection) : L4Proto × QString :=
  (c.proto, Connection.endpointsText c.local c.remote)

/-- The entry is a connection of the flow: same endpoints, protocol and wire direction. -/
def Names (p c : Connection) : Prop :=
  p.local = c.local ∧ p.remote = c.remote ∧ p.proto = c.proto ∧ p.direction = c.direction

instance (p c : Connection) : Decidable (Names p c) := inferInstanceAs (Decidable (_ ∧ _))

theorem Names.key_eq {p c : Connection} (h : Names p c) : p.key = c.key := by
  obtain ⟨hl, hr, hp, hd⟩ := h
  rw [Connection.key_inj_iff, hl, hr]
  exact ⟨hp, hd, rfl⟩

omit [Double F] in
theorem flowId_direct (s : Aggregator F) (c : Connection) : flowId (s.direct c) = flowId c := by
  unfold Aggregator.direct
  split <;> rfl

omit [Double F] in
theorem attribution_direct (s : Aggregator F) (c : Connection) :
    (s.direct c).process = c.process ∧ (s.direct c).reason = c.reason := by
  unfold Aggregator.direct
  split <;> exact ⟨rfl, rfl⟩

/-- Inference leaves the wire direction as it is. -/
def Reaches (s : Aggregator F) (c : Connection) : Prop :=
  c.direction ≠ .Unknown ∨
    inferDirection c s.localAddrs s.loopbackAddrs s.ephemeralLow s.ephemeralHigh = .Unknown

instance (s : Aggregator F) (c : Connection) : Decidable (Reaches s c) :=
  inferInstanceAs (Decidable (_ ∨ _))

omit [Double F] in
theorem direction_direct_iff (s : Aggregator F) (c : Connection) :
    (s.direct c).direction = c.direction ↔ Reaches s c := by
  unfold Aggregator.direct Reaches
  by_cases h : c.direction = .Unknown
  · simp [h]
  · simp [h]

omit [Double F] in
/-- The key of an entry is that of the row showing a flow exactly when the entry names the flow and
inference leaves the wire direction as it is. -/
theorem key_eq_iff_names {s : Aggregator F} {S : List Connection}
    (hS : (S.map flowId).Nodup) {c d q : Connection} (hc : c ∈ S) (hd : d ∈ S) (hq : Names q d) :
    q.key = (s.direct c).key ↔ Reaches s c ∧ Names q c := by
  have hid : flowId (s.direct c) = flowId c := flowId_direct s c
  rw [hq.key_eq]
  constructor
  · intro e
    obtain ⟨hp, hdir, ht⟩ := Connection.key_inj_iff.mp e
    obtain rfl : d = c := List.inj_on_of_nodup_map hS hd hc ((Prod.ext hp ht).trans hid)
    exact ⟨(direction_direct_iff s d).mp hdir.symm, hq⟩
  · rintro ⟨hr, hn⟩
    rw [← hq.key_eq, hn.key_eq, Connection.key_inj_iff]
    exact ⟨(congrArg Prod.fst hid).symm, ((direction_direct_iff s c).mpr hr).symm,
      (congrArg Prod.snd hid).symm⟩

/-- When a flow's row ends up with the process and reason of `p`, the last entry naming the flow,
`earlier` being the entries before it that name the flow. -/
def Lands (s : Aggregator F) (c : Connection) (earlier : List Connection) (p : Connection) : Prop :=
  if Reaches s c then
    (patchAll c earlier).process = p.process → (patchAll c earlier).reason = p.reason
  else c.process = p.process ∧ c.reason = p.reason

/-- The row that shows a flow of the snapshot, before the patch. -/
theorem exists_row_of_flow {s : Aggregator F} {S : List Connection} (nowMs : Int)
    (hoff : s.udpAggregateByPeer = false) (hS : (S.map flowId).Nodup) {c : Connection}
    (hc : c ∈ S) :
    ∃ r ∈ (s.updateConnections nowMs S).rows, r.current = s.direct c := by
  refine Aggregator.exists_row_of_mem hoff ?_ hc
  rw [List.map_map]
  refine List.pairwise_map.mpr ((List.pairwise_map.mp hS).imp fun {a b} hne e => hne ?_)
  obtain ⟨hp, -, ht⟩ := Connection.key_inj_iff.mp e
  rw [← flowId_direct s a, ← flowId_direct s b]
  exact Prod.ext hp ht

/-- There is one row of a key, so what a patch leaves under the key is what it makes of that row. -/
theorem exists_patched_iff {s : Aggregator F} {polls : List Poll} (hinv : HistoryInv s polls)
    (patch : List Connection) {r : Row F} (hr : r ∈ s.rows) {Q : Connection → Prop} :
    (∃ r' ∈ (s.applyAttributionPatch patch).rows, r'.key = r.key ∧ Q r'.current) ↔
      Q (r.patched patch).current := by
  rw [rows_applyAttributionPatch hinv]
  constructor
  · rintro ⟨r', hr', hk', h'⟩
    obtain ⟨r₀, hr₀, rfl⟩ := List.mem_map.mp hr'
    rw [Row.key_patched] at hk'
    obtain rfl : r₀ = r := List.inj_on_of_nodup_map hinv.keys_nodup hr₀ hr hk'
    exact h'
  · intro h'
    exact ⟨_, List.mem_map_of_mem hr, Row.key_patched _ r, h'⟩

omit [Double F] in
/-- The entries a row is patched by: those that name its flow, if entries reach it, or none. -/
theorem filter_key {s : Aggregator F} {S pre post : List Connection} {p c : Connection}
    (hS : (S.map flowId).Nodup) (hP : ∀ q ∈ pre ++ p :: post, ∃ d ∈ S, Names q d) (hc : c ∈ S)
    (hp : Names p c) (hlast : ∀ q ∈ post, ¬ Names q c) :
    ((pre ++ p :: post).filter fun q => q.key = (s.direct c).key) =
      if Reaches s c then (pre.filter fun q => Names q c) ++ [p] else [] := by
  have hkey : ∀ q ∈ pre ++ p :: post, q.key = (s.direct c).key ↔ Reaches s c ∧ Names q c := by
    intro q hq
    obtain ⟨d, hd, hn⟩ := hP q hq
    exact key_eq_iff_names hS hc hd hn
  split
  · next hreach =>
    have hpost : (post.filter fun q => Names q c) = [] := by
      rw [List.filter_eq_nil_iff]
      intro q hq
      simpa using hlast q hq
    rw [List.filter_congr fun q hq => decide_eq_decide.mpr ((hkey q hq).trans
      (and_iff_right hreach)), List.filter_append, List.filter_cons, if_pos (by simpa using hp),
      hpost]
  · next hreach =>
    rw [List.filter_eq_nil_iff]
    intro q hq e
    exact hreach ((hkey q hq).mp (by simpa using e)).1

/-- **Where a patch lands.**  In every state a run reaches with aggregation off, for every snapshot
without repeated flows and every patch of entries that name flows of the snapshot and have a valid
process: the row showing a flow carries the process and reason of the flow's last entry exactly
when that entry `Lands`. -/
theorem patch_lands_iff (range : UInt16 × UInt16) (ops : List Op) (nowMs : Int)
    (S pre post : List Connection) (p c : Connection)
    (hoff : (run (F := F) range ops).agg.udpAggregateByPeer = false) (hS : (S.map flowId).Nodup)
    (hP : ∀ q ∈ pre ++ p :: post, q.process.valid = true ∧ ∃ d ∈ S, Names q d)
    (hc : c ∈ S) (hp : Names p c) (hlast : ∀ q ∈ post, ¬ Names q c) :
    let s := (run (F := F) range ops).agg
    let t := (s.updateConnections nowMs S).applyAttributionPatch (pre ++ p :: post)
    (∃ r ∈ t.rows, r.key = (s.direct c).key ∧ r.current.process = p.process ∧
      r.current.reason = p.reason) ↔ Lands s c (pre.filter fun q => Names q c) p := by
  intro s t
  have hinv := (historyInv_run (F := F) range ops).updateConnections nowMs S
  obtain ⟨r, hr, hcur⟩ := exists_row_of_flow nowMs hoff hS hc
  have hrk : r.key = (s.direct c).key := congrArg Connection.key hcur
  have hone := exists_patched_iff hinv (pre ++ p :: post) hr
    (Q := fun d => d.process = p.process ∧ d.reason = p.reason)
  -- the row sees the patches that name its flow, `p` last
  have hfilter := filter_key (s := s) hS (fun q hq => (hP q hq).2) hc hp hlast
  rw [hrk, Row.patched, hrk, hcur, hfilter] at hone
  refine hone.trans ?_
  obtain ⟨hproc, hreason⟩ := attribution_direct s c
  rw [Lands]
  by_cases hreach : Reaches s c
  · have hv : p.process.valid = true := (hP p (by simp)).1
    obtain ⟨h₁, h₂⟩ := patchConnection_of_valid hv
      (patchAll (s.direct c) (pre.filter fun q => Names q c))
    obtain ⟨e₁, e₂⟩ := patchAll_congr hproc hreason (pre.filter fun q => Names q c)
    rw [if_pos hreach, if_pos hreach, patchAll, List.foldl_append]
    change (Aggregator.patchConnection (patchAll (s.direct c) _) p).process = _ ∧
      (Aggregator.patchConnection (patchAll (s.direct c) _) p).reason = _ ↔ _
    rw [h₁, h₂, e₁, e₂]
    by_cases e : (patchAll c (pre.filter fun q => Names q c)).process = p.process
    · simp [e]
    · simp [e]
  · rw [if_neg hreach, if_neg hreach]
    change (s.direct c).process = _ ∧ (s.direct c).reason = _ ↔ _
    rw [hproc, hreason]

end

/-- A web request from an ephemeral port. -/
def httpsFlow (direction : Direction) (process : ProcessInfo) : Connection :=
  { «local» := ⟨⟨.IPv4Protocol, "192.0.2.1".toList⟩, 40000⟩
    remote := ⟨⟨.IPv4Protocol, "198.51.100.7".toList⟩, 443⟩
    proto := .Tcp, direction, process }

/-- A browser process. -/
def browser : ProcessInfo := { pid := 42, comm := "browser".toList }

/-- With the direction on the wire the patch lands. -/
theorem patch_lands_iff_outbound :
    let s := (run (F := ℚ) (32768, 60999) [.setUdpAggregateByPeer false]).agg
    let c := httpsFlow .Outbound {}
    let t := (s.updateConnections 1000 [c]).applyAttributionPatch
      ([] ++ httpsFlow .Outbound browser :: [])
    ∃ r ∈ t.rows, r.key = (s.direct c).key ∧ r.current.process = browser ∧
      r.current.reason = .Resolved :=
  (patch_lands_iff (F := ℚ) (32768, 60999) [.setUdpAggregateByPeer false] 1000
    [httpsFlow .Outbound {}] [] [] (httpsFlow .Outbound browser) (httpsFlow .Outbound {}) rfl
    (by decide +kernel) (by decide +kernel) (by decide +kernel) (by decide +kernel)
    (by decide +kernel)).mpr (by unfold Lands; decide +kernel)

/-- **A patch can miss the row its flow has**: the wire leaves the direction open, the aggregator
infers that the ephemeral port opened the flow, and the patch is looked up under a key no row
has. -/
theorem patch_misses_inferred :
    ¬ ∀ (range : UInt16 × UInt16) (ops : List Op) (nowMs : Int) (S P : List Connection),
      (run (F := ℚ) range ops).agg.udpAggregateByPeer = false → (S.map flowId).Nodup →
      (P.map flowId).Nodup → (∀ q ∈ P, q.process.valid = true ∧ ∃ d ∈ S, Names q d) →
      ∀ p ∈ P, ∀ c ∈ S, Names p c →
      ∃ r ∈ (((run (F := ℚ) range ops).agg.updateConnections nowMs S).applyAttributionPatch P).rows,
        r.key = ((run (F := ℚ) range ops).agg.direct c).key ∧
        r.current.process = p.process ∧ r.current.reason = p.reason := by
  intro h
  have hrow := h (32768, 60999) [.setUdpAggregateByPeer false] 1000 [httpsFlow .Unknown {}]
    [httpsFlow .Unknown browser] rfl (by decide +kernel) (by decide +kernel) (by decide +kernel)
    (httpsFlow .Unknown browser) (by decide +kernel) (httpsFlow .Unknown {}) (by decide +kernel)
    (by decide +kernel)
  revert hrow
  decide +kernel

end Qiftop.Aggregate
