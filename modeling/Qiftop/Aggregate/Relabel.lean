import Qiftop.Aggregate.Patch

/-!
# Aggregate — relabelling the attribution of a run

What is said of a flow's owner (`Attribution`: process, reason, container and chain) is carried along by the
table and never looked at.  For a function `g` on attributions, `relabel g` rewrites the attribution of a
connection, of a row, of a table and of a call; every call but a patch takes the relabelled table to the
relabelled result (`apply_relabel`).

A patch compares attributions and so does not commute with every `g`; with the one that forgets them it does.
So the table without its attributions is the table of the calls without theirs (`run_unattributed`): neither
what a resolver answers nor a patch changes a counter, a rate, a row's life or its place.
-/

namespace Qiftop.Aggregate
open Qt Lib Backend Heuristics

/-! ### Relabelling -/

/-- What is said of a flow's owner. -/
structure Attribution where
  reason : AttributionReason := .Resolved
  process : ProcessInfo := {}
  container : ContainerInfo := {}
  containerChain : List ContainerInfo := []

def attribution (c : Connection) : Attribution := ⟨c.reason, c.process, c.container, c.containerChain⟩

/-- The flow under another attribution. -/
def attributed (c : Connection) (a : Attribution) : Connection :=
  { c with reason := a.reason, process := a.process, container := a.container
           containerChain := a.containerChain }

section Relabel
variable (g : Attribution → Attribution)

def relabel (c : Connection) : Connection := attributed c (g (attribution c))

theorem key_relabel (c : Connection) : (relabel g c).key = c.key := rfl

/-- Forgetting the attribution is one relabelling. -/
theorem flow_eq_relabel : flow = relabel fun _ => {} := rfl

theorem relabel_relabel (g' : Attribution → Attribution) (c : Connection) :
    relabel g' (relabel g c) = relabel (g' ∘ g) c := rfl

variable {F : Type}

def Row.relabel (r : Row F) : Row F := { r with current := Aggregate.relabel g r.current }

theorem Row.key_relabel (r : Row F) : (r.relabel g).key = r.key := rfl

def UdpPass.relabel (p : UdpPass) : UdpPass :=
  { p with agg := Hash.map (Aggregate.relabel g) p.agg
           passthrough := p.passthrough.map (Aggregate.relabel g) }

def Aggregator.relabel (s : Aggregator F) : Aggregator F :=
  { s with rows := s.rows.map (Row.relabel g), prev := Hash.map (Aggregate.relabel g) s.prev }

/-- A call with the attributions of its snapshot relabelled. -/
def Op.relabel : Op → Op
  | .updateConnections nowMs connections => .updateConnections nowMs (connections.map (Aggregate.relabel g))
  | op => op

/-! ### A snapshot -/

theorem udpPeer_relabel (c : Connection) :
    udpPeer (Aggregate.relabel g c) = Aggregate.relabel g (udpPeer c) := by
  unfold udpPeer
  by_cases hout : c.direction = .Outbound
  · rw [if_pos hout, if_pos (show (Aggregate.relabel g c).direction = .Outbound from hout)]
    rfl
  · rw [if_neg hout, if_neg (show ¬ (Aggregate.relabel g c).direction = .Outbound from hout)]
    rfl

theorem UdpPass.step_relabel (nowMs : Int) (p : UdpPass) (c : Connection) :
    (p.relabel g).step nowMs (Aggregate.relabel g c) = (p.step nowMs c).relabel g := by
  have hpasses : passesThrough (Aggregate.relabel g c) = passesThrough c := rfl
  unfold UdpPass.step
  rw [hpasses]
  cases passesThrough c with
  | true => simp [UdpPass.relabel]
  | false =>
      have hobserve : ∀ st : UdpAggState, st.observe nowMs (Aggregate.relabel g c) = st.observe nowMs c :=
        fun _ => rfl
      simp only [Bool.false_eq_true, if_false, hobserve, UdpPass.relabel]
      rw [udpPeer_relabel, Aggregate.key_relabel]
      by_cases hmem : (udpPeer c).key ∈ p.agg
      · simp [hmem]
      · simp [hmem, Hash.map_insert]

namespace Aggregator
variable (s : Aggregator F)

theorem direct_relabel (c : Connection) :
    (s.relabel g).direct (Aggregate.relabel g c) = Aggregate.relabel g (s.direct c) := by
  unfold Aggregator.direct
  by_cases hdir : c.direction ≠ .Unknown
  · rw [if_pos hdir, if_pos (show (Aggregate.relabel g c).direction ≠ .Unknown from hdir)]
  · rw [if_neg hdir, if_neg (show ¬ (Aggregate.relabel g c).direction ≠ .Unknown from hdir)]
    rfl

theorem map_direct_relabel (conns : List Connection) :
    (conns.map (Aggregate.relabel g)).map (s.relabel g).direct =
      (conns.map s.direct).map (Aggregate.relabel g) := by
  rw [List.map_map, List.map_map]
  exact List.map_congr_left fun c _ => s.direct_relabel g c

theorem udpPass_relabel (nowMs : Int) (conns : List Connection) :
    (s.relabel g).udpPass nowMs (conns.map (Aggregate.relabel g)) =
      (s.udpPass nowMs conns).relabel g := by
  have hfold : ∀ p : UdpPass, (conns.map (Aggregate.relabel g)).foldl (UdpPass.step nowMs) (p.relabel g) =
      (conns.foldl (UdpPass.step nowMs) p).relabel g := by
    induction conns with
    | nil => exact fun p => rfl
    | cons c conns ih =>
        intro p
        rw [List.map_cons, List.foldl_cons, UdpPass.step_relabel]
        exact ih _
  exact hfold { udpAgg := s.udpAgg }

theorem nextUdpAgg_relabel (nowMs : Int) (conns : List Connection) :
    (s.relabel g).nextUdpAgg nowMs (conns.map (Aggregate.relabel g)) = s.nextUdpAgg nowMs conns := by
  unfold Aggregator.nextUdpAgg
  rw [map_direct_relabel, udpPass_relabel]
  rfl

theorem postAggregation_relabel (nowMs : Int) (conns : List Connection) :
    (s.relabel g).postAggregation nowMs (conns.map (Aggregate.relabel g)) =
      (s.postAggregation nowMs conns).map (Aggregate.relabel g) := by
  unfold Aggregator.postAggregation
  rw [map_direct_relabel, udpPass_relabel, nextUdpAgg_relabel]
  cases hon : s.udpAggregateByPeer with
  | false => simp [Aggregator.relabel, hon]
  | true =>
      have hon' : (s.relabel g).udpAggregateByPeer = true := hon
      simp only [hon', if_true, List.map_append]
      refine congrArg₂ _ rfl ?_
      rw [← Hash.values_map]
      refine congrArg Hash.values (Hash.filterMap_map (fun k c => ?_) _)
      cases (s.nextUdpAgg nowMs conns).lookup k with
      | none => rfl
      | some st => rfl

theorem incoming_relabel (nowMs : Int) (conns : List Connection) :
    (s.relabel g).incoming nowMs (conns.map (Aggregate.relabel g)) =
      Hash.map (Aggregate.relabel g) (s.incoming nowMs conns) := by
  rw [Aggregator.incoming, postAggregation_relabel]
  exact (Hash.map_indexBy (Aggregate.key_relabel g) _).symm

/-! ### The rows -/

section Rows
variable [Double F]

theorem updateRow_relabel (nowMs : Int) (incoming : Hash QString Connection) (r : Row F) :
    (s.relabel g).updateRow nowMs (Hash.map (Aggregate.relabel g) incoming) (r.relabel g) =
      (s.updateRow nowMs incoming r).relabel g := by
  unfold Aggregator.updateRow
  rw [Row.key_relabel, Hash.lookup_map]
  cases incoming.lookup r.key with
  | none =>
      cases hstale : r.stale with
      | true => simp [Row.relabel, hstale]
      | false => simp [Row.relabel, hstale, staleRow]
  | some c =>
      have hprev : ∀ q : Connection → UInt64, (∀ c, q (Aggregate.relabel g c) = q c) →
          ((s.relabel g).prev.lookup (r.relabel g).key).map q = (s.prev.lookup r.key).map q := by
        intro q hq
        rw [Row.key_relabel]
        simp only [Aggregator.relabel, Hash.lookup_map, Option.map_map]
        exact congrArg (fun f => (s.prev.lookup r.key).map f) (funext hq)
      simp only [Option.map_some, refreshRow]
      rw [hprev _ fun _ => rfl, hprev _ fun _ => rfl]
      rfl

theorem survivors_relabel (nowMs : Int) (incoming : Hash QString Connection) :
    (s.relabel g).survivors nowMs (Hash.map (Aggregate.relabel g) incoming) =
      (s.survivors nowMs incoming).map (Row.relabel g) := by
  have hpruned : ∀ r : Row F, (s.relabel g).pruned nowMs (r.relabel g) = s.pruned nowMs r := fun _ => rfl
  have hrows : ((s.relabel g).rows.map ((s.relabel g).updateRow nowMs (Hash.map (Aggregate.relabel g) incoming))) =
      (s.rows.map (s.updateRow nowMs incoming)).map (Row.relabel g) := by
    simp only [Aggregator.relabel, List.map_map]
    exact List.map_congr_left fun r _ => s.updateRow_relabel g nowMs incoming r
  unfold Aggregator.survivors
  rw [hrows, List.filter_map]
  simp only [Function.comp_def, hpruned]

end Rows

omit F in
theorem additions_relabel (incoming : Hash QString Connection) (keyToIdx : Hash QString Nat) :
    additions (Hash.map (Aggregate.relabel g) incoming) keyToIdx =
      (additions incoming keyToIdx).map (Aggregate.relabel g) := by
  simp only [additions, Hash.entries_map, List.filter_map, List.map_map]
  rfl

theorem indexRows_relabel (rows : List (Row F)) :
    indexRows (rows.map (Row.relabel g)) = indexRows rows :=
  Hash.positions_congr (by rw [List.map_map]; rfl)

/-- **A relabelled snapshot on a relabelled table.** -/
theorem updateConnections_relabel [Double F] (nowMs : Int) (conns : List Connection) :
    (s.relabel g).updateConnections nowMs (conns.map (Aggregate.relabel g)) =
      (s.updateConnections nowMs conns).relabel g := by
  have hincoming := s.incoming_relabel g nowMs conns
  have hrows : ((s.relabel g).updateConnections nowMs (conns.map (Aggregate.relabel g))).rows =
      (s.updateConnections nowMs conns).rows.map (Row.relabel g) := by
    rw [rows_updateConnections, rows_updateConnections, fresh, fresh, hincoming, survivors_relabel,
      indexRows_relabel, additions_relabel, List.map_append, List.map_map, List.map_map]
    rfl
  have hindex : ((s.relabel g).updateConnections nowMs (conns.map (Aggregate.relabel g))).keyToIdx =
      (s.updateConnections nowMs conns).keyToIdx := by
    rw [keyToIdx_updateConnections, keyToIdx_updateConnections, hrows, indexRows_relabel]
  have hudp := s.nextUdpAgg_relabel g nowMs conns
  have heq : ∀ (t : Aggregator F) (conns : List Connection), t.updateConnections nowMs conns = { t with
      lastElapsedMs := nowMs, udpAgg := t.nextUdpAgg nowMs conns
      rows := (t.updateConnections nowMs conns).rows
      keyToIdx := (t.updateConnections nowMs conns).keyToIdx
      prev := t.incoming nowMs conns } := fun _ _ => rfl
  rw [heq, hrows, hindex, hudp, hincoming]
  rfl

/-- A snapshot is read with its directions inferred. -/
theorem updateConnections_congr [Double F] {nowMs : Int} {conns conns' : List Connection}
    (h : conns.map s.direct = conns'.map s.direct) :
    s.updateConnections nowMs conns = s.updateConnections nowMs conns' := by
  have hnext : s.nextUdpAgg nowMs conns = s.nextUdpAgg nowMs conns' := by
    unfold Aggregator.nextUdpAgg
    rw [h]
  have hpost : s.postAggregation nowMs conns = s.postAggregation nowMs conns' := by
    unfold Aggregator.postAggregation
    rw [h, hnext]
  unfold Aggregator.updateConnections
  rw [hpost, hnext]

end Aggregator

/-! ### Runs -/

section Runs
variable [Double F]

/-- Every call but a patch takes relabelled tables to relabelled tables. -/
theorem Op.apply_relabel (s : Aggregator F) {op : Op} (hop : ∀ patch, op ≠ .applyAttributionPatch patch) :
    (op.relabel g).apply (s.relabel g) = (op.apply s).relabel g := by
  have hmap : ∀ f : Row F → Row F, (∀ r, f (r.relabel g) = (f r).relabel g) →
      (s.rows.map (Row.relabel g)).map f = (s.rows.map f).map (Row.relabel g) := by
    intro f hf
    rw [List.map_map, List.map_map]
    exact List.map_congr_left fun r _ => hf r
  cases op with
  | updateConnections nowMs conns => exact s.updateConnections_relabel g nowMs conns
  | applyAttributionPatch patch => exact absurd rfl (hop patch)
  | advanceSmoothing nowMs =>
      have hadvance : ∀ r : Row F, Aggregator.advanceRow nowMs (r.relabel g) =
          (Aggregator.advanceRow nowMs r).relabel g := by
        intro r
        unfold Aggregator.advanceRow
        cases hstale : r.stale with
        | true => simp [Row.relabel, hstale]
        | false => simp [Row.relabel, hstale]
      simp only [Op.relabel, Op.apply, Aggregator.advanceSmoothing]
      by_cases hoff : s.rateSmoothingMs ≤ 0
      · rw [if_pos hoff, if_pos (show (s.relabel g).rateSmoothingMs ≤ 0 from hoff)]
      · rw [if_neg hoff, if_neg (show ¬ (s.relabel g).rateSmoothingMs ≤ 0 from hoff)]
        simp only [Aggregator.relabel, hmap _ hadvance]
  | setThroughputWindowMs ms =>
      have htrim : ∀ (cutoff : Int) (r : Row F), Aggregator.trimSamples cutoff (r.relabel g) =
          (Aggregator.trimSamples cutoff r).relabel g := fun _ _ => rfl
      simp only [Op.relabel, Op.apply, Aggregator.setThroughputWindowMs]
      generalize (if ms < 1000 then (1000 : Int) else ms) = w
      by_cases hsame : w = s.windowMs
      · rw [if_pos hsame, if_pos (show w = (s.relabel g).windowMs from hsame)]
      · rw [if_neg hsame, if_neg (show ¬ w = (s.relabel g).windowMs from hsame)]
        by_cases hmode : s.maxMode = .Windowed
        · simp only [Aggregator.relabel, hmode, if_true, hmap _ (htrim _)]
        · simp only [Aggregator.relabel, hmode, if_false]
  | setDnsResolver | setHostnameResolutionEnabled | setLocalAddresses | setStaleRetentionMs
  | setStaleRetentionMsUdp | setUdpAggregateByPeer | setResolveIfaceAddrsAsLocalhost
  | setThroughputMaxMode | setRateSmoothingMs | setPollIntervalMs => rfl

end Runs
end Relabel

/-! ### Without attribution -/

section Unattributed
variable {F : Type} [Double F]

/-- A call without what it says of owners; a patch says nothing else. -/
def Op.unattributed : Op → Option Op
  | .updateConnections nowMs connections => some (.updateConnections nowMs (connections.map flow))
  | .applyAttributionPatch _ => none
  | op => some op

theorem unattributed_of_ne {op : Op} (hop : ∀ patch, op ≠ .applyAttributionPatch patch) :
    op.unattributed = some (op.relabel fun _ => {}) := by
  cases op with
  | applyAttributionPatch patch => exact absurd rfl (hop patch)
  | _ => rfl

omit [Double F] in
/-- A patch leaves the table without its attributions. -/
theorem relabel_applyAttributionPatch (s : Aggregator F) (patch : List Connection) :
    (s.applyAttributionPatch patch).relabel (fun _ => {}) = s.relabel fun _ => {} := by
  obtain ⟨rows, heq⟩ := s.applyAttributionPatch_eq patch
  have hrows := unattributed_applyAttributionPatch s patch
  rw [heq] at hrows ⊢
  simp only [Aggregator.relabel]
  exact congrArg (fun rows => { s with rows, prev := Hash.map (relabel fun _ => {}) s.prev }) hrows

/-- **Attribution never reaches the accounting.**  After any calls the table without its attributions, its
rows in their order with all counters, rates, samples and times, is the table of the same calls with every
patch left out and every snapshot unattributed. -/
theorem run_unattributed (range : UInt16 × UInt16) (ops : List Op) :
    (run (F := F) range ops).agg.rows.map Row.unattributed =
      (run (F := F) range (ops.filterMap Op.unattributed)).agg.rows := by
  have hrun : (run (F := F) range (ops.filterMap Op.unattributed)).agg =
      (run (F := F) range ops).agg.relabel fun _ => {} := by
    induction ops using List.reverseRecOn with
    | nil => rfl
    | append_singleton ops op ih =>
        rw [List.filterMap_append, run_concat]
        by_cases hpatch : ∃ patch, op = .applyAttributionPatch patch
        · obtain ⟨patch, rfl⟩ := hpatch
          rw [show [Op.applyAttributionPatch patch].filterMap Op.unattributed = [] from rfl, List.append_nil, ih]
          exact (relabel_applyAttributionPatch _ patch).symm
        · have hop : ∀ patch, op ≠ .applyAttributionPatch patch := fun patch h => hpatch ⟨patch, h⟩
          rw [List.filterMap_cons, unattributed_of_ne hop]
          simp only [List.filterMap_nil, run_concat, Traced.step]
          rw [ih, Op.apply_relabel _ _ hop]
  rw [hrun]
  rfl

end Unattributed

end Qiftop.Aggregate
