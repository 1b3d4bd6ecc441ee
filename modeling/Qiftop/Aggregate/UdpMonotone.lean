import Mathlib.Algebra.Order.BigOperators.Group.List
import Qiftop.Aggregate.Table
import Qiftop.Aggregate.Udp

/-!
# Aggregate — UDP totals never go backwards

While UDP aggregation stays on, every aggregate has a row and every aggregate row has an aggregate
(`UdpInv`): the two carry the same time stamp, so they expire together, and the row's counters are
the aggregate's base plus its members.

Within one snapshot nothing is lost either.  What a reset retires and what an expiry folds are
values of different members of the old state (`base_add_gone_le`), so the base cannot wrap around
while the old sum fits the counter, and a byte counter that is not retired has not gone down.

`udp_bytes_monotone` puts the two together for every run.
-/

namespace Qiftop.Aggregate
open Qt Lib Backend Heuristics

/-! ### One aggregate, one snapshot -/

namespace UdpAggState
variable {q : Counter} {nowMs retentionMs : Int} {st : UdpAggState} {cs : List Connection}

/-- A counter of the member a connection belongs to, as a number. -/
def old (q : Counter) (st : UdpAggState) (c : Connection) : ℕ := (q.ofMember (st.member c)).toNat

theorem old_eq_at (q : Counter) (st : UdpAggState) (c : Connection) :
    st.old q c = Hash.at' (fun m => (q.ofMember m).toNat) st.members c.key := by
  unfold old member Hash.at'
  cases st.members.lookup c.key with
  | none => simp
  | some m => rfl

theorem retired_le_old (c : Connection) : (st.retired q c).toNat ≤ st.old q c := by
  unfold retired
  split
  · exact le_rfl
  · exact Nat.zero_le _

theorem sum_retired_le (q : Counter) (st : UdpAggState) (cs : List Connection) :
    (cs.map fun c => (st.retired q c).toNat).sum ≤ (cs.map (st.old q)).sum := by
  induction cs with
  | nil => exact le_rfl
  | cons c cs ih => exact Nat.add_le_add (retired_le_old c) ih

/-- A member seen in this snapshot is not expired in it. -/
theorem not_expired_seen (hret : 0 ≤ retentionMs) (c : Connection) :
    (UdpAggMember.seen nowMs c).expired nowMs retentionMs = false := by
  have h : ¬ nowMs - nowMs > retentionMs := by omega
  exact decide_eq_false h

/-- An expired member is an old member the snapshot does not have. -/
theorem lookup_gone (hnd : (cs.map Connection.key).Nodup) (hret : 0 ≤ retentionMs)
    {k : QString} {m : UdpAggMember}
    (h : ((st.observeAll nowMs cs).gone nowMs retentionMs).lookup k = some m) :
    k ∉ cs.map Connection.key ∧ st.members.lookup k = some m := by
  rw [gone, Hash.lookup_filterMap, Option.bind_eq_some_iff] at h
  obtain ⟨m', hm', he⟩ := h
  have hexp : m'.expired nowMs retentionMs = true ∧ m' = m := by simpa using he
  obtain ⟨hexp, rfl⟩ := hexp
  rw [members_observeAll] at hm'
  have hk : k ∉ cs.map Connection.key := by
    intro hk
    obtain ⟨c, hc, rfl⟩ := List.mem_map.mp hk
    rw [Hash.lookup_insertAll_of_mem hnd hc, Option.some.injEq] at hm'
    rw [← hm', not_expired_seen hret] at hexp
    cases hexp
  rw [Hash.lookup_insertAll_of_notMem hk] at hm'
  exact ⟨hk, hm'⟩

/-- **What a snapshot moves into the base comes from distinct old members.** -/
theorem base_add_gone_le (q : Counter) (nowMs : Int) (st : UdpAggState)
    (hnd : (cs.map Connection.key).Nodup)
    (hret : 0 ≤ retentionMs) :
    (q.base st).toNat + (cs.map (st.old q)).sum +
      Hash.sum (fun m => (q.ofMember m).toNat) ((st.observeAll nowMs cs).gone nowMs retentionMs) ≤
      q.sum st := by
  set g : UdpAggMember → ℕ := fun m => (q.ofMember m).toNat with hg
  set gn := (st.observeAll nowMs cs).gone nowMs retentionMs with hgn
  have hdisj : ((cs.map Connection.key ++ gn.keys).map id).Nodup := by
    rw [List.map_id, List.nodup_append]
    refine ⟨hnd, AList.keys_nodup gn, ?_⟩
    rintro k hk k' hk' rfl
    obtain ⟨m, hm⟩ := Hash.exists_lookup (AList.mem_keys.mpr hk')
    exact (lookup_gone hnd hret hm).1 hk
  have hold : (cs.map (st.old q)) = (cs.map Connection.key).map (Hash.at' g st.members) := by
    rw [List.map_map]
    exact List.map_congr_left fun c _ => old_eq_at q st c
  have hgone : gn.keys.map (Hash.at' g st.members) = gn.keys.map (Hash.at' g gn) :=
    List.map_congr_left fun k hk => by
      obtain ⟨m, hm⟩ := Hash.exists_lookup (AList.mem_keys.mpr hk)
      rw [Hash.at', Hash.at', hm, (lookup_gone hnd hret hm).2]
  have hle : ((cs.map Connection.key ++ gn.keys).map (Hash.at' g st.members)).sum ≤
      Hash.sum g st.members := Hash.sum_at_le hdisj st.members
  rw [List.map_append, List.sum_append, hgone, Hash.sum_keys, ← hold] at hle
  rw [Counter.sum, Nat.add_assoc]
  exact Nat.add_le_add_left hle _

/-- The base after a snapshot's connections, as a number: no wrap-around while the old sum fits. -/
theorem toNat_base_observeAll (q : Counter) (nowMs : Int) (hnd : (cs.map Connection.key).Nodup)
    (hlt : q.sum st < 2 ^ 64) :
    (q.base (st.observeAll nowMs cs)).toNat =
      (q.base st).toNat + (cs.map fun c => (st.retired q c).toNat).sum := by
  have hle := sum_retired_le q st cs
  have hbound := base_add_gone_le q nowMs st hnd (le_refl (0 : Int))
  rw [base_observeAll q nowMs st hnd, UInt64.toNat_add, Counter.toNat_sum, Nat.add_mod_mod,
    Nat.mod_eq_of_lt (by omega)]

/-- **One snapshot's effect on a sum**: the connections' counters and what they retire come in,
their members' old counters go out. -/
theorem sum_observeAll (q : Counter) (nowMs : Int) (hnd : (cs.map Connection.key).Nodup)
    (hlt : q.sum st < 2 ^ 64) :
    q.sum (st.observeAll nowMs cs) + (cs.map (st.old q)).sum =
      q.sum st + (cs.map fun c => (q.ofConnection c).toNat).sum +
        (cs.map fun c => (st.retired q c).toNat).sum := by
  have hins : Hash.sum (fun m => (q.ofMember m).toNat)
        (Hash.insertAll Connection.key (UdpAggMember.seen nowMs) cs st.members) +
      (cs.map (st.old q)).sum = Hash.sum (fun m => (q.ofMember m).toNat) st.members +
        (cs.map fun c => (q.ofConnection c).toNat).sum := by
    have h := Hash.sum_insertAll (fun m => (q.ofMember m).toNat)
      (v := UdpAggMember.seen nowMs) hnd st.members
    simpa only [Counter.ofMember_seen, ← old_eq_at] using h
  rw [Counter.sum, toNat_base_observeAll q nowMs hnd hlt, members_observeAll, Counter.sum]
  omega

/-- Expiry keeps the sum, as a number. -/
theorem sum_expireMembers (q : Counter) (hnd : (cs.map Connection.key).Nodup)
    (hret : 0 ≤ retentionMs) (hlt : q.sum st < 2 ^ 64) :
    q.sum ((st.observeAll nowMs cs).expireMembers nowMs retentionMs) =
      q.sum (st.observeAll nowMs cs) := by
  have hbound := base_add_gone_le q nowMs st hnd hret
  have hle := sum_retired_le q st cs
  have hbase := toNat_base_observeAll q nowMs hnd hlt
  have hgone : (Hash.sum q.ofMember ((st.observeAll nowMs cs).gone nowMs retentionMs)).toNat =
      Hash.sum (fun m => (q.ofMember m).toNat) ((st.observeAll nowMs cs).gone nowMs retentionMs) := by
    rw [Hash.sum, Counter.toNat_sum]
    exact Nat.mod_eq_of_lt (by unfold Hash.sum at hbound; omega)
  have hsplit := Hash.sum_filter_add (fun m => (q.ofMember m).toNat)
    (fun _ m => m.expired nowMs retentionMs) (st.observeAll nowMs cs).members
  rw [Counter.sum, base_expireMembers, UInt64.toNat_add, hgone, Nat.mod_eq_of_lt (by omega),
    Counter.sum, ← hsplit, Nat.add_assoc]
  rfl

/-- A byte counter that went down is retired. -/
theorem old_le_of_bytes (hq : q = .rxBytes ∨ q = .txBytes) (c : Connection) :
    st.old q c ≤ (q.ofConnection c).toNat + (st.retired q c).toNat := by
  unfold retired
  split
  · exact Nat.le_add_left _ _
  · next h =>
      obtain ⟨hrx, htx⟩ := not_or.mp h
      rcases hq with rfl | rfl
      · exact Nat.le_add_right_of_le (Nat.le_of_not_lt hrx)
      · exact Nat.le_add_right_of_le (Nat.le_of_not_lt htx)

/-- **A snapshot does not lower an aggregate's bytes.** -/
theorem sum_le_of_bytes (hq : q = .rxBytes ∨ q = .txBytes) (hnd : (cs.map Connection.key).Nodup)
    (hret : 0 ≤ retentionMs) (hlt : q.sum st < 2 ^ 64) :
    q.sum st ≤ q.sum ((st.observeAll nowMs cs).expireMembers nowMs retentionMs) := by
  have hold : (cs.map (st.old q)).sum ≤
      (cs.map fun c => (q.ofConnection c).toNat).sum +
        (cs.map fun c => (st.retired q c).toNat).sum := by
    rw [← List.sum_map_add]
    exact List.sum_le_sum fun c _ => old_le_of_bytes hq c
  have hstep := sum_observeAll q nowMs hnd hlt
  rw [sum_expireMembers q hnd hret hlt]
  omega

end UdpAggState

/-! ### Aggregates and their rows -/

/-- A row that shows an aggregate: a UDP flow with a known direction. -/
def Row.isAggregate {F : Type} (r : Row F) : Prop := passesThrough r.current = false

instance {F : Type} (r : Row F) : Decidable r.isAggregate :=
  inferInstanceAs (Decidable (_ = false))

/-- While aggregation is on, aggregates and aggregate rows belong together. -/
structure UdpInv {F : Type} (s : Aggregator F) : Prop where
  udpAggregateByPeer_eq : s.udpAggregateByPeer = true
  staleRetentionMsUdp_nonneg : 0 ≤ s.staleRetentionMsUdp
  /-- An aggregate row has an aggregate with the row's time stamp and counters. -/
  row_state : ∀ r ∈ s.rows, r.isAggregate → ∃ st, s.udpAgg.lookup r.key = some st ∧
    st.lastSeenMs = r.lastSeenMs ∧ ∀ q : Counter, q.ofConnection r.current = q.total st
  /-- An aggregate has a row. -/
  state_row : ∀ a ∈ s.udpAgg, ∃ r ∈ s.rows, r.key = a ∧ r.isAggregate

/-- Apart from snapshots and switching aggregation off, no call touches the aggregates. -/
theorem Op.udp_apply {F : Type} [Double F] {s : Aggregator F} {op : Op}
    (hpoll : ∀ nowMs conns, op ≠ .updateConnections nowMs conns)
    (hop : op ≠ .setUdpAggregateByPeer false) (hon : s.udpAggregateByPeer = true) :
    (op.apply s).udpAggregateByPeer = true ∧ (op.apply s).udpAgg = s.udpAgg := by
  cases op with
  | updateConnections nowMs conns => exact absurd rfl (hpoll nowMs conns)
  | applyAttributionPatch patch =>
      obtain ⟨rows, e⟩ := s.applyAttributionPatch_eq patch
      rw [Op.apply, e]
      exact ⟨hon, rfl⟩
  | advanceSmoothing nowMs =>
      simp only [Op.apply, Aggregator.advanceSmoothing]
      split <;> exact ⟨hon, rfl⟩
  | setThroughputWindowMs ms =>
      simp only [Op.apply, Aggregator.setThroughputWindowMs]
      generalize (if ms < 1000 then (1000 : Int) else ms) = w
      split <;> exact ⟨hon, rfl⟩
  | setUdpAggregateByPeer v =>
      cases v with
      | false => exact absurd rfl hop
      | true => exact ⟨rfl, by simp [Op.apply, Aggregator.setUdpAggregateByPeer, hon]⟩
  | setDnsResolver | setHostnameResolutionEnabled | setLocalAddresses | setStaleRetentionMs
  | setStaleRetentionMsUdp | setResolveIfaceAddrsAsLocalhost | setThroughputMaxMode
  | setRateSmoothingMs | setPollIntervalMs => exact ⟨hon, rfl⟩

namespace UdpInv
variable {F : Type} [Double F] {s : Aggregator F} {nowMs : Int} {conns : List Connection}

omit [Double F] in
/-- What the index shows of a UDP flow with a known direction is its aggregate. -/
theorem lookup_incoming (h : UdpInv s) {a : QString} {c : Connection}
    (hc : (s.incoming nowMs conns).lookup a = some c) (hp : passesThrough c = false) :
    ∃ st, (s.nextUdpAgg nowMs conns).lookup a = some st ∧ st.lastSeenMs = nowMs ∧
      ∀ q : Counter, q.ofConnection c = q.total st := by
  have hg := Aggregator.group_ne_nil_of_lookup_incoming h.udpAggregateByPeer_eq hc hp
  obtain ⟨st, k, hst, -, -, -, hin⟩ := Aggregator.lookup_incoming_of_group nowMs
    h.udpAggregateByPeer_eq h.staleRetentionMsUdp_nonneg hg
  have hst' := Aggregator.lookup_nextUdpAgg_of_group nowMs h.udpAggregateByPeer_eq
    h.staleRetentionMsUdp_nonneg hg
  rw [hst, Option.some.injEq] at hst'
  rw [hin, Option.some.injEq] at hc
  refine ⟨st, hst, ?_, fun q => ?_⟩
  · rw [hst']
    exact UdpAggState.lastSeenMs_observeAll _ _ hg
  · rw [← hc, Counter.ofConnection_withTotals]

omit [Double F] in
/-- A peer missing from the snapshot keeps its aggregate, up to expiry. -/
theorem lookup_of_notMem (h : UdpInv s) {a : QString} (ha : a ∉ s.incoming nowMs conns) :
    (s.nextUdpAgg nowMs conns).lookup a = (s.udpAgg.lookup a).bind fun st =>
      if nowMs - st.lastSeenMs > s.staleRetentionMsUdp then none
      else some (st.expireMembers nowMs s.staleRetentionMsUdp) := by
  have hg : s.group conns a = [] := by
    by_contra hg
    obtain ⟨st, k, -, -, -, -, hin⟩ := Aggregator.lookup_incoming_of_group nowMs
      h.udpAggregateByPeer_eq h.staleRetentionMsUdp_nonneg hg
    exact ha (Hash.mem_of_lookup hin)
  rw [Aggregator.lookup_nextUdpAgg h.udpAggregateByPeer_eq, if_pos hg]

omit [Double F] in
/-- The key of an aggregate is that of a UDP flow with a known direction. -/
theorem exists_key_eq (h : UdpInv s) {a : QString} (ha : a ∈ s.nextUdpAgg nowMs conns) :
    ∃ k : Connection, k.key = a ∧ passesThrough k = false := by
  obtain ⟨st, hst⟩ := Hash.exists_lookup ha
  by_cases hg : s.group conns a = []
  · rw [Aggregator.lookup_nextUdpAgg h.udpAggregateByPeer_eq, if_pos hg,
      Option.bind_eq_some_iff] at hst
    obtain ⟨st₀, hst₀, -⟩ := hst
    obtain ⟨r, -, hk, hagg⟩ := h.state_row a (Hash.mem_of_lookup hst₀)
    exact ⟨r.current, hk, hagg⟩
  · obtain ⟨-, k, -, hk, hp, -, -⟩ := Aggregator.lookup_incoming_of_group nowMs
      h.udpAggregateByPeer_eq h.staleRetentionMsUdp_nonneg hg
    exact ⟨k, hk, hp⟩

/-- A row missing from the snapshot is pruned exactly when its aggregate is erased. -/
theorem pruned_iff_erased (h : UdpInv s) {r : Row F} (hr : r ∈ s.rows) (hagg : r.isAggregate)
    (hk : r.key ∉ s.incoming nowMs conns) :
    s.pruned nowMs (s.updateRow nowMs (s.incoming nowMs conns) r) = true ↔
      r.key ∉ s.nextUdpAgg nowMs conns := by
  obtain ⟨st, hst, hseen, -⟩ := h.row_state r hr hagg
  obtain ⟨hcur, hlast⟩ := Aggregator.updateRow_of_notMem hk
  have hproto : r.current.proto = .Udp := by
    have := hagg
    simp only [Row.isAggregate, passesThrough, Bool.or_eq_false_iff, decide_eq_false_iff_not,
      ne_eq, not_not] at this
    exact this.1
  rw [← AList.lookup_eq_none, h.lookup_of_notMem hk, hst, Option.bind_some, Aggregator.pruned,
    Aggregator.stale_updateRow_of_notMem hk, hcur, hlast, hproto, hseen, Aggregator.retentionFor,
    if_pos rfl, Bool.true_and, decide_eq_true_eq]
  split
  · next hlt => exact ⟨fun _ => rfl, fun _ => hlt⟩
  · next hlt => exact ⟨fun h' => absurd h' hlt, fun h' => by cases h'⟩

/-- A row missing from the snapshot that stays has its aggregate, as it was. -/
theorem row_state_of_notMem (h : UdpInv s) {r : Row F} (hr : r ∈ s.rows) (hagg : r.isAggregate)
    (hk : r.key ∉ s.incoming nowMs conns)
    (hp : s.pruned nowMs (s.updateRow nowMs (s.incoming nowMs conns) r) = false) :
    ∃ st, (s.nextUdpAgg nowMs conns).lookup r.key = some st ∧ st.lastSeenMs = r.lastSeenMs ∧
      ∀ q : Counter, q.ofConnection r.current = q.total st := by
  obtain ⟨st, hst, hseen, hq⟩ := h.row_state r hr hagg
  have hkept : r.key ∈ s.nextUdpAgg nowMs conns := by
    by_contra hn
    rw [(h.pruned_iff_erased hr hagg hk).mpr hn] at hp
    cases hp
  obtain ⟨st', hst'⟩ := Hash.exists_lookup hkept
  refine ⟨st', hst', ?_⟩
  rw [h.lookup_of_notMem hk, hst, Option.bind_some] at hst'
  split at hst'
  · cases hst'
  · obtain rfl := Option.some.inj hst'
    refine ⟨hseen, fun q => ?_⟩
    rw [hq, UdpAggState.total_expireMembers]

/-- An aggregate missing from the snapshot that stays has its row. -/
theorem state_row_of_notMem (h : UdpInv s) {a : QString} (ha : a ∈ s.nextUdpAgg nowMs conns)
    (hk : a ∉ s.incoming nowMs conns) :
    ∃ r ∈ (s.updateConnections nowMs conns).rows, r.key = a ∧ r.isAggregate := by
  obtain ⟨st', hst'⟩ := Hash.exists_lookup ha
  rw [h.lookup_of_notMem hk, Option.bind_eq_some_iff] at hst'
  obtain ⟨st, hst, -⟩ := hst'
  obtain ⟨r, hr, rfl, hagg⟩ := h.state_row a (Hash.mem_of_lookup hst)
  obtain ⟨hcur, -⟩ := Aggregator.updateRow_of_notMem hk
  refine ⟨_, Aggregator.mem_rows_updateConnections.mpr (.inl ⟨r, hr, rfl, ?_⟩),
    Aggregator.key_updateRow r, ?_⟩
  · by_contra hp
    exact (h.pruned_iff_erased hr hagg hk).mp (by simpa using hp) ha
  · rw [Row.isAggregate, hcur]
    exact hagg

/-- **A snapshot keeps the correspondence.** -/
theorem updateConnections (h : UdpInv s) (nowMs : Int) (conns : List Connection) :
    UdpInv (s.updateConnections nowMs conns) where
  udpAggregateByPeer_eq := h.udpAggregateByPeer_eq
  staleRetentionMsUdp_nonneg := h.staleRetentionMsUdp_nonneg
  row_state r' hr' hagg := by
    rcases Aggregator.mem_rows_updateConnections.mp hr' with ⟨r, hr, rfl, hp⟩ | ⟨c, hc, rfl⟩
    · rw [Aggregator.key_updateRow]
      by_cases hk : r.key ∈ s.incoming nowMs conns
      · obtain ⟨c, hc⟩ := Hash.exists_lookup hk
        rw [Aggregator.updateRow_of_lookup hc] at hagg ⊢
        exact h.lookup_incoming hc hagg
      · obtain ⟨hcur, hlast⟩ := Aggregator.updateRow_of_notMem hk
        rw [Row.isAggregate, hcur] at hagg
        rw [hcur, hlast]
        exact h.row_state_of_notMem hr hagg hk hp
    · exact h.lookup_incoming (Aggregator.mem_fresh.mp hc).1 hagg
  state_row a ha := by
    have ha' : a ∈ s.nextUdpAgg nowMs conns := ha
    by_cases hk : a ∈ s.incoming nowMs conns
    · obtain ⟨r', hr', rfl, hl⟩ := Aggregator.exists_live_of_mem_incoming hk
      obtain ⟨k, hkey, hp⟩ := h.exists_key_eq ha'
      exact ⟨r', hr', rfl, (passesThrough_congr hkey.symm).trans hp⟩
    · exact h.state_row_of_notMem ha' hk

omit [Double F] in
/-- A call that leaves the table and the UDP settings alone keeps the correspondence. -/
theorem congr (h : UdpInv s) {s' : Aggregator F} (e : SameTable s s')
    (hon : s'.udpAggregateByPeer = true) (hret : 0 ≤ s'.staleRetentionMsUdp)
    (hagg : s'.udpAgg = s.udpAgg) : UdpInv s' where
  udpAggregateByPeer_eq := hon
  staleRetentionMsUdp_nonneg := hret
  row_state r' hr' ha := by
    obtain ⟨r, hr, hcore⟩ := e.back r' hr'
    have hflow : flow r.current = flow r'.current := congrArg RowCore.flow hcore
    have hra : r.isAggregate := (passesThrough_congr (Row.key_eq_of_core hcore)).trans ha
    obtain ⟨st, hst, hseen, hq⟩ := h.row_state r hr hra
    refine ⟨st, ?_, hseen.trans (congrArg RowCore.lastSeenMs hcore), fun q => ?_⟩
    · rw [hagg, ← Row.key_eq_of_core hcore, hst]
    · have hqf : ∀ c, q.ofConnection (flow c) = q.ofConnection c := by
        intro c
        cases q <;> rfl
      rw [← hq, ← hqf, ← hflow, hqf]
  state_row a ha := by
    obtain ⟨r, hr, hk, hra⟩ := h.state_row a (hagg ▸ ha)
    obtain ⟨r', hr', hcore⟩ := e.forth r hr
    have hkey := Row.key_eq_of_core hcore
    exact ⟨r', hr', hkey.trans hk, (passesThrough_congr hkey).trans hra⟩

/-- **Every call but switching aggregation off keeps the correspondence.** -/
theorem step (h : UdpInv s) {op : Op} (hop : op ≠ .setUdpAggregateByPeer false) :
    UdpInv (op.apply s) := by
  rcases op.cases_poll with ⟨nowMs, conns, rfl⟩ | hpoll
  · exact h.updateConnections nowMs conns
  · obtain ⟨hon, hagg⟩ := op.udp_apply hpoll hop h.udpAggregateByPeer_eq
    exact h.congr (op.sameTable s hpoll) hon
      (op.staleRetentionMsUdp_nonneg h.staleRetentionMsUdp_nonneg) hagg

end UdpInv

/-! ### Runs -/

section Run
variable {F : Type} [Double F]

theorem udpInv_run (range : UInt16 × UInt16) {ops : List Op}
    (hon : ∀ op ∈ ops, op ≠ .setUdpAggregateByPeer false) :
    UdpInv (run (F := F) range ops).agg := by
  induction ops using List.reverseRecOn with
  | nil =>
      exact {
        udpAggregateByPeer_eq := rfl
        staleRetentionMsUdp_nonneg := (by decide : (0 : Int) ≤ 60000)
        row_state := fun r hr => absurd hr (by simp [run, Aggregator.init])
        state_row := fun a ha => absurd ha (by simp [run, Aggregator.init]) }
  | append_singleton ops op ih =>
      rw [run_concat]
      exact (ih fun o ho => hon o (List.mem_append_left _ ho)).step
        (hon op (List.mem_append_right _ List.mem_cons_self))

/-- A snapshot has no two connections of one key, after direction inference. -/
def DistinctKeys (s : Aggregator F) : Op → Prop
  | .updateConnections _ conns => ((conns.map s.direct).map Connection.key).Nodup
  | _ => True

/-- The byte sums of every aggregate, base and members together, fit their counters. -/
def ByteSumsFit (s : Aggregator F) : Prop :=
  ∀ st ∈ Hash.values s.udpAgg,
    Counter.rxBytes.sum st < 2 ^ 64 ∧ Counter.txBytes.sum st < 2 ^ 64

instance (s : Aggregator F) : Decidable (ByteSumsFit s) :=
  inferInstanceAs (Decidable (∀ st ∈ _, _ ∧ _))

omit [Double F] in
/-- An aggregate row's bytes, as numbers. -/
theorem UdpInv.bytes_eq {s : Aggregator F} (h : UdpInv s) (hfit : ByteSumsFit s) {r : Row F}
    (hr : r ∈ s.rows) (ha : r.isAggregate) :
    ∃ st, s.udpAgg.lookup r.key = some st ∧
      r.current.rxBytes.toNat = Counter.rxBytes.sum st ∧
      r.current.txBytes.toNat = Counter.txBytes.sum st := by
  obtain ⟨st, hst, -, hq⟩ := h.row_state r hr ha
  obtain ⟨hrx, htx⟩ := hfit st (Hash.mem_values_iff.mpr ⟨_, hst⟩)
  refine ⟨st, hst, ?_, ?_⟩
  · rw [← Counter.toNat_total_of_lt hrx, ← hq .rxBytes]
    rfl
  · rw [← Counter.toNat_total_of_lt htx, ← hq .txBytes]
    rfl

/-- The sums of an aggregate that a call leaves in place do not go down. -/
theorem UdpInv.sum_le {s : Aggregator F} (h : UdpInv s) {op : Op}
    (hop : op ≠ .setUdpAggregateByPeer false) (hkeys : DistinctKeys s op) {q : Counter}
    (hq : q = .rxBytes ∨ q = .txBytes) {a : QString} {st st' : UdpAggState}
    (hst : s.udpAgg.lookup a = some st) (hst' : (op.apply s).udpAgg.lookup a = some st')
    (hlt : q.sum st < 2 ^ 64) : q.sum st ≤ q.sum st' := by
  rcases op.cases_poll with ⟨nowMs, conns, rfl⟩ | hpoll
  · have hst'' : (s.nextUdpAgg nowMs conns).lookup a = some st' := hst'
    rw [Aggregator.lookup_nextUdpAgg h.udpAggregateByPeer_eq, Option.bind_eq_some_iff] at hst''
    obtain ⟨st₁, h₁, h₂⟩ := hst''
    -- a peer without connections is the same statement with an empty list
    have hst₁ : st₁ = st.observeAll nowMs (s.group conns a) := by
      rw [hst, Option.getD_some] at h₁
      split at h₁
      · next hnil =>
          rw [hnil]
          exact (Option.some.inj h₁).symm
      · exact (Option.some.inj h₁).symm
    split at h₂
    · cases h₂
    · rw [← Option.some.inj h₂, hst₁]
      exact UdpAggState.sum_le_of_bytes hq (Aggregator.nodup_group hkeys a)
        h.staleRetentionMsUdp_nonneg hlt
  · rw [(op.udp_apply hpoll hop h.udpAggregateByPeer_eq).2, hst] at hst'
    rw [Option.some.inj hst']

/-- **UDP totals never go backwards.**  In every run with aggregation on, and for the next call of
the run, a snapshot with distinct keys or any other: an aggregate row's bytes are its base plus its
current members, they are no less than before the call if the row was there, and an aggregate the
call erases had a row that the call, a snapshot, has pruned. -/
theorem udp_bytes_monotone (range : UInt16 × UInt16) (ops : List Op) (op : Op)
    (hon : ∀ o ∈ ops ++ [op], o ≠ .setUdpAggregateByPeer false)
    (hkeys : DistinctKeys (run (F := F) range ops).agg op)
    (hfit : ByteSumsFit (run (F := F) range ops).agg)
    (hfit' : ByteSumsFit (run (F := F) range (ops ++ [op])).agg) :
    let s := (run (F := F) range ops).agg
    let s' := (run (F := F) range (ops ++ [op])).agg
    (∀ r' ∈ s'.rows, r'.isAggregate → ∃ st, s'.udpAgg.lookup r'.key = some st ∧
      r'.current.rxBytes.toNat = st.rxBase.toNat + Hash.sum (·.rxBytes.toNat) st.members ∧
      r'.current.txBytes.toNat = st.txBase.toNat + Hash.sum (·.txBytes.toNat) st.members) ∧
    (∀ r ∈ s.rows, ∀ r' ∈ s'.rows, r.isAggregate → r'.key = r.key →
      r.current.rxBytes ≤ r'.current.rxBytes ∧ r.current.txBytes ≤ r'.current.txBytes) ∧
    ∀ a ∈ s.udpAgg, a ∉ s'.udpAgg → (∃ nowMs conns, op = .updateConnections nowMs conns) ∧
      (∃ r ∈ s.rows, r.key = a ∧ r.isAggregate) ∧ ∀ r' ∈ s'.rows, r'.key ≠ a := by
  intro s s'
  have hinv : UdpInv s := udpInv_run range fun o ho => hon o (List.mem_append_left _ ho)
  have hinv' : UdpInv s' := udpInv_run range hon
  have hop := hon op (List.mem_append_right _ List.mem_cons_self)
  have hs' : s' = op.apply s := by simp only [s', run_concat]; rfl
  refine ⟨fun r' hr' ha => hinv'.bytes_eq hfit' hr' ha, fun r hr r' hr' ha hk => ?_,
    fun a ha ha' => ?_⟩
  · have ha' : r'.isAggregate := (passesThrough_congr hk).trans ha
    obtain ⟨st, hst, hrx, htx⟩ := hinv.bytes_eq hfit hr ha
    obtain ⟨st', hst', hrx', htx'⟩ := hinv'.bytes_eq hfit' hr' ha'
    rw [hk, hs'] at hst'
    obtain ⟨hlrx, hltx⟩ := hfit st (Hash.mem_values_iff.mpr ⟨_, hst⟩)
    rw [UInt64.le_iff_toNat_le, UInt64.le_iff_toNat_le, hrx, htx, hrx', htx']
    exact ⟨hinv.sum_le hop hkeys (.inl rfl) hst hst' hlrx,
      hinv.sum_le hop hkeys (.inr rfl) hst hst' hltx⟩
  · -- no other call forgets an aggregate
    have hpoll : ∃ nowMs conns, op = .updateConnections nowMs conns := by
      rcases op.cases_poll with hpoll | hpoll
      · exact hpoll
      · rw [hs', (op.udp_apply hpoll hop hinv.udpAggregateByPeer_eq).2] at ha'
        exact absurd ha ha'
    refine ⟨hpoll, hinv.state_row a ha, fun r' hr' hk => ?_⟩
    obtain ⟨r, -, hrk, hra⟩ := hinv.state_row a ha
    have hra' : r'.isAggregate := (passesThrough_congr (hk.trans hrk.symm)).trans hra
    obtain ⟨st', hst', -⟩ := hinv'.row_state r' hr' hra'
    exact ha' (hk ▸ Hash.mem_of_lookup hst')

end Run

/-- A flow to a name server from a local port. -/
def dnsFlow (port : UInt16) (rxBytes txBytes : UInt64) : Connection :=
  { «local» := ⟨⟨.IPv4Protocol, "192.0.2.1".toList⟩, port⟩
    remote := ⟨⟨.IPv4Protocol, "192.0.2.53".toList⟩, 53⟩
    proto := .Udp, direction := .Outbound, rxBytes, txBytes }

/-- Two lookups to one server; at the second snapshot one flow's counters were reset and the other
flow is gone. -/
theorem udp_bytes_monotone_dns :
    let range : UInt16 × UInt16 := (32768, 60999)
    let ops := [Op.updateConnections 1000 [dnsFlow 40000 100 10, dnsFlow 40001 7 7]]
    let op := Op.updateConnections 2000 [dnsFlow 40000 40 60]
    let s := (run (F := ℚ) range ops).agg
    let s' := (run (F := ℚ) range (ops ++ [op])).agg
    s.rows.map (·.current.rxBytes) = [107] ∧ s'.rows.map (·.current.rxBytes) = [147] ∧
      ∀ r ∈ s.rows, ∀ r' ∈ s'.rows, r.isAggregate → r'.key = r.key →
        r.current.rxBytes ≤ r'.current.rxBytes ∧ r.current.txBytes ≤ r'.current.txBytes :=
  ⟨by decide +kernel, by decide +kernel,
    (udp_bytes_monotone (32768, 60999)
      [.updateConnections 1000 [dnsFlow 40000 100 10, dnsFlow 40001 7 7]]
      (.updateConnections 2000 [dnsFlow 40000 40 60]) (by simp)
      (show List.Nodup _ by decide +kernel) (by decide +kernel) (by decide +kernel)).2.1⟩

end Qiftop.Aggregate
