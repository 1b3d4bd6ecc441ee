import Mathlib.Algebra.BigOperators.Group.List.Basic
import Mathlib.Algebra.Group.Nat.Defs
import Mathlib.Data.Fintype.Basic
import Qiftop.Aggregate.Rows

/-!
# Aggregate — the UDP pass in closed form

The aggregation loop interleaves its work: each connection updates the aggregate of its peer, and
within that aggregate its own member.  Here the interleaving is undone.

* `lookup_udpPass`: the aggregate of a peer is updated by the peer's connections, in order, and by
  no others; `udpPass_passthrough`, `lookup_udpPass_agg` say the same of the pass's two outputs.
* `base_observeAll`, `members_observeAll`, `total_observeAll`: with distinct keys a peer's
  connections retire members of the *old* state only, so nothing depends on their order.
* `total_expireMembers`: expiry moves counters from the members to the base and keeps the sum.
* `lookup_incoming_of_group`: what the row index shows for a peer of the snapshot.

The four counters are treated alike: `Counter` names one, and `Counter.ofConnection`,
`Counter.ofMember` and `Counter.base` read it.
-/

namespace Qiftop.Aggregate
open Qt Lib Backend Heuristics

/-! ### Counters -/

inductive Counter where
  | rxBytes | txBytes | rxPackets | txPackets
  deriving DecidableEq, Repr

instance : Fintype Counter where
  elems := {.rxBytes, .txBytes, .rxPackets, .txPackets}
  complete q := by cases q <;> decide

namespace Counter

def ofConnection : Counter → Connection → UInt64
  | rxBytes, c => c.rxBytes
  | txBytes, c => c.txBytes
  | rxPackets, c => c.rxPackets
  | txPackets, c => c.txPackets

def ofMember : Counter → UdpAggMember → UInt64
  | rxBytes, m => m.rxBytes
  | txBytes, m => m.txBytes
  | rxPackets, m => m.rxPackets
  | txPackets, m => m.txPackets

def base : Counter → UdpAggState → UInt64
  | rxBytes, st => st.rxBase
  | txBytes, st => st.txBase
  | rxPackets, st => st.rxPktBase
  | txPackets, st => st.txPktBase

/-- Base plus current members, in the counter's own width. -/
def total (q : Counter) (st : UdpAggState) : UInt64 :=
  q.base st + Hash.sum q.ofMember st.members

/-- Base plus current members, as a number. -/
def sum (q : Counter) (st : UdpAggState) : ℕ :=
  (q.base st).toNat + Hash.sum (fun m => (q.ofMember m).toNat) st.members

@[simp] theorem ofMember_seen (q : Counter) (nowMs : Int) (c : Connection) :
    q.ofMember (.seen nowMs c) = q.ofConnection c := by cases q <;> rfl

@[simp] theorem ofMember_default (q : Counter) : q.ofMember {} = 0 := by cases q <;> rfl

theorem ofConnection_withTotals (q : Counter) (st : UdpAggState) (k : Connection) :
    q.ofConnection (st.withTotals k) = q.total st := by cases q <;> rfl

/-- A sum of counters, computed in the counter's width. -/
theorem toNat_sum {α : Type} (g : α → UInt64) (l : List α) :
    ((l.map g).sum).toNat = ((l.map fun a => (g a).toNat).sum) % 2 ^ 64 := by
  induction l with
  | nil => rfl
  | cons a l ih =>
      rw [List.map_cons, List.sum_cons, UInt64.toNat_add, ih, List.map_cons, List.sum_cons,
        Nat.add_mod_mod]

/-- The width loses nothing while the sum fits. -/
theorem toNat_total (q : Counter) (st : UdpAggState) :
    (q.total st).toNat = q.sum st % 2 ^ 64 := by
  rw [total, UInt64.toNat_add, Hash.sum, toNat_sum, Nat.add_mod_mod]
  rfl

theorem toNat_total_of_lt {q : Counter} {st : UdpAggState} (h : q.sum st < 2 ^ 64) :
    (q.total st).toNat = q.sum st := by
  rw [toNat_total, Nat.mod_eq_of_lt h]

end Counter

/-! ### One aggregate -/

namespace UdpAggState

/-- The member a connection belongs to, as the aggregate remembers it. -/
def member (st : UdpAggState) (c : Connection) : UdpAggMember :=
  (st.members.lookup c.key).getD {}

/-- A byte counter went down since the member was last seen. -/
def Resets (m : UdpAggMember) (c : Connection) : Prop :=
  c.rxBytes < m.rxBytes ∨ c.txBytes < m.txBytes

instance (m : UdpAggMember) (c : Connection) : Decidable (Resets m c) :=
  inferInstanceAs (Decidable (_ ∨ _))

/-- What a connection retires into the base. -/
def retired (q : Counter) (st : UdpAggState) (c : Connection) : UInt64 :=
  if Resets (st.member c) c then q.ofMember (st.member c) else 0

theorem base_observe (q : Counter) (nowMs : Int) (c : Connection) (st : UdpAggState) :
    q.base (st.observe nowMs c) = q.base st + st.retired q c := by
  unfold observe
  by_cases h : Resets (st.member c) c
  · have h' : c.rxBytes < (st.member c).rxBytes ∨ c.txBytes < (st.member c).txBytes := h
    rw [retired, if_pos h]
    unfold member at h' ⊢
    rw [if_pos h']
    cases q <;> rfl
  · have h' : ¬ (c.rxBytes < (st.member c).rxBytes ∨ c.txBytes < (st.member c).txBytes) := h
    rw [retired, if_neg h, add_zero]
    unfold member at h'
    rw [if_neg h']
    cases q <;> rfl

theorem members_observe (nowMs : Int) (c : Connection) (st : UdpAggState) :
    (st.observe nowMs c).members = st.members.insert c.key (.seen nowMs c) := by
  simp only [observe]
  split <;> rfl

theorem lastSeenMs_observe (nowMs : Int) (c : Connection) (st : UdpAggState) :
    (st.observe nowMs c).lastSeenMs = nowMs := by
  simp only [observe]
  split <;> rfl

/-- The connections of one peer, in snapshot order. -/
def observeAll (nowMs : Int) (st : UdpAggState) (cs : List Connection) : UdpAggState :=
  cs.foldl (fun st c => st.observe nowMs c) st

theorem observeAll_concat (nowMs : Int) (st : UdpAggState) (cs : List Connection)
    (c : Connection) :
    st.observeAll nowMs (cs ++ [c]) = (st.observeAll nowMs cs).observe nowMs c := by
  simp [observeAll]

theorem members_observeAll (nowMs : Int) (st : UdpAggState) (cs : List Connection) :
    (st.observeAll nowMs cs).members =
      Hash.insertAll Connection.key (UdpAggMember.seen nowMs) cs st.members := by
  induction cs using List.reverseRecOn with
  | nil => rfl
  | append_singleton cs c ih =>
      rw [observeAll_concat, members_observe, ih, Hash.insertAll_concat]

theorem lastSeenMs_observeAll (nowMs : Int) (st : UdpAggState) {cs : List Connection}
    (h : cs ≠ []) : (st.observeAll nowMs cs).lastSeenMs = nowMs := by
  induction cs using List.reverseRecOn with
  | nil => exact absurd rfl h
  | append_singleton cs c _ => rw [observeAll_concat, lastSeenMs_observe]

/-- **With distinct keys each connection retires from the old state.** -/
theorem base_observeAll (q : Counter) (nowMs : Int) (st : UdpAggState) {cs : List Connection}
    (hnd : (cs.map Connection.key).Nodup) :
    q.base (st.observeAll nowMs cs) = q.base st + (cs.map (st.retired q)).sum := by
  induction cs using List.reverseRecOn with
  | nil => simp [observeAll]
  | append_singleton cs c ih =>
      rw [List.map_append, List.nodup_append] at hnd
      obtain ⟨hnd, -, hdis⟩ := hnd
      have hc : c.key ∉ cs.map Connection.key := fun h => hdis _ h c.key (by simp) rfl
      -- the connections before `c` have other keys, so `c` finds the member of `st`
      have hmem : (st.observeAll nowMs cs).member c = st.member c := by
        rw [member, members_observeAll, Hash.lookup_insertAll_of_notMem hc, member]
      have hret : (st.observeAll nowMs cs).retired q c = st.retired q c := by
        rw [retired, retired, hmem]
      rw [observeAll_concat, base_observe, ih hnd, hret, List.map_append, List.sum_append,
        List.map_singleton, List.sum_singleton, add_assoc]

/-- The totals after a snapshot's connections. -/
theorem total_observeAll (q : Counter) (nowMs : Int) (st : UdpAggState)
    {cs : List Connection} (hnd : (cs.map Connection.key).Nodup) :
    q.total (st.observeAll nowMs cs) + (cs.map fun c => q.ofMember (st.member c)).sum =
      q.total st + (cs.map fun c => q.ofConnection c + st.retired q c).sum := by
  have hat : ∀ c : Connection, Hash.at' q.ofMember st.members c.key = q.ofMember (st.member c) := by
    intro c
    unfold Hash.at' member
    cases st.members.lookup c.key with
    | none => exact (Counter.ofMember_default q).symm
    | some m => rfl
  have hins : Hash.sum q.ofMember (Hash.insertAll Connection.key (UdpAggMember.seen nowMs) cs
      st.members) + (cs.map fun c => q.ofMember (st.member c)).sum =
      Hash.sum q.ofMember st.members + (cs.map q.ofConnection).sum := by
    have h := Hash.sum_insertAll q.ofMember (v := UdpAggMember.seen nowMs) hnd st.members
    simpa only [Counter.ofMember_seen, hat] using h
  rw [Counter.total, base_observeAll q nowMs st hnd, members_observeAll,
    Counter.total, List.sum_map_add, add_assoc, hins]
  ac_rfl

/-! ### Expiry -/

/-- The members an expiry folds into the base. -/
def gone (nowMs retentionMs : Int) (st : UdpAggState) : Hash QString UdpAggMember :=
  Hash.filterMap (fun _ m => if m.expired nowMs retentionMs then some m else none) st.members

theorem base_expireMembers (q : Counter) (nowMs retentionMs : Int) (st : UdpAggState) :
    q.base (st.expireMembers nowMs retentionMs) =
      q.base st + Hash.sum q.ofMember (st.gone nowMs retentionMs) := by
  cases q <;> rfl

/-- **Expiry keeps the total.** -/
theorem total_expireMembers (q : Counter) (nowMs retentionMs : Int) (st : UdpAggState) :
    q.total (st.expireMembers nowMs retentionMs) = q.total st := by
  have hsplit := Hash.sum_filter_add q.ofMember (fun _ m => m.expired nowMs retentionMs) st.members
  rw [Counter.total, base_expireMembers, Counter.total, ← hsplit, add_assoc]
  rfl

theorem lookup_members_expireMembers (nowMs retentionMs : Int) (st : UdpAggState) (k : QString) :
    (st.expireMembers nowMs retentionMs).members.lookup k =
      (st.members.lookup k).bind fun m => if m.expired nowMs retentionMs then none else some m :=
  Hash.lookup_filterMap _ _ _

end UdpAggState

/-! ### The pass -/

/-- Aggregation keys are those of a UDP flow with a known direction. -/
theorem passesThrough_udpPeer (c : Connection) : passesThrough (udpPeer c) = passesThrough c := by
  unfold udpPeer
  split <;> rfl

/-- Whether a flow passes through can be read off its key. -/
theorem passesThrough_congr {c d : Connection} (h : c.key = d.key) :
    passesThrough c = passesThrough d := by
  obtain ⟨hp, hd, -⟩ := Connection.key_inj_iff.mp h
  rw [passesThrough, passesThrough, hp, hd]

namespace Aggregator
variable {F : Type} [Double F] {s : Aggregator F} {nowMs : Int} {conns : List Connection}

/-- The connections the aggregation takes, after direction inference. -/
def aggregated (s : Aggregator F) (conns : List Connection) : List Connection :=
  (conns.map s.direct).filter fun c => !passesThrough c

/-- The connections of one peer. -/
def group (s : Aggregator F) (conns : List Connection) (a : QString) : List Connection :=
  (s.aggregated conns).filter fun c => (udpPeer c).key = a

omit [Double F] in
theorem mem_group {a : QString} {c : Connection} :
    c ∈ s.group conns a ↔
      c ∈ conns.map s.direct ∧ passesThrough c = false ∧ (udpPeer c).key = a := by
  simp only [group, aggregated, List.mem_filter, decide_eq_true_eq, Bool.not_eq_true', and_assoc]

omit [Double F] in
/-- The connections of one peer have distinct keys if the snapshot's have. -/
theorem nodup_group  (h : ((conns.map s.direct).map Connection.key).Nodup) (a : QString) :
    ((s.group conns a).map Connection.key).Nodup :=
  h.sublist ((List.filter_sublist.trans List.filter_sublist).map Connection.key)

/-- The three parts of the pass. -/
theorem foldl_udpPass (cs : List Connection) (p : UdpPass) :
    (cs.foldl (UdpPass.step nowMs) p).passthrough = p.passthrough ++ cs.filter passesThrough ∧
      (cs.foldl (UdpPass.step nowMs) p).udpAgg =
        Hash.upsertAll (fun c => (udpPeer c).key) (fun st c => UdpAggState.observe nowMs c st) {}
          (cs.filter fun c => !passesThrough c) p.udpAgg ∧
      ∀ a, (cs.foldl (UdpPass.step nowMs) p).agg.lookup a =
        (p.agg.lookup a).or
          ((cs.find? fun c => !passesThrough c && decide ((udpPeer c).key = a)).map udpPeer) := by
  induction cs using List.reverseRecOn with
  | nil => simp [Hash.upsertAll]
  | append_singleton cs c ih =>
      obtain ⟨hpass, hagg, hfirst⟩ := ih
      rw [List.foldl_append, List.foldl_cons, List.foldl_nil, List.filter_append,
        List.filter_append]
      generalize cs.foldl (UdpPass.step nowMs) p = p' at hpass hagg hfirst ⊢
      by_cases hc : passesThrough c = true
      · simp [UdpPass.step, hc, hpass, hagg, hfirst]
      · have hf : [c].filter passesThrough = [] := by simp [hc]
        have hf' : ([c].filter fun c => !passesThrough c) = [c] := by simp [hc]
        rw [UdpPass.step, if_neg hc, hf, hf', List.append_nil, Hash.upsertAll_concat, ← hagg]
        refine ⟨hpass, rfl, fun a => ?_⟩
        -- the first connection of a peer stays; `c` counts only if its peer had none
        have hlast : ((cs ++ [c]).find? fun c => !passesThrough c &&
            decide ((udpPeer c).key = a)).map udpPeer =
            ((cs.find? fun c => !passesThrough c && decide ((udpPeer c).key = a)).map udpPeer).or
              (if a = (udpPeer c).key then some (udpPeer c) else none) := by
          rw [List.find?_append, Option.map_or]
          congr 1
          by_cases ha : a = (udpPeer c).key
          · simp [hc, ha]
          · simp [ha, Ne.symm ha]
        rw [hlast, ← Option.or_assoc, ← hfirst]
        dsimp only
        by_cases hm : (udpPeer c).key ∈ p'.agg
        · rw [if_pos hm]
          split
          · next ha =>
              obtain ⟨k, hk⟩ := Hash.exists_lookup hm
              rw [ha, hk, Option.some_or]
          · rw [Option.or_none]
        · rw [if_neg hm, Hash.lookup_insert_ite]
          split
          · next ha => rw [ha, AList.lookup_eq_none.mpr hm, Option.none_or]
          · rw [Option.or_none]

omit [Double F] in
theorem udpPass_passthrough :
    (s.udpPass nowMs (conns.map s.direct)).passthrough =
      (conns.map s.direct).filter passesThrough := by
  rw [udpPass, (foldl_udpPass _ _).1, List.nil_append]

omit [Double F] in
theorem group_eq_nil {a : QString} :
    s.group conns a = [] ↔ a ∉ (s.aggregated conns).map fun c => (udpPeer c).key := by
  rw [group, List.filter_eq_nil_iff, List.mem_map]
  constructor
  · rintro h ⟨c, hc, e⟩
    exact h c hc (by simpa using e)
  · intro h c hc e
    exact h ⟨c, hc, by simpa using e⟩

omit [Double F] in
/-- **The aggregate of a peer is updated by the peer's connections only.** -/
theorem lookup_udpPass (a : QString) :
    (s.udpPass nowMs (conns.map s.direct)).udpAgg.lookup a =
      if s.group conns a = [] then s.udpAgg.lookup a
      else some (((s.udpAgg.lookup a).getD {}).observeAll nowMs (s.group conns a)) := by
  rw [udpPass, (foldl_udpPass _ _).2.1, ← aggregated, Hash.lookup_upsertAll]
  by_cases h : s.group conns a = []
  · rw [if_pos h, if_neg (group_eq_nil.mp h)]
  · have hm := not_not.mp (mt group_eq_nil.mpr h)
    rw [if_neg h, if_pos hm]
    rfl

omit [Double F] in
/-- The connection shown for a peer is its first one. -/
theorem lookup_udpPass_agg (a : QString) :
    (s.udpPass nowMs (conns.map s.direct)).agg.lookup a =
      (s.group conns a).head?.map udpPeer := by
  rw [udpPass, (foldl_udpPass _ _).2.2, AList.lookup_empty, Option.none_or, group, aggregated,
    List.filter_filter, List.head?_filter]
  congr 2
  funext c
  rw [Bool.and_comm]

/-! ### The snapshot after the pass -/

/-- A peer's connection, with the counters of its aggregate if there is one. -/
def shown (st : Option UdpAggState) (k : Connection) : Connection :=
  match st with
  | some st => st.withTotals k
  | none => k

theorem key_shown (st : Option UdpAggState) (k : Connection) : (shown st k).key = k.key := by
  cases st <;> rfl

section On
variable (hon : s.udpAggregateByPeer = true)
include hon

omit [Double F] in
/-- The aggregate of a peer after the pass and the expiry. -/
theorem lookup_nextUdpAgg (a : QString) :
    (s.nextUdpAgg nowMs conns).lookup a =
      (if s.group conns a = [] then s.udpAgg.lookup a
        else some (((s.udpAgg.lookup a).getD {}).observeAll nowMs (s.group conns a))).bind
        fun st => if nowMs - st.lastSeenMs > s.staleRetentionMsUdp then none
          else some (st.expireMembers nowMs s.staleRetentionMsUdp) := by
  rw [nextUdpAgg, if_pos hon, expireUdp, Hash.lookup_filterMap, lookup_udpPass]

variable (nowMs) in
omit [Double F] in
/-- A peer of the snapshot is never expired. -/
theorem lookup_nextUdpAgg_of_group (hret : 0 ≤ s.staleRetentionMsUdp) {a : QString}
    (ha : s.group conns a ≠ []) :
    (s.nextUdpAgg nowMs conns).lookup a =
      some ((((s.udpAgg.lookup a).getD {}).observeAll nowMs (s.group conns a)).expireMembers nowMs
        s.staleRetentionMsUdp) := by
  rw [lookup_nextUdpAgg hon, if_neg ha, Option.bind_some, UdpAggState.lastSeenMs_observeAll _ _ ha,
    if_neg (by omega)]

omit [Double F] in
/-- What the snapshot holds after the pass. -/
theorem mem_postAggregation {c : Connection} :
    c ∈ s.postAggregation nowMs conns ↔
      (c ∈ conns.map s.direct ∧ passesThrough c = true) ∨
        ∃ a k, (s.group conns a).head?.map udpPeer = some k ∧
          c = shown ((s.nextUdpAgg nowMs conns).lookup a) k := by
  rw [postAggregation, if_pos hon]
  simp only [List.mem_append, udpPass_passthrough, List.mem_filter, Hash.mem_values_iff,
    Hash.lookup_filterMap, lookup_udpPass_agg, Option.bind_eq_some_iff, Option.some.injEq]
  refine or_congr Iff.rfl ⟨?_, ?_⟩
  · rintro ⟨a, k, hk, e⟩
    exact ⟨a, k, hk, e.symm⟩
  · rintro ⟨a, k, hk, e⟩
    exact ⟨a, k, hk, e.symm⟩

omit [Double F] in
/-- A flow passed through is one of the snapshot's. -/
theorem mem_of_passesThrough {c : Connection} (hc : c ∈ s.postAggregation nowMs conns)
    (hp : passesThrough c = true) : c ∈ conns.map s.direct := by
  rcases (mem_postAggregation hon).mp hc with ⟨hm, -⟩ | ⟨a, k, hk, rfl⟩
  · exact hm
  · obtain ⟨c', hc', rfl⟩ := Option.map_eq_some_iff.mp hk
    have hc'' := (mem_group.mp (List.mem_of_mem_head? hc')).2.1
    rw [passesThrough_congr (key_shown _ _), passesThrough_udpPeer, hc''] at hp
    cases hp

omit [Double F] in
/-- A UDP flow with a known direction in the index is a peer of the snapshot, shown through the
peer's first connection. -/
theorem head_of_lookup_incoming {a : QString} {c : Connection}
    (h : (s.incoming nowMs conns).lookup a = some c) (hc : passesThrough c = false) :
    ∃ k, (s.group conns a).head?.map udpPeer = some k ∧
      c = shown ((s.nextUdpAgg nowMs conns).lookup a) k := by
  obtain ⟨hm, hk⟩ := Hash.lookup_indexBy_some h
  rcases (mem_postAggregation hon).mp hm with ⟨-, hp⟩ | ⟨a', k, hk', e⟩
  · rw [hc] at hp
    cases hp
  · obtain ⟨c', hc', rfl⟩ := Option.map_eq_some_iff.mp hk'
    have hka' := (mem_group.mp (List.mem_of_mem_head? hc')).2.2
    obtain rfl : a' = a := by rw [← hk, e, key_shown, hka']
    exact ⟨_, hk', e⟩

omit [Double F] in
theorem group_ne_nil_of_lookup_incoming {a : QString} {c : Connection}
    (h : (s.incoming nowMs conns).lookup a = some c) (hc : passesThrough c = false) :
    s.group conns a ≠ [] := by
  obtain ⟨k, hk, -⟩ := head_of_lookup_incoming hon h hc
  intro hnil
  rw [hnil] at hk
  cases hk

variable (nowMs) in
omit [Double F] in
/-- **What the index shows for a peer of the snapshot**: its first connection with the counters of
its aggregate. -/
theorem lookup_incoming_of_group (hret : 0 ≤ s.staleRetentionMsUdp) {a : QString}
    (ha : s.group conns a ≠ []) :
    ∃ st k, (s.nextUdpAgg nowMs conns).lookup a = some st ∧ k.key = a ∧
      passesThrough k = false ∧ (s.group conns a).head?.map udpPeer = some k ∧
      (s.incoming nowMs conns).lookup a = some (st.withTotals k) := by
  obtain ⟨c, cs, hg⟩ := List.exists_cons_of_ne_nil ha
  obtain ⟨-, hpass, hkey⟩ := mem_group.mp (hg ▸ List.mem_cons_self : c ∈ s.group conns a)
  have hpass' : passesThrough (udpPeer c) = false := (passesThrough_udpPeer c).trans hpass
  have hhead : (s.group conns a).head?.map udpPeer = some (udpPeer c) := by rw [hg]; rfl
  obtain ⟨st, hst⟩ : ∃ st, (s.nextUdpAgg nowMs conns).lookup a = some st :=
    ⟨_, lookup_nextUdpAgg_of_group nowMs hon hret ha⟩
  refine ⟨st, udpPeer c, hst, hkey, hpass', hhead, ?_⟩
  have hmem : st.withTotals (udpPeer c) ∈ s.postAggregation nowMs conns :=
    (mem_postAggregation hon).mpr (.inr ⟨a, udpPeer c, hhead, by rw [hst]; rfl⟩)
  obtain ⟨d, hd⟩ : ∃ d, (s.incoming nowMs conns).lookup a = some d :=
    Hash.exists_lookup (mem_incoming.mpr (List.mem_map.mpr ⟨_, hmem, hkey⟩))
  -- no other connection of the snapshot has the key: flows passed through differ from it in
  -- protocol or direction, and other peers have other keys
  have hdp : passesThrough d = false :=
    (passesThrough_congr ((key_of_lookup_incoming hd).trans hkey.symm)).trans hpass'
  obtain ⟨k, hk, rfl⟩ := head_of_lookup_incoming hon hd hdp
  have hkc : udpPeer c = k := by simpa [hhead] using hk
  rw [hd, hst, ← hkc]
  rfl

end On

end Aggregator

end Qiftop.Aggregate
