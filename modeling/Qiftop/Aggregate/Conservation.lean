import Qiftop.Aggregate.Table
import Qiftop.Aggregate.Udp
import Qiftop.Backend.Conntrack

/-!
# Aggregate — traffic between a snapshot and the table

With UDP aggregation off, the live rows after a snapshot are exactly the connections of the index
`updateConnections` builds (`live_perm_values`), so their counters add up to the index's.  The index
keeps one connection per key, the last; the earlier ones of a key are dropped, not added.  Hence the
sums agree exactly when what is dropped counts nothing (`live_sums_iff`).

Flows without ports have keys that name the two addresses only, and the kernel tracks several of
them between two hosts: two concurrent pings are already enough to lose traffic
(`live_sums_two_pings`).
-/

namespace Qiftop.Aggregate
open Qt Lib Backend Heuristics

section
variable {F : Type} [Double F]

/-- The rows of the last snapshot. -/
def liveRows (rows : List (Row F)) : List (Row F) := rows.filter fun r => !r.stale

namespace Aggregator
variable {s : Aggregator F} {nowMs : Int} {conns : List Connection}

/-- A live row shows the connection the index has for its key. -/
theorem current_of_live {r' : Row F} (hr : r' ∈ (s.updateConnections nowMs conns).rows)
    (hl : r'.stale = false) : (s.incoming nowMs conns).lookup r'.key = some r'.current := by
  rcases mem_rows_updateConnections.mp hr with ⟨r, -, rfl, -⟩ | ⟨c, hc, rfl⟩
  · have hk := mem_incoming_of_live hr hl
    rw [key_updateRow] at hk ⊢
    obtain ⟨c, hc⟩ := Hash.exists_lookup hk
    rw [updateRow_of_lookup hc, hc]
    rfl
  · exact (mem_fresh.mp hc).1

variable (nowMs conns) in
/-- **The live rows are the indexed connections.** -/
theorem live_perm_values (hnd : (s.rows.map Row.key).Nodup) :
    ((liveRows (s.updateConnections nowMs conns).rows).map Row.current).Perm
      (Hash.values (s.incoming nowMs conns)) := by
  have hkeys : ((liveRows (s.updateConnections nowMs conns).rows).map Row.key).Nodup :=
    (nodup_keys_updateConnections hnd).sublist (List.filter_sublist.map Row.key)
  refine (List.perm_ext_iff_of_nodup ?_ ?_).mpr fun c => ?_
  · have e : (liveRows (s.updateConnections nowMs conns).rows).map Row.key =
        ((liveRows (s.updateConnections nowMs conns).rows).map Row.current).map Connection.key := by
      rw [List.map_map]
      rfl
    exact List.Nodup.of_map _ (e ▸ hkeys)
  · have e : (Hash.values (s.incoming nowMs conns)).map Connection.key =
        (s.incoming nowMs conns).keys := by
      rw [Hash.values, List.map_map]
      exact List.map_congr_left fun x hx => key_of_lookup_incoming (Hash.mem_entries_iff.mp hx)
    exact List.Nodup.of_map _ (e ▸ AList.keys_nodup (s.incoming nowMs conns))
  · rw [List.mem_map, Hash.mem_values_iff]
    constructor
    · rintro ⟨r, hr, rfl⟩
      obtain ⟨hr, hl⟩ := List.mem_filter.mp hr
      exact ⟨r.key, current_of_live hr (by simpa using hl)⟩
    · rintro ⟨k, hc⟩
      obtain ⟨r, hr, rfl, hl⟩ := exists_live_of_mem_incoming (Hash.mem_of_lookup hc)
      refine ⟨r, List.mem_filter.mpr ⟨hr, by simp [hl]⟩, ?_⟩
      exact Option.some.inj ((current_of_live hr hl).symm.trans hc)

/-- With aggregation off and distinct keys every connection has a row. -/
theorem exists_row_of_mem (hoff : s.udpAggregateByPeer = false)
    (hnd : ((conns.map s.direct).map Connection.key).Nodup) {c : Connection} (hc : c ∈ conns) :
    ∃ r ∈ (s.updateConnections nowMs conns).rows, r.current = s.direct c := by
  have hpost : s.postAggregation nowMs conns = conns.map s.direct := by
    rw [postAggregation, hoff]
    rfl
  have hin : (s.incoming nowMs conns).lookup (s.direct c).key = some (s.direct c) := by
    rw [incoming, hpost]
    exact Hash.lookup_indexBy_of_nodup hnd (List.mem_map_of_mem hc)
  obtain ⟨r, hr, hk, hl⟩ := exists_live_of_mem_incoming (Hash.mem_of_lookup hin)
  have hcur := current_of_live hr hl
  rw [hk, hin] at hcur
  exact ⟨r, hr, (Option.some.inj hcur).symm⟩

end Aggregator

/-- The sum of a counter over connections. -/
def sumOver (q : Counter) (cs : List Connection) : ℕ := (cs.map fun c => (q.ofConnection c).toNat).sum

omit [Double F] in
/-- Direction inference leaves the counters alone. -/
theorem ofConnection_direct (s : Aggregator F) (q : Counter) (c : Connection) :
    q.ofConnection (s.direct c) = q.ofConnection c := by
  unfold Aggregator.direct
  split
  · rfl
  · cases q <;> rfl

/-- **When no traffic is lost between a snapshot and the table.**  In every state a run reaches with
aggregation off, and for every snapshot, the live rows' counters add up to the snapshot's exactly
when every connection that is followed by one of the same key, after direction inference, has all
four counters zero. -/
theorem live_sums_iff (range : UInt16 × UInt16) (ops : List Op) (nowMs : Int)
    (conns : List Connection) (hoff : (run (F := F) range ops).agg.udpAggregateByPeer = false) :
    let s := (run (F := F) range ops).agg
    (∀ q : Counter, sumOver q ((liveRows (s.updateConnections nowMs conns).rows).map Row.current) =
      sumOver q conns) ↔
    conns.Pairwise fun c d => (s.direct c).key = (s.direct d).key →
      ∀ q : Counter, q.ofConnection c = 0 := by
  intro s
  have hpost : s.postAggregation nowMs conns = conns.map s.direct := by
    rw [Aggregator.postAggregation, hoff]
    rfl
  have hperm := Aggregator.live_perm_values (s := s) nowMs conns
    (historyInv_run range ops).keys_nodup
  -- counter by counter, the sums differ by what the index dropped
  have hq : ∀ q : Counter,
      sumOver q ((liveRows (s.updateConnections nowMs conns).rows).map Row.current) =
        sumOver q conns ↔
      conns.Pairwise fun c d => (s.direct c).key = (s.direct d).key → q.ofConnection c = 0 := by
    intro q
    have hlive : sumOver q ((liveRows (s.updateConnections nowMs conns).rows).map Row.current) =
        Hash.sum (fun c => (q.ofConnection c).toNat)
          (Hash.indexBy Connection.key (conns.map s.direct)) := by
      rw [sumOver, (hperm.map _).sum_eq, Aggregator.incoming, hpost]
      rfl
    have hsnap : sumOver q conns =
        ((conns.map s.direct).map fun c => (q.ofConnection c).toNat).sum := by
      rw [sumOver, List.map_map]
      exact congrArg List.sum (List.map_congr_left fun c _ => by
        rw [Function.comp_apply, ofConnection_direct])
    rw [hlive, hsnap, Hash.sum_indexBy_eq_iff, List.pairwise_map]
    refine List.Pairwise.iff fun c d => ?_
    rw [ofConnection_direct, ← UInt64.toNat_inj]
    rfl
  simp only [hq]
  constructor
  · intro h
    rw [List.pairwise_iff_getElem]
    intro i j hi hj hij e q
    exact List.pairwise_iff_getElem.mp (h q) i j hi hj hij e
  · intro h q
    exact h.imp fun hcd e => hcd e q

end

/-- An echo flow to another host, as the kernel tracks it. -/
def ping (bytes : UInt64) : NfConntrack :=
  { l3proto := AF_INET, l4proto := 1
    ipv4Src := ⟨.IPv4Protocol, "192.0.2.1".toList⟩
    ipv4Dst := ⟨.IPv4Protocol, "192.0.2.9".toList⟩
    origCounterBytes := some bytes, replCounterBytes := some bytes
    origCounterPackets := some 1, replCounterPackets := some 1 }

/-- A TCP flow and a ping between the same hosts have different keys. -/
theorem live_sums_iff_tcp_ping :
    let s := (run (F := ℚ) (32768, 60999) [.setUdpAggregateByPeer false]).agg
    let tcp : NfConntrack := { ping 40 with l4proto := 6, portSrc := 40000, portDst := 443 }
    let conns := conntrackSnapshot .sorted {} [tcp, ping 84]
    ∀ q : Counter, sumOver q ((liveRows (s.updateConnections 1000 conns).rows).map Row.current) =
      sumOver q conns :=
  (live_sums_iff (F := ℚ) (32768, 60999) [.setUdpAggregateByPeer false] 1000 _ rfl).mpr
    (by decide +kernel)

/-- **Two pings between the same hosts lose traffic**: their keys are equal, so the table shows one
of them. -/
theorem live_sums_two_pings :
    ¬ ∀ (H : StdHeap) (ctx : PollCtx) (dump : List NfConntrack) (range : UInt16 × UInt16)
      (ops : List Op) (nowMs : Int),
      (run (F := ℚ) range ops).agg.udpAggregateByPeer = false →
      ∀ q : Counter, sumOver q ((liveRows ((run (F := ℚ) range ops).agg.updateConnections nowMs
          (conntrackSnapshot H ctx dump)).rows).map Row.current) =
        sumOver q (conntrackSnapshot H ctx dump) := by
  intro h
  have hq := h .sorted {} [ping 84, ping 56] (32768, 60999) [.setUdpAggregateByPeer false] 1000 rfl
    .rxBytes
  revert hq
  decide +kernel

end Qiftop.Aggregate
