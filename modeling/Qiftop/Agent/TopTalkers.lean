import Qiftop.Agent.ConnectionsService
import Qiftop.Backend.DeepQueue

/-!
# Agent — the loudest flows

Three places keep the loudest flows of a list: the service caps a snapshot (`hasGreaterTotalBytes`),
the conntrack monitor keeps a bounded heap (`admitFlowTopK`), and the deep pass takes the loudest
requests of its queue first (`DeepAttributionQueue::dequeue`).  A flow's total is the sum of two 64-bit
counters.  The first compares the sums with their carry, the other two without it.

`admitAll_keeps_loudest`: the heap keeps the largest sums without their carries.
`rankings_agree_iff`: the three keep the largest exact totals of a list exactly when its flows are
`Separated` — no flow whose sum wraps can be left out while one whose sum does not is kept.
-/

namespace Qiftop.Agent
open Qt Lib Backend

/-- The exact total of a flow. -/
def exactTotal (c : Connection) : ℕ := c.rxBytes.toNat + c.txBytes.toNat

/-- The total modulo 2⁶⁴. -/
def lowTotal (c : Connection) : ℕ := (flowBytesTotal c).toNat

/-- Whether the sum of the counters wraps. -/
def wraps (c : Connection) : Bool := (totalBytes c).carry

/-- The flows of a snapshot capped at `cap`; the service's `capped` is this at `kMaxConnections`. -/
def cappedTo (S : StdSort) (cap : ℕ) (conns : List Connection) : List Connection :=
  if conns.length > cap then (S.sort hasGreaterTotalBytes conns).take cap else conns

/-- The flows offered one after the other to an empty heap. -/
def admitAll (H : StdHeap) (cap : Int) (flows : List Connection) : List Connection :=
  flows.foldl (fun heap c => admitFlowTopK H heap c cap) []

/-! ### Totals -/

theorem lowTotal_lt (c : Connection) : lowTotal c < 2 ^ 64 := (flowBytesTotal c).toNat_lt

theorem wraps_iff (c : Connection) : wraps c = true ↔ 2 ^ 64 ≤ exactTotal c := by
  have hrx := c.rxBytes.toNat_lt
  have htx := c.txBytes.toNat_lt
  have hle : c.txBytes ≤ 18446744073709551615 := by
    rw [UInt64.le_iff_toNat_le]
    exact Nat.le_of_lt_succ htx
  have hsub : (18446744073709551615 - c.txBytes).toNat = 18446744073709551615 - c.txBytes.toNat :=
    UInt64.toNat_sub_of_le _ _ hle
  rw [wraps, totalBytes, decide_eq_true_eq, gt_iff_lt, UInt64.lt_iff_toNat_lt, hsub, exactTotal]
  omega

/-- A total is its low part with the carry. -/
theorem exactTotal_eq (c : Connection) : exactTotal c = withCarry lowTotal wraps (2 ^ 64) c := by
  have hrx := c.rxBytes.toNat_lt
  have htx := c.txBytes.toNat_lt
  have hlow : lowTotal c = exactTotal c % 2 ^ 64 := UInt64.toNat_add c.rxBytes c.txBytes
  have hwraps := wraps_iff c
  unfold withCarry
  unfold exactTotal at hlow hwraps ⊢
  cases hc : wraps c with
  | true =>
      have hle := hwraps.mp hc
      rw [hlow, if_pos rfl]
      omega
  | false =>
      have hlt : ¬ 2 ^ 64 ≤ c.rxBytes.toNat + c.txBytes.toNat := fun hle => by
        rw [hwraps.mpr hle] at hc
        cases hc
      rw [hlow, if_neg Bool.false_ne_true]
      omega

theorem hasGreaterTotalBytes_eq (a b : Connection) :
    hasGreaterTotalBytes a b = decide (exactTotal a > exactTotal b) := by
  have ha := exactTotal_eq a
  have hb := exactTotal_eq b
  have hla := lowTotal_lt a
  have hlb := lowTotal_lt b
  have hlow : decide ((totalBytes a).low > (totalBytes b).low) =
      decide (lowTotal a > lowTotal b) := by
    rw [decide_eq_decide, gt_iff_lt, UInt64.lt_iff_toNat_lt]
    rfl
  have hunfold : hasGreaterTotalBytes a b =
      if wraps a ≠ wraps b then wraps a else decide (lowTotal a > lowTotal b) := by
    rw [hasGreaterTotalBytes, hlow]
    rfl
  rw [hunfold, ha, hb]
  unfold withCarry
  cases wraps a <;> cases wraps b <;> simp <;> omega

theorem flowMinHeapByBytes_eq (a b : Connection) :
    flowMinHeapByBytes a b = decide (lowTotal a > lowTotal b) := by
  rw [flowMinHeapByBytes, decide_eq_decide, gt_iff_lt, UInt64.lt_iff_toNat_lt]
  rfl

/-! ### What each of the three keeps -/

/-- The service keeps the largest totals. -/
theorem cappedTo_eq_largest (S : StdSort) (cap : ℕ) (flows : List Connection) :
    (↑((cappedTo S cap flows).map exactTotal) : Multiset ℕ) =
      largest cap (flows.map exactTotal) := by
  have hkeeps := (keeps_sort hasGreaterTotalBytes_eq S cap flows).1
  unfold cappedTo
  split
  · exact hkeeps.eq_largest
  · next hle =>
      -- nothing is left out
      have hall : Keeps exactTotal cap flows flows [] := by
        refine ⟨by rw [List.append_nil], ?_, fun _ _ y hy => absurd hy List.not_mem_nil⟩
        rw [Nat.min_eq_right (by omega)]
      exact hall.eq_largest

/-- The heap holds the largest by the low totals of what was offered. -/
structure Admitted (n : ℕ) (flows heap rest : List Connection) : Prop where
  keeps : Keeps lowTotal n flows heap rest
  isHeap : IsHeap flowMinHeapByBytes heap

theorem flowMinHeapByBytes_weak : StrictWeak flowMinHeapByBytes := by
  have h : flowMinHeapByBytes = fun a b => decide (lowTotal a > lowTotal b) :=
    funext fun a => funext fun b => flowMinHeapByBytes_eq a b
  rw [h]
  exact .greater lowTotal

/-- The first flow of the heap is the quietest. -/
theorem Admitted.least_le {n : ℕ} {flows heap rest : List Connection} {least : Connection}
    (h : Admitted n flows (least :: heap) rest) (z : Connection) (hz : z ∈ least :: heap) :
    lowTotal least ≤ lowTotal z := by
  have hnot := h.isHeap.head flowMinHeapByBytes_weak hz
  rw [flowMinHeapByBytes_eq, decide_eq_false_iff_not] at hnot
  omega

/-- The quietest flow of a heap gives way to a louder one. -/
theorem Admitted.replace (H : StdHeap) {n : ℕ} {flows heap rest : List Connection} {least : Connection}
    (h : Admitted n flows (least :: heap) rest) (hfull : n ≤ (least :: heap).length) {c : Connection}
    (hlt : lowTotal least < lowTotal c) :
    Admitted n (flows ++ [c])
      (H.push flowMinHeapByBytes ((H.pop flowMinHeapByBytes (least :: heap)).dropLast ++ [c]))
      (least :: rest) := by
  obtain ⟨heap', hpop, hheap'⟩ := H.pop_heap least heap flowMinHeapByBytes_weak h.isHeap
  have hold : (heap' ++ [least]).Perm (least :: heap) := hpop ▸ H.pop_perm _ _
  have hpush := H.push_perm flowMinHeapByBytes (heap' ++ [c])
  rw [hpop, List.dropLast_concat]
  refine ⟨⟨?_, ?_, ?_⟩, H.push_heap heap' c flowMinHeapByBytes_weak hheap'⟩
  · have hswap : (heap' ++ [c] ++ least :: rest).Perm ((heap' ++ [least]) ++ (rest ++ [c])) := by
      rw [List.append_assoc, List.append_assoc]
      refine List.Perm.append_left heap' ((List.Perm.swap least c rest).trans ?_)
      exact (List.perm_append_singleton c rest).symm.cons least
    have hkept : ((least :: heap) ++ (rest ++ [c])).Perm (flows ++ [c]) := by
      rw [← List.append_assoc]
      exact h.keeps.perm.append_right [c]
    exact (hpush.append_right _).trans (hswap.trans ((hold.append_right _).trans hkept))
  · have hlen := h.keeps.length
    have hlen' := hold.length_eq
    have htotal := h.keeps.perm.length_eq
    rw [hpush.length_eq]
    simp only [List.length_append, List.length_cons, List.length_nil] at hlen hlen' htotal hfull ⊢
    omega
  · intro z hz y hy
    -- whatever is left out is no larger than the flow that was the least
    have hyleast : lowTotal y ≤ lowTotal least := by
      rcases List.mem_cons.mp hy with rfl | hy
      · exact le_rfl
      · exact h.keeps.above least List.mem_cons_self y hy
    rcases List.mem_append.mp (hpush.subset hz) with hz | hz
    · exact hyleast.trans (h.least_le z (hold.subset (List.mem_append_left _ hz)))
    · rw [List.mem_singleton.mp hz]
      exact hyleast.trans hlt.le

/-- While there is room, a flow is entered. -/
theorem Admitted.push (H : StdHeap) {n : ℕ} {flows heap rest : List Connection}
    (h : Admitted n flows heap rest) (hroom : heap.length < n) (c : Connection) :
    Admitted n (flows ++ [c]) (H.push flowMinHeapByBytes (heap ++ [c])) [] := by
  have hlen := h.keeps.length
  have htotal := h.keeps.perm.length_eq
  rw [List.length_append] at htotal
  -- nothing was left out so far
  have hrest : rest = [] := List.length_eq_zero_iff.mp (by omega)
  have hpush := H.push_perm flowMinHeapByBytes (heap ++ [c])
  have hperm := h.keeps.perm
  rw [hrest, List.append_nil] at hperm
  refine ⟨⟨?_, ?_, ?_⟩, H.push_heap heap c flowMinHeapByBytes_weak h.isHeap⟩
  · rw [List.append_nil]
    exact hpush.trans (hperm.append_right [c])
  · rw [hpush.length_eq]
    simp only [List.length_append, List.length_cons, List.length_nil]
    omega
  · exact fun _ _ y hy => absurd hy List.not_mem_nil

/-- A flow that is no louder than the quietest of a full heap is left out. -/
theorem Admitted.leave {n : ℕ} {flows heap rest : List Connection} {least : Connection}
    (h : Admitted n flows (least :: heap) rest) (hfull : n ≤ (least :: heap).length) {c : Connection}
    (hle : lowTotal c ≤ lowTotal least) : Admitted n (flows ++ [c]) (least :: heap) (c :: rest) := by
  refine ⟨⟨?_, ?_, ?_⟩, h.isHeap⟩
  · exact (List.perm_middle.trans (h.keeps.perm.cons c)).trans
      (List.perm_append_singleton c flows).symm
  · have hlen := h.keeps.length
    have htotal := h.keeps.perm.length_eq
    simp only [List.length_append, List.length_cons, List.length_nil] at hlen htotal hfull ⊢
    omega
  · intro z hz y hy
    rcases List.mem_cons.mp hy with rfl | hy
    · exact hle.trans (h.least_le z hz)
    · exact h.keeps.above z hz y hy

/-- Offering one more flow. -/
theorem Admitted.admit (H : StdHeap) {cap : Int} (hcap : 0 < cap) {flows heap rest : List Connection}
    (h : Admitted cap.toNat flows heap rest) (c : Connection) :
    ∃ rest', Admitted cap.toNat (flows ++ [c]) (admitFlowTopK H heap c cap) rest' := by
  unfold admitFlowTopK
  rw [if_neg (by omega)]
  by_cases hroom : (heap.length : Int) < cap
  · rw [if_pos hroom]
    exact ⟨[], h.push H (by omega) c⟩
  · rw [if_neg hroom]
    cases heap with
    | nil => exact absurd hcap hroom
    | cons least heap =>
        simp only [List.head?_cons]
        split
        · next hlt =>
            rw [gt_iff_lt, UInt64.lt_iff_toNat_lt] at hlt
            exact ⟨_, h.replace H (by omega) hlt⟩
        · next hnot =>
            rw [gt_iff_lt, UInt64.lt_iff_toNat_lt, not_lt] at hnot
            exact ⟨_, h.leave (by omega) hnot⟩

/-- The heap after any number of flows. -/
theorem admitted_admitAll (H : StdHeap) {cap : Int} (hcap : 0 < cap) (flows : List Connection) :
    ∃ rest, Admitted cap.toNat flows (admitAll H cap flows) rest := by
  induction flows using List.reverseRecOn with
  | nil =>
      refine ⟨[], ⟨.refl _, by rw [List.length_nil, Nat.min_zero]; rfl, ?_⟩, ?_⟩
      · exact fun x hx => absurd hx List.not_mem_nil
      · intro i a b _ _ hb
        cases hb
  | append_singleton flows c ih =>
      obtain ⟨rest, h⟩ := ih
      rw [admitAll, List.foldl_append]
      exact h.admit H hcap c

/-- **The bounded heap, after any flows**: as many as fit, the quietest first, and the largest totals of
those offered. -/
theorem admitAll_keeps_loudest (H : StdHeap) {cap : Int} (hcap : 0 < cap) (flows : List Connection) :
    (admitAll H cap flows).length = min cap.toNat flows.length ∧
      IsHeap flowMinHeapByBytes (admitAll H cap flows) ∧
      (↑((admitAll H cap flows).map fun c => (flowBytesTotal c).toNat) : Multiset ℕ) =
        largest cap.toNat (flows.map fun c => (flowBytesTotal c).toNat) := by
  obtain ⟨rest, h⟩ := admitted_admitAll H hcap flows
  exact ⟨h.keeps.length, h.isHeap, h.keeps.eq_largest⟩

theorem admitAll_keeps_loudest_one :
    (admitAll .sorted 1 [{ rxBytes := 5 }, { rxBytes := 7 }, { rxBytes := 7 }]).length = 1 ∧
      IsHeap flowMinHeapByBytes
        (admitAll .sorted 1 [{ rxBytes := 5 }, { rxBytes := 7 }, { rxBytes := 7 }]) ∧
      (↑((admitAll .sorted 1 [{ rxBytes := 5 }, { rxBytes := 7 }, { rxBytes := 7 }]).map
        fun c => (flowBytesTotal c).toNat) : Multiset ℕ) = largest 1 [5, 7, 7] :=
  admitAll_keeps_loudest .sorted (by decide) [{ rxBytes := 5 }, { rxBytes := 7 }, { rxBytes := 7 }]

/-- Without a positive cap every flow is kept. -/
theorem admitAll_of_nonpos (H : StdHeap) {cap : Int} (hcap : cap ≤ 0) (flows : List Connection) :
    admitAll H cap flows = flows := by
  induction flows using List.reverseRecOn with
  | nil => rfl
  | append_singleton flows c ih =>
      rw [admitAll, List.foldl_append]
      change admitFlowTopK H (admitAll H cap flows) c cap = _
      rw [ih, admitFlowTopK, if_pos hcap]

/-! ### A queue that holds given flows -/

/-- A key for each number. -/
def numberedKey (i : ℕ) : AttributionFlowKey :=
  { localAddress := ⟨.UnknownNetworkLayerProtocol, List.replicate i '0'⟩ }

theorem numberedKey_injective : Function.Injective numberedKey := by
  intro i j h
  have htext := congrArg (fun k : AttributionFlowKey => k.localAddress.toString.length) h
  simpa [numberedKey] using htext

/-- One request for each flow. -/
def numbered (flows : List Connection) : List DeepAttributionRequest :=
  flows.zipIdx.map fun e => { key := numberedKey e.2, flow := e.1 }

theorem flow_numbered (flows : List Connection) :
    (numbered flows).map DeepAttributionRequest.flow = flows := by
  rw [numbered, List.map_map]
  exact List.zipIdx_map_fst 0 flows

theorem nodup_numbered (flows : List Connection) :
    ((numbered flows).map DeepAttributionRequest.key).Nodup := by
  have hkeys : (numbered flows).map DeepAttributionRequest.key =
      (flows.zipIdx.map Prod.snd).map numberedKey := by
    rw [numbered, List.map_map, List.map_map]
    rfl
  have hrange : (List.range' 0 flows.length).Nodup := List.nodup_range'
  rw [hkeys, List.zipIdx_map_snd]
  exact hrange.map numberedKey_injective

/-- The queue of these requests. -/
def queueOf (flows : List Connection) : DeepAttributionQueue where
  byKey := Hash.indexBy DeepAttributionRequest.key (numbered flows)
  keyed _ _ h := (Hash.lookup_indexBy_some h).2

theorem values_queueOf (flows : List Connection) :
    (queueOf flows).byKey.values.Perm (numbered flows) :=
  Hash.values_indexBy_perm (nodup_numbered flows)

theorem queueOf_ne_empty {flows : List Connection} (h : flows ≠ []) :
    (queueOf flows).isEmpty = false := by
  rw [Bool.eq_false_iff]
  intro hempty
  have hlength := (values_queueOf flows).length_eq
  rw [DeepAttributionQueue.length_values_of_isEmpty hempty, ← List.length_map DeepAttributionRequest.flow,
    flow_numbered] at hlength
  exact h (List.length_eq_zero_iff.mp hlength.symm)

/-- Some order of equally loud requests gives out flows that are sorted in the order of the list. -/
theorem exists_dequeue_queueOf {cap : Int} (hcap : 0 < cap) {sorted : List Connection} (hne : sorted ≠ [])
    (hsorted : sorted.Pairwise fun a b => lowTotal b ≤ lowTotal a) :
    ∃ S, ((queueOf sorted).dequeue S cap).1 = (numbered sorted).take cap.toNat := by
  have hordered : (numbered sorted).Pairwise
      fun a b => DeepAttributionQueue.moreBytes b a = false := by
    rw [← flow_numbered sorted, List.pairwise_map] at hsorted
    refine hsorted.imp fun {a b} hle => ?_
    rw [DeepAttributionQueue.moreBytes_eq]
    exact decide_eq_false (not_lt.mpr hle)
  obtain ⟨S, hS⟩ := StdSort.exists_sort_eq (values_queueOf sorted).symm hordered
  refine ⟨S, ?_⟩
  rw [DeepAttributionQueue.dequeue, if_neg]
  · exact congrArg (List.take cap.toNat) hS
  · rintro (hle | hempty)
    · omega
    · rw [queueOf_ne_empty hne] at hempty
      cases hempty

/-! ### Agreement -/

/-- How many flows the heap may keep: a cap that is not positive is none. -/
def heapCap (cap : Int) (flows : List Connection) : ℕ := if cap ≤ 0 then flows.length else cap.toNat

/-- Whatever the order of equally loud flows: the flows kept by the service and by the heap, and those
the queue gives out first, have the largest exact totals of the list. -/
structure RankingsAgree (cap : Int) (flows : List Connection) : Prop where
  service : ∀ S, (↑((cappedTo S cap.toNat flows).map exactTotal) : Multiset ℕ) =
    largest cap.toNat (flows.map exactTotal)
  heap : ∀ H, (↑((admitAll H cap flows).map exactTotal) : Multiset ℕ) =
    largest (heapCap cap flows) (flows.map exactTotal)
  queue : ∀ S (q : DeepAttributionQueue),
    (q.byKey.values.map DeepAttributionRequest.flow).Perm flows →
    (↑((q.dequeue S cap).1.map fun r => exactTotal r.flow) : Multiset ℕ) =
      largest cap.toNat (flows.map exactTotal)

/-- Keeping the largest low totals of separated flows keeps the largest totals. -/
theorem eq_largest_of_separated {n : ℕ} {flows kept rest : List Connection}
    (hsep : Separated lowTotal wraps n flows) (h : Keeps lowTotal n flows kept rest) :
    (↑(kept.map exactTotal) : Multiset ℕ) = largest n (flows.map exactTotal) := by
  rw [map_eq_largest_iff h.perm h.length]
  intro x hx y hy
  rw [exactTotal_eq, exactTotal_eq]
  exact hsep.above lowTotal_lt h x hx y hy

theorem rankings_agree_of_separated {cap : Int} {flows : List Connection}
    (hsep : Separated lowTotal wraps cap.toNat flows) : RankingsAgree cap flows where
  service S := cappedTo_eq_largest S cap.toNat flows
  heap H := by
    by_cases hcap : cap ≤ 0
    · rw [admitAll_of_nonpos H hcap, heapCap, if_pos hcap, largest,
        List.take_of_length_le (by rw [List.length_insertionSort, List.length_map])]
      exact (Multiset.coe_eq_coe.mpr (List.perm_insertionSort _ _)).symm
    · obtain ⟨rest, h⟩ := admitted_admitAll H (not_le.mp hcap) flows
      rw [heapCap, if_neg hcap]
      exact eq_largest_of_separated hsep h.keeps
  queue S q hq := by
    have h := (q.keeps_dequeue S cap).1
    have hkeeps : Keeps lowTotal cap.toNat flows
        ((q.dequeue S cap).1.map DeepAttributionRequest.flow)
        ((q.dequeue S cap).2.byKey.values.map DeepAttributionRequest.flow) := by
      refine ⟨?_, ?_, ?_⟩
      · rw [← List.map_append]
        exact (h.perm.map _).trans hq
      · rw [List.length_map, h.length, ← hq.length_eq, List.length_map]
      · intro x hx y hy
        obtain ⟨r, hr, rfl⟩ := List.mem_map.mp hx
        obtain ⟨r', hr', rfl⟩ := List.mem_map.mp hy
        exact h.above r hr r' hr'
    have hflows := eq_largest_of_separated hsep hkeeps
    rwa [List.map_map] at hflows

/-- Unless the flows are separated, a queue that holds them and some order of its equally loud requests
give out the wrong ones. -/
theorem separated_of_rankings_agree {cap : Int} {flows : List Connection} (h : RankingsAgree cap flows) :
    Separated lowTotal wraps cap.toNat flows := by
  by_contra hsep
  obtain ⟨sorted, hperm, hsorted, x, hx, y, hy, hlt⟩ := exists_misordered lowTotal_lt hsep
  have hcap : 0 < cap := by
    by_contra hcap
    exact hsep (.inr fun _ _ _ => by omega)
  have hne : sorted ≠ [] := by
    rintro rfl
    rw [List.take_nil] at hx
    cases hx
  -- a sort that leaves ties in this order gives out `x` in place of `y`
  obtain ⟨S, hout⟩ := exists_dequeue_queueOf hcap hne hsorted
  have hheld : ((queueOf sorted).byKey.values.map
      DeepAttributionRequest.flow).Perm flows := by
    refine ((values_queueOf sorted).map _).trans ?_
    rw [flow_numbered]
    exact hperm
  have hlargest := h.queue S (queueOf sorted) hheld
  have hkept : (↑((sorted.take cap.toNat).map exactTotal) : Multiset ℕ) =
      largest cap.toNat (flows.map exactTotal) := by
    have hflows : (sorted.take cap.toNat).map exactTotal =
        ((numbered sorted).take cap.toNat).map fun r => exactTotal r.flow := by
      conv_lhs => rw [← flow_numbered sorted, ← List.map_take, List.map_map]
      rfl
    rw [← hlargest, hout, hflows]
  have hle := (map_eq_largest_iff (by rwa [List.take_append_drop])
    (by rw [List.length_take, hperm.length_eq])).mp hkept x hx y hy
  rw [exactTotal_eq, exactTotal_eq] at hle
  omega

/-- **When the three rankings agree with the true totals.** -/
theorem rankings_agree_iff (cap : Int) (flows : List Connection) :
    RankingsAgree cap flows ↔ Separated lowTotal wraps cap.toNat flows :=
  ⟨separated_of_rankings_agree, rankings_agree_of_separated⟩

/-- A flow whose counters sum to 2⁶⁴, and one with a single byte. -/
def wrappedAndQuiet : List Connection :=
  [{ rxBytes := 18446744073709551615, txBytes := 1 }, { rxBytes := 1 }]

/-- Of these two the heap keeps the quiet one. -/
theorem wrapped_flow_dropped : ¬ ∀ cap flows, RankingsAgree cap flows := by
  intro h
  have hkept := (h 1 wrappedAndQuiet).heap .sorted
  exact absurd hkept (by decide)

end Qiftop.Agent
