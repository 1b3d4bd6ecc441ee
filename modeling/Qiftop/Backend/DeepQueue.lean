import Qiftop.Backend.ResolverDeepWorker
import Qiftop.Lib.Largest
import Qiftop.Lib.Run

/-!
# Backend — the queue's laws

What `DeepAttributionQueue` promises its two users, the service that offers fresh snapshots and the
worker that puts unresolved requests back.

`queueLaw_of_run`: after any operations the queue is within its capacity with one request for each flow,
and whatever operation comes next loses and duplicates nothing but what its result says.
`enqueueAll_freshest_iff`: several requests for one flow leave the largest generation and the most
attempts, with the flow of the request offered *last*.
-/

namespace Qiftop.Backend
open Qt Lib

/-- A list sorted by a comparator that compares by `w`. -/
theorem keeps_sort {α : Type} {w : α → ℕ} {lt : α → α → Bool}
    (hlt : ∀ a b, lt a b = decide (w a > w b)) (S : StdSort) (n : ℕ) (l : List α) :
    Keeps w n l ((S.sort lt l).take n) ((S.sort lt l).drop n) ∧
      ((S.sort lt l).take n).Pairwise fun a b => w b ≤ w a := by
  obtain rfl : lt = fun a b => decide (w a > w b) := funext fun a => funext fun b => hlt a b
  have hsorted : (S.sort (fun a b => decide (w a > w b)) l).Pairwise fun a b => w b ≤ w a := by
    refine (S.ordered l (.greater w)).imp fun {a b} hab => ?_
    rw [decide_eq_false_iff_not] at hab
    omega
  exact ⟨.of_sorted n (S.perm _ l) hsorted, hsorted.sublist (List.take_sublist n _)⟩

namespace DeepAttributionQueue

/-- The priority of a request. -/
def priority (r : DeepAttributionRequest) : ℕ := (totalBytes r).toNat

theorem moreBytes_eq (a b : DeepAttributionRequest) :
    moreBytes a b = decide (priority a > priority b) := by
  rw [moreBytes, decide_eq_decide, gt_iff_lt, UInt64.lt_iff_toNat_lt]
  rfl

/-! ### What the table holds -/

theorem length_values (q : DeepAttributionQueue) : q.byKey.values.length = q.size := by
  rw [← List.length_map DeepAttributionRequest.key, values_map_key]
  rfl

theorem length_values_of_isEmpty {q : DeepAttributionQueue} (h : q.isEmpty = true) :
    q.byKey.values.length = 0 := by
  rw [length_values]
  exact List.length_eq_zero_iff.mpr (List.isEmpty_iff.mp h)

theorem nodup_values (q : DeepAttributionQueue) :
    (q.byKey.values.map DeepAttributionRequest.key).Nodup := by
  rw [values_map_key]
  exact q.byKey.keys_nodup

theorem values_remove (q : DeepAttributionQueue) (keys : List AttributionFlowKey) :
    (q.remove keys).byKey.values = q.byKey.values.filter fun r => r.key ∉ keys := by
  have hkeyed : ∀ e ∈ q.byKey.entries, e.2.key = e.1 := fun e he =>
    q.keyed e.1 e.2 (Hash.mem_entries_iff.mp he)
  simp only [remove, Hash.filterMap, Hash.values]
  revert hkeyed
  generalize q.byKey.entries = entries
  intro hkeyed
  induction entries with
  | nil => rfl
  | cons e entries ih =>
      have he := hkeyed e List.mem_cons_self
      have htail := ih fun e' he' => hkeyed e' (List.mem_cons_of_mem e he')
      by_cases hk : e.1 ∈ keys
      · simp [hk, he, htail]
      · simp [hk, he, htail]

/-- Removing the requests of a part leaves the other part. -/
theorem values_remove_perm {q : DeepAttributionQueue} {kept out : List DeepAttributionRequest}
    (h : (kept ++ out).Perm q.byKey.values) :
    (q.remove (out.map DeepAttributionRequest.key)).byKey.values.Perm kept := by
  have hnodup := (h.map DeepAttributionRequest.key).nodup_iff.mpr q.nodup_values
  rw [List.map_append, List.nodup_append] at hnodup
  rw [values_remove]
  refine (h.symm.filter _).trans ?_
  rw [List.filter_append, List.filter_eq_self.mpr, List.filter_eq_nil_iff.mpr, List.append_nil]
  · intro r hr
    simpa using List.mem_map_of_mem hr
  · intro r hr
    rw [decide_eq_true_eq]
    intro hout
    exact hnodup.2.2 r.key (List.mem_map_of_mem hr) r.key hout rfl

/-! ### The operations -/

/-- The capacity keeps the loudest requests, and the rest are counted. -/
theorem keeps_enforceCap (S : StdSort) (q : DeepAttributionQueue) :
    ∃ dropped, Keeps priority q.cap.toNat q.byKey.values (q.enforceCap S).1.byKey.values dropped ∧
      (q.enforceCap S).2 = dropped.length := by
  unfold enforceCap
  split
  · next hcap =>
      refine ⟨q.byKey.values, ⟨.refl _, ?_, fun r hr => absurd hr List.not_mem_nil⟩,
        q.length_values.symm⟩
      rw [Int.toNat_of_nonpos hcap, Nat.zero_min]
      rfl
  · split
    · next hle =>
        refine ⟨[], ⟨by rw [List.append_nil], ?_, fun _ _ r hr => absurd hr List.not_mem_nil⟩, rfl⟩
        change q.byKey.values.length = _
        rw [length_values]
        omega
    · next hcap hlarge =>
        have hkeeps := (keeps_sort moreBytes_eq S q.cap.toNat q.byKey.values).1
        have hperm := values_remove_perm hkeeps.perm
        refine ⟨_, ⟨(hperm.append_right _).trans hkeeps.perm, ?_, ?_⟩, ?_⟩
        · exact hperm.length_eq.trans hkeeps.length
        · exact fun r hr => hkeeps.above r (hperm.subset hr)
        · rw [List.length_drop, (S.perm _ _).length_eq, length_values]

/-- What is given out, and what stays. -/
theorem keeps_dequeue (S : StdSort) (q : DeepAttributionQueue) (batch : Int) :
    Keeps priority batch.toNat q.byKey.values (q.dequeue S batch).1
        (q.dequeue S batch).2.byKey.values ∧
      (q.dequeue S batch).1.Pairwise fun r r' => priority r' ≤ priority r := by
  unfold dequeue
  split
  · next hnone =>
      refine ⟨⟨.refl _, ?_, fun r hr => absurd hr List.not_mem_nil⟩, .nil⟩
      rcases hnone with hbatch | hempty
      · rw [Int.toNat_of_nonpos hbatch, Nat.zero_min]
        rfl
      · rw [length_values_of_isEmpty hempty, Nat.min_zero]
        rfl
  · obtain ⟨hkeeps, hsorted⟩ := keeps_sort moreBytes_eq S batch.toNat q.byKey.values
    have hperm := values_remove_perm (List.perm_append_comm.trans hkeeps.perm)
    refine ⟨⟨(hperm.append_left _).trans hkeeps.perm, hkeeps.length, ?_⟩, hsorted⟩
    exact fun r hr r' hr' => hkeeps.above r hr r' (hperm.subset hr')

/-- The request of a flow after one more is offered. -/
def offer (o : Option DeepAttributionRequest) (r : DeepAttributionRequest) :
    Option DeepAttributionRequest :=
  some (o.elim r fun it => merged it r)

theorem lookup_add (q : DeepAttributionQueue) (r : DeepAttributionRequest) (k : AttributionFlowKey) :
    (q.add r).byKey.lookup k =
      if r.key = k then offer (q.byKey.lookup k) r else q.byKey.lookup k := by
  unfold add
  by_cases hk : r.key = k
  · subst hk
    rw [if_pos rfl]
    cases q.byKey.lookup r.key with
    | none => exact AList.lookup_insert _
    | some it => exact AList.lookup_insert _
  · have hne : k ≠ r.key := fun e => hk e.symm
    rw [if_neg hk]
    cases q.byKey.lookup r.key with
    | none => exact AList.lookup_insert_ne hne
    | some it => exact AList.lookup_insert_ne hne

@[simp] theorem cap_add (q : DeepAttributionQueue) (r : DeepAttributionRequest) :
    (q.add r).cap = q.cap := by
  unfold add
  split <;> rfl

/-- A flow's request is merged from the requests of that flow, in order. -/
theorem lookup_foldl_add (q : DeepAttributionQueue) (reqs : List DeepAttributionRequest)
    (k : AttributionFlowKey) :
    (reqs.foldl add q).byKey.lookup k =
      (reqs.filter fun r => r.key = k).foldl offer (q.byKey.lookup k) := by
  induction reqs generalizing q with
  | nil => rfl
  | cons r reqs ih =>
      rw [List.foldl_cons, ih, lookup_add, List.filter_cons]
      by_cases hk : r.key = k
      · simp [hk]
      · simp [hk]

@[simp] theorem cap_foldl_add (q : DeepAttributionQueue) (reqs : List DeepAttributionRequest) :
    (reqs.foldl add q).cap = q.cap :=
  foldl_invariant (I := fun q' => q'.cap = q.cap) (fun q' r h => (cap_add q' r).trans h) rfl reqs

@[simp] theorem cap_enqueue (S : StdSort) (q : DeepAttributionQueue)
    (reqs : List DeepAttributionRequest) : (q.enqueue S reqs).1.cap = q.cap := by
  rw [enqueue, cap_enforceCap, cap_foldl_add]

@[simp] theorem cap_dequeue (S : StdSort) (q : DeepAttributionQueue) (batch : Int) :
    (q.dequeue S batch).2.cap = q.cap := by
  unfold dequeue
  split <;> rfl

/-! ### Any operations -/

/-- The operations on a queue. -/
inductive QueueOp where
  | enqueue (reqs : List DeepAttributionRequest)
  | dequeue (batch : Int)
  | setCapacity (c : Int)
  | clear

/-- One operation, with some order of equally loud requests. -/
def apply (q : DeepAttributionQueue) : StdSort × QueueOp → DeepAttributionQueue
  | (S, .enqueue reqs) => (q.enqueue S reqs).1
  | (S, .dequeue batch) => (q.dequeue S batch).2
  | (S, .setCapacity c) => q.setCapacity S c
  | (_, .clear) => q.clear

/-- What holds of a queue and of whatever is done to it next.  A capacity or a batch that is not
positive is none. -/
structure QueueLaw (q : DeepAttributionQueue) : Prop where
  within : q.size ≤ q.cap.toNat
  once : (q.byKey.values.map DeepAttributionRequest.key).Nodup
  /-- The requests held and offered are merged flow by flow. -/
  merge : ∀ (reqs : List DeepAttributionRequest) k, (reqs.foldl add q).byKey.lookup k =
    (reqs.filter fun r => r.key = k).foldl offer (q.byKey.lookup k)
  /-- Of the merged requests the loudest are kept and the others counted. -/
  enqueue : ∀ S (reqs : List DeepAttributionRequest), ∃ dropped,
    Keeps priority q.cap.toNat (reqs.foldl add q).byKey.values (q.enqueue S reqs).1.byKey.values
      dropped ∧ (q.enqueue S reqs).2 = dropped.length ∧ (q.enqueue S reqs).1.cap = q.cap
  /-- The loudest requests are given out, in order, and the others stay. -/
  dequeue : ∀ S batch,
    Keeps priority batch.toNat q.byKey.values (q.dequeue S batch).1
        (q.dequeue S batch).2.byKey.values ∧
      ((q.dequeue S batch).1.Pairwise fun r r' => priority r' ≤ priority r) ∧
      (q.dequeue S batch).2.cap = q.cap
  setCapacity : ∀ S c, ∃ dropped,
    Keeps priority c.toNat q.byKey.values (q.setCapacity S c).byKey.values dropped ∧
      (q.setCapacity S c).cap = c.toNat
  clear : q.clear.byKey.values = [] ∧ q.clear.cap = q.cap

theorem keeps_setCapacity (S : StdSort) (q : DeepAttributionQueue) (c : Int) :
    ∃ dropped, Keeps priority c.toNat q.byKey.values (q.setCapacity S c).byKey.values dropped := by
  obtain ⟨dropped, hkeeps, -⟩ := keeps_enforceCap S { q with cap := if c > 0 then c else 0 }
  refine ⟨dropped, ?_⟩
  have hcap : (if c > 0 then c else 0).toNat = c.toNat := by split <;> omega
  rwa [hcap] at hkeeps

theorem cap_setCapacity (S : StdSort) (q : DeepAttributionQueue) (c : Int) :
    (q.setCapacity S c).cap = c.toNat := by
  rw [setCapacity, cap_enforceCap]
  dsimp only
  split <;> omega

theorem queueLaw_of_within {q : DeepAttributionQueue} (h : q.size ≤ q.cap.toNat) : QueueLaw q where
  within := h
  once := q.nodup_values
  merge := q.lookup_foldl_add
  enqueue S reqs := by
    obtain ⟨dropped, hkeeps, hcount⟩ := keeps_enforceCap S (reqs.foldl add q)
    rw [cap_foldl_add] at hkeeps
    exact ⟨dropped, hkeeps, hcount, cap_enqueue S q reqs⟩
  dequeue S batch :=
    ⟨(keeps_dequeue S q batch).1, (keeps_dequeue S q batch).2, cap_dequeue S q batch⟩
  setCapacity S c := by
    obtain ⟨dropped, hkeeps⟩ := keeps_setCapacity S q c
    exact ⟨dropped, hkeeps, cap_setCapacity S q c⟩
  clear := ⟨rfl, rfl⟩

/-- Every operation leaves the queue within its capacity. -/
theorem QueueLaw.step {q : DeepAttributionQueue} (h : QueueLaw q) (op : StdSort × QueueOp) :
    QueueLaw (q.apply op) := by
  obtain ⟨S, op⟩ := op
  refine queueLaw_of_within ?_
  rw [← length_values]
  cases op with
  | enqueue reqs =>
      obtain ⟨dropped, hkeeps, -, hcap⟩ := h.enqueue S reqs
      simp only [apply, hcap, hkeeps.length]
      omega
  | dequeue batch =>
      obtain ⟨hkeeps, -, hcap⟩ := h.dequeue S batch
      have hlength := hkeeps.perm.length_eq
      have hwithin := h.within
      rw [List.length_append, q.length_values] at hlength
      simp only [apply, hcap]
      omega
  | setCapacity c =>
      obtain ⟨dropped, hkeeps, hcap⟩ := h.setCapacity S c
      simp only [apply, hcap, hkeeps.length]
      omega
  | clear =>
      simp only [apply, h.clear.1, List.length_nil]
      omega

/-- **After any operations, from an empty queue of any capacity.** -/
theorem queueLaw_of_run (c : Int) (ops : List (StdSort × QueueOp)) :
    QueueLaw (ops.foldl apply { cap := c }) :=
  foldl_invariant (I := QueueLaw) (fun _ op h => h.step op) (queueLaw_of_within (Nat.zero_le _)) ops

/-! ### Several requests for one flow -/

/-- The requests of a flow among all that were offered, in order. -/
def offered (calls : List (List DeepAttributionRequest)) (k : AttributionFlowKey) :
    List DeepAttributionRequest :=
  calls.flatten.filter fun r => r.key = k

/-- The calls one after the other, on an empty queue. -/
def enqueueAll (S : StdSort) (c : Int) (calls : List (List DeepAttributionRequest)) :
    DeepAttributionQueue :=
  calls.foldl (fun q reqs => (q.enqueue S reqs).1) { cap := c }

/-- No more flows than the capacity. -/
def Fits (c : Int) (calls : List (List DeepAttributionRequest)) : Prop :=
  (calls.flatten.map DeepAttributionRequest.key).toFinset.card ≤ c.toNat

instance (c : Int) (calls : List (List DeepAttributionRequest)) : Decidable (Fits c calls) :=
  inferInstanceAs (Decidable (_ ≤ _))

/-- `g` is the largest generation of the requests. -/
def Newest (reqs : List DeepAttributionRequest) (g : UInt64) : Prop :=
  IsGreatest {n | n ∈ reqs.map fun r => r.generation.toNat} g.toNat

/-- `a` is the largest number of attempts of the requests. -/
def MostTried (reqs : List DeepAttributionRequest) (a : Int) : Prop :=
  IsGreatest {a' | a' ∈ reqs.map DeepAttributionRequest.attempts} a

/-- For each flow offered a request is stored, with the largest generation and the most attempts offered
and the flow of a request of that generation. -/
def Freshest (q : DeepAttributionQueue) (calls : List (List DeepAttributionRequest)) : Prop :=
  ∀ k, offered calls k ≠ [] → ∃ r, q.byKey.lookup k = some r ∧ Newest (offered calls k) r.generation ∧
    MostTried (offered calls k) r.attempts ∧
    ∃ r' ∈ offered calls k, Newest (offered calls k) r'.generation ∧ r.flow = r'.flow

/-- The last request of each flow shows it as a request of the largest generation does. -/
def LastIsFresh (calls : List (List DeepAttributionRequest)) : Prop :=
  ∀ k r, (offered calls k).getLast? = some r →
    ∃ r' ∈ offered calls k, Newest (offered calls k) r'.generation ∧ r.flow = r'.flow

/-- What the last requests of a flow say apart from the generation and the attempts. -/
def LastsAgree (calls calls' : List (List DeepAttributionRequest)) : Prop :=
  ∀ k r r', (offered calls k).getLast? = some r → (offered calls' k).getLast? = some r' →
    r.flow = r'.flow ∧ r.monotonicMsQueued = r'.monotonicMsQueued ∧
      r.wantContainerChain = r'.wantContainerChain

theorem toNat_max (a b : UInt64) : (max a b).toNat = max a.toNat b.toNat := by
  change (if a ≤ b then b else a).toNat = _
  split
  · next h => exact (max_eq_right (UInt64.le_iff_toNat_le.mp h)).symm
  · next h => exact (max_eq_left (not_le.mp fun h' => h (UInt64.le_iff_toNat_le.mpr h')).le).symm

theorem isGreatest_concat {α β : Type} [LinearOrder β] (f : α → β) {l : List α} {b : β}
    (h : IsGreatest {b' | b' ∈ l.map f} b) (a : α) :
    IsGreatest {b' | b' ∈ (l ++ [a]).map f} (max b (f a)) := by
  rw [List.map_append]
  refine ⟨?_, ?_⟩
  · rcases max_choice b (f a) with e | e
    · rw [e]
      exact List.mem_append_left _ h.1
    · rw [e]
      exact List.mem_append_right _ List.mem_cons_self
  · intro b' hb'
    rcases List.mem_append.mp hb' with hb' | hb'
    · exact (h.2 hb').trans (le_max_left _ _)
    · rw [List.map_singleton, List.mem_singleton] at hb'
      rw [hb']
      exact le_max_right _ _

theorem isGreatest_singleton {α β : Type} [LinearOrder β] (f : α → β) (a : α) :
    IsGreatest {b' | b' ∈ [a].map f} (f a) := by
  refine ⟨List.mem_cons_self, fun b' hb' => ?_⟩
  rw [Set.mem_ofPred_eq, List.map_singleton, List.mem_singleton] at hb'
  exact hb'.le

/-- A request merged from several: the last, with the largest generation and the most attempts. -/
structure MergedFrom (reqs : List DeepAttributionRequest) (last r : DeepAttributionRequest) : Prop where
  same : r = { last with generation := r.generation, attempts := r.attempts }
  newest : Newest reqs r.generation
  mostTried : MostTried reqs r.attempts

theorem foldl_offer (reqs : List DeepAttributionRequest) (last : DeepAttributionRequest) :
    ∃ r, (reqs ++ [last]).foldl offer none = some r ∧ MergedFrom (reqs ++ [last]) last r := by
  induction reqs using List.reverseRecOn generalizing last with
  | nil => exact ⟨last, rfl, rfl,
      isGreatest_singleton (fun r : DeepAttributionRequest => r.generation.toNat) last,
      isGreatest_singleton DeepAttributionRequest.attempts last⟩
  | append_singleton reqs before ih =>
      obtain ⟨it, hit, hmerged⟩ := ih before
      have hnewest := isGreatest_concat (fun r : DeepAttributionRequest => r.generation.toNat) hmerged.newest last
      rw [← toNat_max] at hnewest
      refine ⟨merged it last, ?_, rfl, hnewest,
        isGreatest_concat DeepAttributionRequest.attempts hmerged.mostTried last⟩
      rw [List.foldl_append, hit]
      rfl

/-- A queue within its capacity is left as it is. -/
theorem lookup_enforceCap (S : StdSort) {q : DeepAttributionQueue} (h : q.size ≤ q.cap.toNat)
    (k : AttributionFlowKey) : (q.enforceCap S).1.byKey.lookup k = q.byKey.lookup k := by
  unfold enforceCap
  split
  · next hcap =>
      have hnone : k ∉ q.byKey := by
        have hempty : q.byKey.keys = [] := List.length_eq_zero_iff.mp (by unfold size at h; omega)
        rw [AList.mem_keys, hempty]
        exact List.not_mem_nil
      rw [AList.lookup_eq_none.mpr hnone]
      exact AList.lookup_empty k
  · rw [if_pos (by omega)]

theorem size_le_of_fits {c : Int} {calls : List (List DeepAttributionRequest)} (h : Fits c calls)
    {q : DeepAttributionQueue} (hq : ∀ k, q.byKey.lookup k = (offered calls k).foldl offer none) :
    q.size ≤ c.toNat := by
  refine (Hash.length_keys_le_card fun k hk => ?_).trans h
  obtain ⟨r, hr⟩ := Hash.exists_lookup hk
  rw [List.mem_toFinset]
  by_contra hnot
  have hnil : offered calls k = [] := by
    rw [offered, List.filter_eq_nil_iff]
    intro r' hr' e
    exact hnot (List.mem_map.mpr ⟨r', hr', of_decide_eq_true e⟩)
  rw [hq k, hnil] at hr
  cases hr

theorem Fits.of_concat {c : Int} {calls : List (List DeepAttributionRequest)}
    {reqs : List DeepAttributionRequest} (h : Fits c (calls ++ [reqs])) : Fits c calls := by
  refine (Finset.card_le_card fun k hk => ?_).trans h
  rw [List.mem_toFinset, List.mem_map] at hk ⊢
  obtain ⟨r, hr, hk⟩ := hk
  exact ⟨r, by rw [List.flatten_append]; exact List.mem_append_left _ hr, hk⟩

/-- Within the capacity, each flow's request is merged from all that were offered for it. -/
theorem lookup_enqueueAll (S : StdSort) {c : Int} {calls : List (List DeepAttributionRequest)}
    (h : Fits c calls) :
    (enqueueAll S c calls).cap = c ∧
      ∀ k, (enqueueAll S c calls).byKey.lookup k = (offered calls k).foldl offer none := by
  induction calls using List.reverseRecOn with
  | nil => exact ⟨rfl, fun k => AList.lookup_empty k⟩
  | append_singleton calls reqs ih =>
      obtain ⟨hcap, hlookup⟩ := ih h.of_concat
      have hall : ∀ k, (reqs.foldl add (enqueueAll S c calls)).byKey.lookup k =
          (offered (calls ++ [reqs]) k).foldl offer none := by
        intro k
        rw [lookup_foldl_add, hlookup, offered, offered, List.flatten_append, List.filter_append,
          List.foldl_append, List.flatten_singleton]
      -- nothing is dropped after this call, since the flows offered so far fit
      have hsize : (reqs.foldl add (enqueueAll S c calls)).size ≤
          (reqs.foldl add (enqueueAll S c calls)).cap.toNat := by
        rw [cap_foldl_add, hcap]
        exact size_le_of_fits h hall
      rw [enqueueAll, List.foldl_append]
      exact ⟨(cap_enqueue S _ reqs).trans hcap,
        fun k => (lookup_enforceCap S hsize k).trans (hall k)⟩

/-- The request stored for a flow. -/
theorem lookup_enqueueAll_of_getLast (S : StdSort) {c : Int}
    {calls : List (List DeepAttributionRequest)} (h : Fits c calls) {k : AttributionFlowKey}
    {last : DeepAttributionRequest} (hlast : (offered calls k).getLast? = some last) :
    ∃ r, (enqueueAll S c calls).byKey.lookup k = some r ∧ MergedFrom (offered calls k) last r := by
  obtain ⟨reqs, hreqs⟩ := List.getLast?_eq_some_iff.mp hlast
  rw [(lookup_enqueueAll S h).2, hreqs]
  exact foldl_offer reqs last

theorem freshest_iff (S : StdSort) {c : Int} {calls : List (List DeepAttributionRequest)}
    (h : Fits c calls) : Freshest (enqueueAll S c calls) calls ↔ LastIsFresh calls := by
  constructor
  · intro hfresh k last hlast
    obtain ⟨r, hr, hmerged⟩ := lookup_enqueueAll_of_getLast S h hlast
    have hne : offered calls k ≠ [] := by
      intro e
      rw [e] at hlast
      cases hlast
    obtain ⟨r₁, hr₁, -, -, r', hr', hnewest, hflow⟩ := hfresh k hne
    rw [hr] at hr₁
    cases hr₁
    rw [hmerged.same] at hflow
    exact ⟨r', hr', hnewest, hflow⟩
  · intro hlasts k hne
    have hlast := List.getLast?_eq_some_getLast hne
    obtain ⟨r, hr, hmerged⟩ := lookup_enqueueAll_of_getLast S h hlast
    obtain ⟨r', hr', hnewest, hflow⟩ := hlasts k _ hlast
    refine ⟨r, hr, hmerged.newest, hmerged.mostTried, r', hr', hnewest, ?_⟩
    rw [hmerged.same]
    exact hflow

/-- The same requests in another order have the same largest values. -/
theorem MergedFrom.congr {reqs reqs' : List DeepAttributionRequest} {last last' r r' : DeepAttributionRequest}
    (hperm : reqs'.Perm reqs) (h : MergedFrom reqs last r) (h' : MergedFrom reqs' last' r') :
    r'.generation = r.generation ∧ r'.attempts = r.attempts := by
  have hnewest := h'.newest
  have htried := h'.mostTried
  rw [Newest] at hnewest
  rw [MostTried] at htried
  simp only [(hperm.map _).mem_iff] at hnewest htried
  exact ⟨UInt64.toNat_inj.mp (hnewest.unique h.newest), htried.unique h.mostTried⟩

theorem Fits.perm {c : Int} {calls calls' : List (List DeepAttributionRequest)} (h : Fits c calls)
    (hperm : calls'.flatten.Perm calls.flatten) : Fits c calls' := by
  rwa [Fits, List.toFinset_eq_of_perm _ _ (hperm.map _)]

theorem key_of_mem_offered {calls : List (List DeepAttributionRequest)} {k : AttributionFlowKey}
    {r : DeepAttributionRequest} (h : r ∈ offered calls k) : r.key = k :=
  of_decide_eq_true (List.mem_filter.mp h).2

/-- Two orders of the same requests leave the same queue exactly when their last requests agree. -/
theorem same_queue_iff (S : StdSort) {c : Int} {calls calls' : List (List DeepAttributionRequest)}
    (h : Fits c calls) (hperm : calls'.flatten.Perm calls.flatten) :
    (∀ k, (enqueueAll S c calls').byKey.lookup k = (enqueueAll S c calls).byKey.lookup k) ↔
      LastsAgree calls calls' := by
  have h' := h.perm hperm
  have hoffered : ∀ k, (offered calls' k).Perm (offered calls k) := fun k => hperm.filter _
  constructor
  · intro hsame k last last' hlast hlast'
    obtain ⟨r, hr, hmerged⟩ := lookup_enqueueAll_of_getLast S h hlast
    obtain ⟨r', hr', hmerged'⟩ := lookup_enqueueAll_of_getLast S h' hlast'
    rw [hsame k, hr, Option.some.injEq] at hr'
    have hsame' := hmerged'.same
    rw [← hr', hmerged.same] at hsame'
    injection hsame' with _ hflow _ hms hwant _
    exact ⟨hflow, hms, hwant⟩
  · -- the generation and the attempts are the same in any order, the rest is the last request's
    intro hlasts k
    by_cases hne : offered calls k = []
    · have hne' : offered calls' k = [] := by
        have hp := hoffered k
        rwa [hne, List.perm_nil] at hp
      rw [(lookup_enqueueAll S h).2, (lookup_enqueueAll S h').2, hne, hne']
    · have hne' : offered calls' k ≠ [] := by
        intro e
        have hp := hoffered k
        rw [e, List.nil_perm] at hp
        exact hne hp
      have hlast := List.getLast?_eq_some_getLast hne
      have hlast' := List.getLast?_eq_some_getLast hne'
      obtain ⟨r, hr, hmerged⟩ := lookup_enqueueAll_of_getLast S h hlast
      obtain ⟨r', hr', hmerged'⟩ := lookup_enqueueAll_of_getLast S h' hlast'
      obtain ⟨hflow, hms, hwant⟩ := hlasts k _ _ hlast hlast'
      obtain ⟨hgeneration, hattempts⟩ := hmerged.congr (hoffered k) hmerged'
      have hkey := (key_of_mem_offered (List.getLast_mem hne)).trans
        (key_of_mem_offered (List.getLast_mem hne')).symm
      rw [hr, hr', hmerged.same, hmerged'.same, hgeneration, hattempts]
      simp [hkey, hflow, hms, hwant]

/-- **When the requests of a flow are merged whatever their order**: a request stored is the freshest
offered exactly when the last one offered is as fresh, and another order leaves another queue exactly
when it ends otherwise. -/
theorem enqueueAll_freshest_iff (S : StdSort) {c : Int} {calls : List (List DeepAttributionRequest)}
    (h : Fits c calls) :
    (Freshest (enqueueAll S c calls) calls ↔ LastIsFresh calls) ∧
      ∀ calls', calls'.flatten.Perm calls.flatten →
        ((∀ k, (enqueueAll S c calls').byKey.lookup k = (enqueueAll S c calls).byKey.lookup k) ↔
          LastsAgree calls calls') :=
  ⟨freshest_iff S h, fun _ hperm => same_queue_iff S h hperm⟩

/-- A request of the first snapshot, put back by the worker, and one of the second. -/
def older : DeepAttributionRequest where
  key := {}
  flow := { rxBytes := 10 }
  generation := 1

def newer : DeepAttributionRequest where
  key := {}
  flow := { rxBytes := 20 }
  generation := 2

theorem enqueueAll_freshest_iff_newer_last :
    (Freshest (enqueueAll .stable 2 [[older], [newer]]) [[older], [newer]] ↔
        LastIsFresh [[older], [newer]]) ∧
      ∀ calls', calls'.flatten.Perm [[older], [newer]].flatten →
        ((∀ k, (enqueueAll .stable 2 calls').byKey.lookup k =
            (enqueueAll .stable 2 [[older], [newer]]).byKey.lookup k) ↔
          LastsAgree [[older], [newer]] calls') :=
  enqueueAll_freshest_iff .stable (by decide)

/-- The worker puts the older request back after the newer one came: the older flow is stored. -/
theorem older_flow_stored :
    ¬ ∀ S c calls, Fits c calls → Freshest (enqueueAll S c calls) calls := by
  intro h
  obtain ⟨r, hr, -, -, r', hr', hnewest, hflow⟩ :=
    h .stable 2 [[newer], [older]] (by decide) older.key (by decide)
  have hstored : (enqueueAll .stable 2 [[newer], [older]]).byKey.lookup older.key =
      some (merged newer older) := rfl
  rw [hstored, Option.some.injEq] at hr
  have hfresh : r' = newer := by
    have hle := hnewest.2 (show 2 ∈ _ by decide)
    rcases List.mem_cons.mp hr' with e | e
    · exact e
    · rw [List.mem_singleton.mp e] at hle
      exact absurd hle (by decide)
  rw [← hr, hfresh] at hflow
  exact absurd (congrArg Connection.rxBytes hflow) (by decide)

end DeepAttributionQueue

end Qiftop.Backend
