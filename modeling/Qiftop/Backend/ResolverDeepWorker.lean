import Mathlib.Data.List.ReduceOption
import Qiftop.Backend.Attribution
import Qiftop.Backend.ResolverTuning

/-!
# Backend — the deep pass

`backend/DeepAttributionQueue.h` and `backend/ResolverDeepWorker.cpp`: flows a snapshot could not
attribute wait in a queue, one request for each flow.  On every tick of its timer the worker takes the
loudest requests, asks the resolver again, reports what it found and puts the rest back until they
have been tried often enough.

`std::partial_sort` is the front of a `std::sort`; whatever order the hash table is iterated in is the
sort's to undo.  The table's entries stand under their requests' keys, which is a field of the queue.
-/

namespace Qiftop.Backend
open Qt Lib

/-! ### The queue -/

theorem keyed_empty (k : AttributionFlowKey) (r : DeepAttributionRequest)
    (h : (∅ : Hash AttributionFlowKey DeepAttributionRequest).lookup k = some r) : r.key = k := by
  simp at h

structure DeepAttributionQueue where
  byKey : Hash AttributionFlowKey DeepAttributionRequest := ∅
  cap : Int := 8192
  keyed : ∀ k r, byKey.lookup k = some r → r.key = k := by exact keyed_empty

namespace DeepAttributionQueue

/-- `totalBytes`: the counters' sum, modulo 2⁶⁴. -/
def totalBytes (r : DeepAttributionRequest) : UInt64 := r.flow.rxBytes + r.flow.txBytes

def moreBytes (a b : DeepAttributionRequest) : Bool := decide (totalBytes a > totalBytes b)

def size (q : DeepAttributionQueue) : ℕ := q.byKey.keys.length

def isEmpty (q : DeepAttributionQueue) : Bool := q.byKey.keys.isEmpty

/-- The requests, the loudest first. -/
def loudest (S : StdSort) (q : DeepAttributionQueue) : List DeepAttributionRequest :=
  S.sort moreBytes q.byKey.values

/-- The request of a key put in. -/
def put (q : DeepAttributionQueue) (r : DeepAttributionRequest) : DeepAttributionQueue where
  byKey := q.byKey.insert r.key r
  cap := q.cap
  keyed k r' h := by
    rw [Hash.lookup_insert_ite] at h
    split at h
    · next hk => rw [← Option.some.inj h, hk]
    · exact q.keyed k r' h

/-- The requests of some keys taken out. -/
def remove (q : DeepAttributionQueue) (keys : List AttributionFlowKey) : DeepAttributionQueue where
  byKey := Hash.filterMap (fun k r => if k ∈ keys then none else some r) q.byKey
  cap := q.cap
  keyed k r h := by
    rw [Hash.lookup_filterMap, Option.bind_eq_some_iff] at h
    obtain ⟨r', hr', h⟩ := h
    split at h
    · cases h
    · rw [← Option.some.inj h]
      exact q.keyed k r' hr'

def clear (q : DeepAttributionQueue) : DeepAttributionQueue where
  cap := q.cap

/-- Drops the quietest requests, with their number. -/
def enforceCap (S : StdSort) (q : DeepAttributionQueue) : DeepAttributionQueue × ℕ :=
  -- a capacity of none keeps none
  if q.cap ≤ 0 then (q.clear, q.size)
  else if q.size ≤ q.cap then (q, 0)
  else (q.remove (((q.loudest S).drop q.cap.toNat).map DeepAttributionRequest.key),
    q.size - q.cap.toNat)

def setCapacity (S : StdSort) (q : DeepAttributionQueue) (c : Int) : DeepAttributionQueue :=
  ({ q with cap := if c > 0 then c else 0 }.enforceCap S).1

/-- The newer observation with the attempts and the generation that are ahead. -/
def merged (it r : DeepAttributionRequest) : DeepAttributionRequest :=
  { r with generation := max it.generation r.generation, attempts := max it.attempts r.attempts }

/-- One request put in, merged with the one of its flow. -/
def add (q : DeepAttributionQueue) (r : DeepAttributionRequest) : DeepAttributionQueue :=
  match q.byKey.lookup r.key with
  | none => q.put r
  | some it => q.put (merged it r)

/-- `enqueue`, with the number of requests dropped. -/
def enqueue (S : StdSort) (q : DeepAttributionQueue) (reqs : List DeepAttributionRequest) :
    DeepAttributionQueue × ℕ :=
  (reqs.foldl add q).enforceCap S

/-- `dequeue`: the loudest requests, and the queue without them. -/
def dequeue (S : StdSort) (q : DeepAttributionQueue) (batch : Int) :
    List DeepAttributionRequest × DeepAttributionQueue :=
  if batch ≤ 0 ∨ q.isEmpty then ([], q)
  else
    let out := (q.loudest S).take batch.toNat
    (out, q.remove (out.map DeepAttributionRequest.key))

end DeepAttributionQueue

/-! ### The worker -/

structure ResolverDeepWorker where
  queue : DeepAttributionQueue := {}
  /-- The timer is active. -/
  running : Bool := false
  active : Bool := true
  batchMax : Int := 256
  maxAttempts : Int := 12
  coalesceMs : Int := 100
  demandNetnsScan : Bool := false

/-- What the worker does on a tick. -/
inductive DeepOutput where
  /-- The resolver was asked again for the flow of a request. -/
  | retried (key : AttributionFlowKey)
  | requestDeepScan
  | refined (updates : List DeepAttributionUpdate)

namespace ResolverDeepWorker

def setTuning (S : StdSort) (w : ResolverDeepWorker) (tuning : ResolverTuning) :
    ResolverDeepWorker :=
  { w with
    batchMax := if tuning.deepBatchMax > 0 then tuning.deepBatchMax else 1
    maxAttempts := if tuning.deepMaxAttempts > 0 then tuning.deepMaxAttempts else 1
    coalesceMs := if tuning.deepCoalesceMs > 0 then tuning.deepCoalesceMs else 50
    demandNetnsScan := tuning.deepDemandNetnsScan
    queue := w.queue.setCapacity S tuning.deepQueueMax }

def setActive (w : ResolverDeepWorker) (active : Bool) : ResolverDeepWorker :=
  if active then { w with active := true }
  else { w with active := false, queue := w.queue.clear, running := false }

def enqueue (S : StdSort) (w : ResolverDeepWorker) (reqs : List DeepAttributionRequest) :
    ResolverDeepWorker :=
  if !w.active || reqs.isEmpty then w
  else
    let queue := (w.queue.enqueue S reqs).1
    { w with queue, running := w.running || !queue.isEmpty }

/-- A private copy of a request's flow, attributed again: what was found that the flow lacks. -/
def refinement (R : ProcessResolver) (req : DeepAttributionRequest) : Option DeepAttributionUpdate :=
  let got := (attributeFlow R req.wantContainerChain {} req.flow).1
  -- only what the flow lacked when it was queued is news
  let gotProcess := got.process.valid && !req.flow.process.valid
  let gotContainer := got.container.valid && !req.flow.container.valid
  let gotChain := !got.containerChain.isEmpty && req.flow.containerChain.isEmpty
  if gotProcess || gotContainer || gotChain then
    some { key := req.key, generation := req.generation, process := got.process
           container := got.container, containerChain := got.containerChain
           reason := if got.process.valid then .Resolved else req.flow.reason }
  else none

/-- A request that found nothing, for a later tick, unless it has been tried often enough. -/
def again (w : ResolverDeepWorker) (req : DeepAttributionRequest) : Option DeepAttributionRequest :=
  if req.attempts + 1 < w.maxAttempts then some { req with attempts := req.attempts + 1 } else none

/-- The requests of a batch that go back into the queue. -/
def retry (w : ResolverDeepWorker) (R : ℕ → ProcessResolver) (batch : List DeepAttributionRequest) :
    List DeepAttributionRequest :=
  (batch.mapIdx fun i req => if (refinement (R i) req).isSome then none else w.again req).reduceOption

/-- What a batch found. -/
def updates (R : ℕ → ProcessResolver) (batch : List DeepAttributionRequest) :
    List DeepAttributionUpdate :=
  (batch.mapIdx fun i req => refinement (R i) req).reduceOption

/-- The queue after a batch. -/
def requeue (S : StdSort) (queue : DeepAttributionQueue) (retry : List DeepAttributionRequest) :
    DeepAttributionQueue :=
  if retry.isEmpty then queue else (queue.enqueue S retry).1

/-- `process`; the resolver's answers are those at each request of the batch. -/
def process (S : StdSort) (w : ResolverDeepWorker) (resolver : Option (ℕ → ProcessResolver)) :
    ResolverDeepWorker × List DeepOutput :=
  match resolver with
  | none => ({ w with queue := w.queue.clear, running := false }, [])
  | some R =>
      if !w.active then ({ w with queue := w.queue.clear, running := false }, [])
      else
        let batch := w.queue.dequeue S w.batchMax
        let retry := w.retry R batch.1
        let updates := updates R batch.1
        let queue := requeue S batch.2 retry
        ({ w with queue, running := w.running && !queue.isEmpty },
          batch.1.map (fun req => .retried req.key) ++
            (if !retry.isEmpty && w.demandNetnsScan then [.requestDeepScan] else []) ++
            if updates.isEmpty then [] else [.refined updates])

end ResolverDeepWorker

/-! ### What a worker holds of a tuning -/

/-- The limits of the deep pass, as a worker holds them. -/
structure DeepBudgets where
  batchMax : Int
  maxAttempts : Int
  coalesceMs : Int
  demandNetnsScan : Bool
  capacity : Int
  deriving DecidableEq, Repr

def ResolverDeepWorker.budgets (w : ResolverDeepWorker) : DeepBudgets :=
  ⟨w.batchMax, w.maxAttempts, w.coalesceMs, w.demandNetnsScan, w.queue.cap⟩

theorem DeepAttributionQueue.cap_enforceCap (S : StdSort) (q : DeepAttributionQueue) :
    (q.enforceCap S).1.cap = q.cap := by
  unfold enforceCap
  split
  · rfl
  · split <;> rfl

/-- What a worker holds after a tuning depends on the tuning only. -/
theorem ResolverDeepWorker.budgets_setTuning (S : StdSort) (w w' : ResolverDeepWorker)
    (tuning : ResolverTuning) : (w.setTuning S tuning).budgets = (w'.setTuning S tuning).budgets := by
  simp only [budgets, setTuning, DeepAttributionQueue.setCapacity,
    DeepAttributionQueue.cap_enforceCap]

@[simp] theorem ResolverDeepWorker.budgets_setActive (w : ResolverDeepWorker) (active : Bool) :
    (w.setActive active).budgets = w.budgets := by
  cases active <;> rfl

/-! ### What the queue remembers of a flow -/

namespace DeepAttributionQueue

/-- The attempts of a flow's request, if one is queued. -/
def attemptsOf (q : DeepAttributionQueue) (k : AttributionFlowKey) : Option Int :=
  (q.byKey.lookup k).map DeepAttributionRequest.attempts

@[simp] theorem attemptsOf_remove (q : DeepAttributionQueue) (keys : List AttributionFlowKey)
    (k : AttributionFlowKey) :
    (q.remove keys).attemptsOf k = if k ∈ keys then none else q.attemptsOf k := by
  rw [attemptsOf, remove, Hash.lookup_filterMap]
  split
  · cases q.byKey.lookup k <;> rfl
  · rw [attemptsOf]
    cases q.byKey.lookup k <;> rfl

theorem attemptsOf_put (q : DeepAttributionQueue) (r : DeepAttributionRequest)
    (k : AttributionFlowKey) :
    (q.put r).attemptsOf k = if k = r.key then some r.attempts else q.attemptsOf k := by
  rw [attemptsOf, put, Hash.lookup_insert_ite]
  split <;> rfl

theorem attemptsOf_add (q : DeepAttributionQueue) (r : DeepAttributionRequest)
    (k : AttributionFlowKey) :
    (q.add r).attemptsOf k =
      if k = r.key then some ((q.attemptsOf k).elim r.attempts (max · r.attempts))
      else q.attemptsOf k := by
  unfold add
  by_cases hk : k = r.key
  · subst hk
    rw [if_pos rfl]
    cases hq : q.byKey.lookup r.key with
    | none =>
        have hold : q.attemptsOf r.key = none := by rw [attemptsOf, hq]; rfl
        rw [hold]
        exact (attemptsOf_put q r _).trans (if_pos rfl)
    | some it =>
        have hold : q.attemptsOf r.key = some it.attempts := by rw [attemptsOf, hq]; rfl
        rw [hold]
        exact (attemptsOf_put q (merged it r) _).trans (if_pos rfl)
  · rw [if_neg hk]
    cases q.byKey.lookup r.key with
    | none => exact (attemptsOf_put q r k).trans (if_neg hk)
    | some it => exact (attemptsOf_put q (merged it r) k).trans (if_neg hk)

/-- What every merge of a flow's requests keeps, putting in a list of requests keeps. -/
theorem attemptsOf_foldl_add {k : AttributionFlowKey} (I : Option Int → Prop)
    {reqs : List DeepAttributionRequest}
    (hstep : ∀ r ∈ reqs, r.key = k → ∀ o, I o → I (some (o.elim r.attempts (max · r.attempts))))
    {q : DeepAttributionQueue} (h : I (q.attemptsOf k)) :
    I ((reqs.foldl add q).attemptsOf k) := by
  induction reqs generalizing q with
  | nil => exact h
  | cons r reqs ih =>
      refine ih (fun r' hr' => hstep r' (List.mem_cons_of_mem r hr')) ?_
      rw [attemptsOf_add]
      split
      · next hk => exact hstep r List.mem_cons_self hk.symm _ h
      · exact h

/-- The capacity only takes requests out. -/
theorem attemptsOf_enforceCap (S : StdSort) (q : DeepAttributionQueue) (k : AttributionFlowKey) :
    (q.enforceCap S).1.attemptsOf k = q.attemptsOf k ∨ (q.enforceCap S).1.attemptsOf k = none := by
  unfold enforceCap
  split
  · exact .inr rfl
  · split
    · exact .inl rfl
    · rw [attemptsOf_remove]
      split
      · exact .inr rfl
      · exact .inl rfl

/-- Putting requests in, and one flow; the capacity may drop its request. -/
theorem attemptsOf_enqueue (S : StdSort) {q : DeepAttributionQueue}
    (reqs : List DeepAttributionRequest) {k : AttributionFlowKey} (I : Option Int → Prop)
    (hstep : ∀ r ∈ reqs, r.key = k → ∀ o, I o → I (some (o.elim r.attempts (max · r.attempts))))
    (h : I (q.attemptsOf k)) :
    I ((q.enqueue S reqs).1.attemptsOf k) ∨ (q.enqueue S reqs).1.attemptsOf k = none := by
  have hput := attemptsOf_foldl_add I hstep h
  rcases attemptsOf_enforceCap S (reqs.foldl add q) k with hcap | hcap
  · exact .inl (by rw [enqueue, hcap]; exact hput)
  · exact .inr hcap

theorem values_map_key (q : DeepAttributionQueue) :
    q.byKey.values.map DeepAttributionRequest.key = q.byKey.keys := by
  rw [Hash.values, List.map_map, AList.keys, List.keys]
  exact List.map_congr_left fun e he => q.keyed e.1 e.2 (Hash.mem_entries_iff.mp he)

theorem nodup_loudest (S : StdSort) (q : DeepAttributionQueue) :
    ((q.loudest S).map DeepAttributionRequest.key).Nodup := by
  have hperm := (S.perm moreBytes q.byKey.values).map DeepAttributionRequest.key
  rw [values_map_key] at hperm
  exact hperm.nodup_iff.mpr q.byKey.keys_nodup

/-- Every request sorted is the one queued under its key. -/
theorem lookup_of_mem_loudest {S : StdSort} {q : DeepAttributionQueue} {r : DeepAttributionRequest}
    (h : r ∈ q.loudest S) : q.byKey.lookup r.key = some r := by
  obtain ⟨k, hk⟩ := Hash.mem_values_iff.mp ((S.perm moreBytes q.byKey.values).mem_iff.mp h)
  rwa [q.keyed k r hk]

/-- What is dequeued was queued, one request for each flow, and is queued no more. -/
theorem dequeue_spec (S : StdSort) (q : DeepAttributionQueue) (batch : Int) :
    ((q.dequeue S batch).1.map DeepAttributionRequest.key).Nodup ∧
      (∀ r ∈ (q.dequeue S batch).1, q.attemptsOf r.key = some r.attempts) ∧
      ∀ k, (q.dequeue S batch).2.attemptsOf k =
        if k ∈ (q.dequeue S batch).1.map DeepAttributionRequest.key then none else q.attemptsOf k := by
  unfold dequeue
  split
  · simp
  · refine ⟨?_, fun r hr => ?_, fun k => attemptsOf_remove q _ k⟩
    · rw [List.map_take]
      exact (nodup_loudest S q).sublist (List.take_sublist _ _)
    · rw [attemptsOf, lookup_of_mem_loudest (List.mem_of_mem_take hr)]
      rfl

end DeepAttributionQueue

/-! ### What a tick does to a flow -/

/-- How often the worker asked again for a flow. -/
def retries (k : AttributionFlowKey) (outs : List DeepOutput) : ℕ :=
  outs.countP fun
    | .retried key => key = k
    | _ => false

theorem retries_append (k : AttributionFlowKey) (outs outs' : List DeepOutput) :
    retries k (outs ++ outs') = retries k outs + retries k outs' :=
  List.countP_append

theorem retries_map_retried (k : AttributionFlowKey) (batch : List DeepAttributionRequest) :
    retries k (batch.map fun req => .retried req.key) =
      (batch.map DeepAttributionRequest.key).count k := by
  induction batch with
  | nil => rfl
  | cons req batch ih =>
      rw [List.map_cons, List.map_cons, List.count_cons, ← ih]
      simp [retries, List.countP_cons]

namespace ResolverDeepWorker

/-- A request that goes back is one of the batch, one attempt later. -/
theorem mem_retry {w : ResolverDeepWorker} {R : ℕ → ProcessResolver}
    {batch : List DeepAttributionRequest} {r : DeepAttributionRequest} (h : r ∈ w.retry R batch) :
    ∃ req ∈ batch, r = { req with attempts := req.attempts + 1 } ∧
      req.attempts + 1 < w.maxAttempts := by
  rw [retry, List.reduceOption_mem_iff] at h
  obtain ⟨i, hi, he⟩ := List.mem_mapIdx.mp h
  split at he
  · cases he
  · unfold again at he
    split at he
    · next hlt => exact ⟨_, List.getElem_mem hi, (Option.some.inj he).symm, hlt⟩
    · cases he

theorem requeue_attempts (S : StdSort) {queue : DeepAttributionQueue}
    (retry : List DeepAttributionRequest) {k : AttributionFlowKey} (I : Option Int → Prop)
    (hstep : ∀ r ∈ retry, r.key = k → ∀ o, I o → I (some (o.elim r.attempts (max · r.attempts))))
    (h : I (queue.attemptsOf k)) :
    I ((requeue S queue retry).attemptsOf k) ∨ (requeue S queue retry).attemptsOf k = none := by
  unfold requeue
  split
  · exact .inl h
  · exact DeepAttributionQueue.attemptsOf_enqueue S retry I hstep h

/-- Requests without attempts, and one flow: what was counted stays counted, and a flow that was not
queued starts at none. -/
theorem enqueue_attempts (S : StdSort) (w : ResolverDeepWorker) {reqs : List DeepAttributionRequest}
    (hreqs : ∀ r ∈ reqs, r.attempts = 0) (k : AttributionFlowKey) :
    (∀ a, w.queue.attemptsOf k = some a → 0 ≤ a →
      (w.enqueue S reqs).queue.attemptsOf k = some a ∨ (w.enqueue S reqs).queue.attemptsOf k = none) ∧
    (w.queue.attemptsOf k = none → (w.enqueue S reqs).queue.attemptsOf k = none ∨
      (w.enqueue S reqs).queue.attemptsOf k = some 0 ∧ ∃ r ∈ reqs, r.key = k) := by
  unfold enqueue
  split
  · exact ⟨fun a ha _ => .inl ha, fun h => .inl h⟩
  · constructor
    · intro a ha hpos
      refine DeepAttributionQueue.attemptsOf_enqueue S reqs (· = some a) (fun r hr _ o ho => ?_) ha
      rw [ho, hreqs r hr, Option.elim_some, max_eq_left hpos]
    · intro hnone
      have hput := DeepAttributionQueue.attemptsOf_enqueue S reqs
        (fun o => o = none ∨ o = some 0 ∧ ∃ r ∈ reqs, r.key = k) (fun r hr hkey o ho => ?_)
        (.inl hnone)
      · rcases hput with h | h
        · exact h
        · exact .inl h
      · rw [hreqs r hr]
        rcases ho with rfl | ⟨rfl, -⟩
        · exact .inr ⟨rfl, r, hr, hkey⟩
        · exact .inr ⟨rfl, r, hr, hkey⟩

@[simp] theorem enqueue_maxAttempts (S : StdSort) (w : ResolverDeepWorker)
    (reqs : List DeepAttributionRequest) : (w.enqueue S reqs).maxAttempts = w.maxAttempts := by
  unfold enqueue
  split <;> rfl

@[simp] theorem process_maxAttempts (S : StdSort) (w : ResolverDeepWorker)
    (resolver : Option (ℕ → ProcessResolver)) :
    (w.process S resolver).1.maxAttempts = w.maxAttempts := by
  unfold process
  cases resolver with
  | none => rfl
  | some R =>
      dsimp only
      split <;> rfl

section Tick
variable {S : StdSort} {w : ResolverDeepWorker} (R : ℕ → ProcessResolver) {k : AttributionFlowKey}

/-- A flow whose request was in the batch goes back one attempt later, or not at all. -/
theorem requeue_tried {req : DeepAttributionRequest}
    (hreq : req ∈ (w.queue.dequeue S w.batchMax).1) :
    let batch := w.queue.dequeue S w.batchMax
    let queue := requeue S batch.2 (w.retry R batch.1)
    queue.attemptsOf req.key = some (req.attempts + 1) ∧ req.attempts + 1 < w.maxAttempts ∨
      queue.attemptsOf req.key = none := by
  intro batch queue
  obtain ⟨-, hqueued, hrest⟩ := DeepAttributionQueue.dequeue_spec S w.queue w.batchMax
  have hout : batch.2.attemptsOf req.key = none :=
    (hrest req.key).trans (if_pos (List.mem_map_of_mem hreq))
  have hback := requeue_attempts S (w.retry R batch.1)
    (fun o => o = none ∨ o = some (req.attempts + 1) ∧ req.attempts + 1 < w.maxAttempts)
    (fun r hr hkey o ho => ?_) (.inl hout)
  · rcases hback with (h | h) | h
    · exact .inr h
    · exact .inl h
    · exact .inr h
  · -- the batch has one request for a flow
    obtain ⟨req', hreq', rfl, hlt⟩ := mem_retry hr
    have hsame : req'.attempts = req.attempts := by
      have := hqueued req' hreq'
      rw [show req'.key = req.key from hkey, hqueued req hreq] at this
      exact (Option.some.inj this).symm
    rw [hsame] at hlt ⊢
    rcases ho with rfl | ⟨rfl, -⟩
    · exact .inr ⟨rfl, hlt⟩
    · exact .inr ⟨by simp, hlt⟩

/-- A flow whose request was not in the batch stays as it was, or is dropped. -/
theorem requeue_untried
    (hk : k ∉ (w.queue.dequeue S w.batchMax).1.map DeepAttributionRequest.key) :
    let batch := w.queue.dequeue S w.batchMax
    let queue := requeue S batch.2 (w.retry R batch.1)
    queue.attemptsOf k = w.queue.attemptsOf k ∨ queue.attemptsOf k = none := by
  obtain ⟨-, -, hrest⟩ := DeepAttributionQueue.dequeue_spec S w.queue w.batchMax
  refine requeue_attempts S _ (fun o => o = w.queue.attemptsOf k) (fun r hr hkey => ?_)
    ((hrest k).trans (if_neg hk))
  obtain ⟨req, hreq, rfl, -⟩ := mem_retry hr
  exact absurd (List.mem_map.mpr ⟨req, hreq, hkey⟩) hk

end Tick

/-- **A tick and one flow.**  Either the flow's request was not in the batch, or it was tried once and
is queued again one attempt later or not at all; the capacity may drop it in any case. -/
theorem process_attempts (S : StdSort) (w : ResolverDeepWorker)
    (resolver : Option (ℕ → ProcessResolver)) (k : AttributionFlowKey) :
    let r := w.process S resolver
    (retries k r.2 = 0 ∧
      (r.1.queue.attemptsOf k = w.queue.attemptsOf k ∨ r.1.queue.attemptsOf k = none)) ∨
    ∃ a, w.queue.attemptsOf k = some a ∧ retries k r.2 = 1 ∧
      (r.1.queue.attemptsOf k = some (a + 1) ∧ a + 1 < w.maxAttempts ∨
        r.1.queue.attemptsOf k = none) := by
  unfold process
  cases resolver with
  | none => exact .inl ⟨rfl, .inr rfl⟩
  | some R =>
      dsimp only
      split
      · exact .inl ⟨rfl, .inr rfl⟩
      · obtain ⟨hnd, hqueued, -⟩ := DeepAttributionQueue.dequeue_spec S w.queue w.batchMax
        have hcount : ∀ (batch : List DeepAttributionRequest) (scan found : Bool)
            (updates : List DeepAttributionUpdate),
            retries k (batch.map (fun req => .retried req.key) ++
              (if scan = true then [.requestDeepScan] else []) ++
              if found = true then [] else [.refined updates]) =
            (batch.map DeepAttributionRequest.key).count k := by
          intro batch scan found updates
          rw [retries_append, retries_append, retries_map_retried]
          cases scan <;> cases found <;> rfl
        by_cases hk : k ∈ (w.queue.dequeue S w.batchMax).1.map DeepAttributionRequest.key
        · obtain ⟨req, hreq, rfl⟩ := List.mem_map.mp hk
          refine .inr ⟨req.attempts, hqueued req hreq, ?_, requeue_tried R hreq⟩
          rw [hcount, List.count_eq_one_of_mem hnd hk]
        · refine .inl ⟨?_, requeue_untried R hk⟩
          rw [hcount, List.count_eq_zero_of_not_mem hk]

end ResolverDeepWorker
end Qiftop.Backend
