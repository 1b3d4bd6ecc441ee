import Qiftop.Backend.Attribution

/-!
# Backend — remembered answers

A walk over a snapshot remembers answers by pid and start time.  Pids are recycled while it goes on, and
what a resolver answers about a pid may depend on the process that holds it at the moment, but on
nothing else (`Steady`).  Then every flow gets what it would get alone, at its own moment
(`attributeFlows_eq_alone`).

The walk keeps three memories, one for each question.  A memory is faithful (`Recalls`) when every entry
is the answer at any moment at which the pid has the start time of the entry.
-/

namespace Qiftop.Backend
open Qt Lib

/-- A flow attributed on its own. -/
def attributeAlone (R : ProcessResolver) (wantContainerChain : Bool) (c : Connection) : Connection :=
  if R.resolvePid c ≤ 0 then c
  else if !(R.processOf (R.resolvePid c)).valid then { c with process := R.processOf (R.resolvePid c) }
  else
    { c with
      process := R.processOf (R.resolvePid c)
      container := R.containerOf (R.resolvePid c)
      containerChain :=
        if wantContainerChain then R.resolveContainerChainForPid (R.resolvePid c)
        else c.containerChain }

/-- What is answered about a pid depends on the pid and its start time. -/
def DependsOnProcess {V : Type} (R : ℕ → ProcessResolver) (ask : ProcessResolver → Int32 → V) : Prop :=
  ∀ i j pid, (R i).startTimeForPid pid = (R j).startTimeForPid pid → ask (R i) pid = ask (R j) pid

structure Steady (R : ℕ → ProcessResolver) : Prop where
  enrich : DependsOnProcess R ProcessResolver.enrichPid
  container : DependsOnProcess R ProcessResolver.resolveContainerForPid
  chain : DependsOnProcess R ProcessResolver.resolveContainerChainForPid

theorem Steady.processOf {R : ℕ → ProcessResolver} (h : Steady R) :
    DependsOnProcess R ProcessResolver.processOf := by
  intro i j pid hstart
  simp only [ProcessResolver.processOf, h.enrich i j pid hstart]

theorem Steady.containerOf {R : ℕ → ProcessResolver} (h : Steady R) :
    DependsOnProcess R ProcessResolver.containerOf := by
  intro i j pid hstart
  simp only [ProcessResolver.containerOf, h.container i j pid hstart]

/-! ### One memory -/

/-- Every entry is the answer, whenever the pid has the start time of the entry. -/
def Recalls {V : Type} (R : ℕ → ProcessResolver) (ask : ProcessResolver → Int32 → V)
    (memo : Hash PidKey V) : Prop :=
  ∀ key v, memo.lookup key = some v → ∀ i, (R i).startTimeForPid key.1 = key.2 → v = ask (R i) key.1

/-- A faithful memory answers as the resolver does, and stays faithful. -/
theorem Recalls.memoised {V : Type} {R : ℕ → ProcessResolver} {ask : ProcessResolver → Int32 → V}
    {memo : Hash PidKey V} (h : Recalls R ask memo) (hask : DependsOnProcess R ask) (i : ℕ)
    (pid : Int32) :
    (memoised memo (pid, (R i).startTimeForPid pid) (ask (R i) pid)).1 = ask (R i) pid ∧
      Recalls R ask (memoised memo (pid, (R i).startTimeForPid pid) (ask (R i) pid)).2 := by
  unfold Backend.memoised
  cases hv : memo.lookup (pid, (R i).startTimeForPid pid) with
  | some v => exact ⟨h _ v hv i rfl, h⟩
  | none =>
      refine ⟨rfl, fun key v hkey j hj => ?_⟩
      rw [Hash.lookup_insert_ite] at hkey
      split at hkey
      · -- the new entry, read at another moment of the same process
        next heq =>
          subst heq
          rw [← Option.some.inj hkey]
          exact hask i j pid hj.symm
      · exact h key v hkey j hj

/-! ### The walk -/

/-- The three memories are faithful. -/
structure AttributionMemo.Faithful (R : ℕ → ProcessResolver) (memo : AttributionMemo) : Prop where
  process : Recalls R ProcessResolver.processOf memo.processByPid
  container : Recalls R ProcessResolver.containerOf memo.containerByPid
  chain : Recalls R ProcessResolver.resolveContainerChainForPid memo.chainByPid

/-- One flow gets what it would get alone. -/
theorem attributeFlow_faithful {R : ℕ → ProcessResolver} (hR : Steady R) (wantContainerChain : Bool)
    {memo : AttributionMemo} (h : memo.Faithful R) (i : ℕ) (c : Connection) :
    (attributeFlow (R i) wantContainerChain memo c).1 = attributeAlone (R i) wantContainerChain c ∧
      (attributeFlow (R i) wantContainerChain memo c).2.Faithful R := by
  obtain ⟨hp, hp'⟩ := h.process.memoised hR.processOf i ((R i).resolvePid c)
  obtain ⟨hci, hci'⟩ := h.container.memoised hR.containerOf i ((R i).resolvePid c)
  obtain ⟨hch, hch'⟩ := h.chain.memoised hR.chain i ((R i).resolvePid c)
  simp only [attributeFlow, attributeAlone, hp, hci, hch]
  -- each early return leaves the memories of the later questions as they were
  split
  · exact ⟨rfl, h⟩
  · split
    · exact ⟨rfl, hp', h.container, h.chain⟩
    · split
      · exact ⟨rfl, hp', hci', hch'⟩
      · exact ⟨rfl, hp', hci', h.chain⟩

theorem attributeFrom_eq_alone {R : ℕ → ProcessResolver} (hR : Steady R) (wantContainerChain : Bool)
    {memo : AttributionMemo} (h : memo.Faithful R) (i : ℕ) (flows : List Connection) :
    attributeFrom R wantContainerChain i memo flows =
      flows.mapIdx fun k c => attributeAlone (R (i + k)) wantContainerChain c := by
  induction flows generalizing i memo with
  | nil => rfl
  | cons c flows ih =>
      obtain ⟨hc, hmemo⟩ := attributeFlow_faithful hR wantContainerChain h i c
      rw [attributeFrom, List.mapIdx_cons, ih hmemo]
      simp only [hc, Nat.add_zero, Nat.add_assoc, Nat.add_comm 1]

theorem faithful_empty (R : ℕ → ProcessResolver) : AttributionMemo.Faithful R {} :=
  ⟨fun _ _ h => by simp at h, fun _ _ h => by simp at h, fun _ _ h => by simp at h⟩

/-- **A walk with memories gives every flow what it would get alone, at its own moment**, which is what a
walk over this flow only gives it. -/
theorem attributeFlows_eq_alone (R : ℕ → ProcessResolver) (hR : Steady R) (wantContainerChain : Bool)
    (flows : List Connection) :
    attributeFlows (some R) wantContainerChain flows =
        flows.mapIdx (fun i c => attributeAlone (R i) wantContainerChain c) ∧
      ∀ i c, attributeFlows (some fun _ => R i) wantContainerChain [c] =
        [attributeAlone (R i) wantContainerChain c] := by
  constructor
  · have hwalk := attributeFrom_eq_alone hR wantContainerChain (faithful_empty R) 0 flows
    simp only [Nat.zero_add] at hwalk
    exact hwalk
  · intro i c
    have hsame : Steady fun _ : ℕ => R i :=
      ⟨fun _ _ _ _ => rfl, fun _ _ _ _ => rfl, fun _ _ _ _ => rfl⟩
    exact attributeFrom_eq_alone hsame wantContainerChain (faithful_empty _) 0 [c]

/-- Pid 7 owns every flow, and is recycled after the first one. -/
def recycledOnce (i : ℕ) : ProcessResolver where
  resolvePid _ := 7
  startTimeForPid _ := if i = 0 then 1 else 2
  enrichPid pid := some { pid, comm := (if i = 0 then "curl" else "nginx").toList }
  resolveContainerForPid _ := if i = 0 then none else some { runtime := "docker".toList, id := "1".toList }
  resolveContainerChainForPid _ := []

theorem recycledOnce_steady : Steady recycledOnce := by
  have hmoment : ∀ i j pid, (recycledOnce i).startTimeForPid pid = (recycledOnce j).startTimeForPid pid →
      (i = 0 ↔ j = 0) := by
    intro i j pid h
    by_cases hi : i = 0 <;> by_cases hj : j = 0 <;> simp_all [recycledOnce]
  refine ⟨fun i j pid h => ?_, fun i j pid h => ?_, fun _ _ _ _ => rfl⟩
  · simp only [recycledOnce, hmoment i j pid h]
  · simp only [recycledOnce, hmoment i j pid h]

theorem recycledOnce_alone :
    attributeFlows (some recycledOnce) true [{}, {}, {}] =
        [{}, {}, {}].mapIdx (fun i c => attributeAlone (recycledOnce i) true c) ∧
      ∀ i c, attributeFlows (some fun _ => recycledOnce i) true [c] =
        [attributeAlone (recycledOnce i) true c] :=
  attributeFlows_eq_alone recycledOnce recycledOnce_steady true [{}, {}, {}]

end Qiftop.Backend
