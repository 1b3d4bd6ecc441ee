import Qiftop.Agent.Convergence
import Qiftop.Lib.Run

/-!
# Agent — the service's copy of a snapshot

The connections service keeps each snapshot three times: as the rows it sent, as connections, and as
an index from flow to row.  A poll replaces all three; a refinement, computed from some older
snapshot, patches a row of the first two.  Whatever the refinements are and whenever they arrive, the
three stay one (`Mirrored`), and a refinement only fills in attributions (`FilledIn`).
-/

namespace Qiftop.Agent
open Qt Lib Backend Heuristics Dbus

/-- A poll of the monitor, or a batch of refinements. -/
inductive ServiceEvent where
  | connectionsUpdated (host : HostContext) (w : Wiring) (nowMs : UInt64) (conns : List Connection)
  | deepRefined (updates : List DeepAttributionUpdate)

/-- What a refinement makes of a row: the flow is the same, and what was attributed stays. -/
structure FilledIn (c c' : Connection) : Prop where
  flow : c' = { c with
    process := c'.process, reason := c'.reason, container := c'.container
    containerChain := c'.containerChain }
  process : c.process.valid = true → c'.process = c.process
  container : c.container.valid = true → c'.container = c.container
  chain : c.containerChain ≠ [] → c'.containerChain = c.containerChain

/-- **The copies are one**: the rows are the connections' rows, and the index is theirs. -/
structure Mirrored (svc : ConnectionsService) : Prop where
  rows : svc.last = svc.lastConns.map toDto
  capped : svc.lastConns.length ≤ kMaxConnections
  index : svc.keyIndex = Hash.positions keyOf svc.lastConns

/-- The reason says whether there is a process. -/
def ReasonTold (c : Connection) : Prop := c.reason = .Resolved ↔ c.process.valid = true

/-- An update that brings a process brings its reason. -/
def UpdateOk (u : DeepAttributionUpdate) : Prop := u.process.valid = true → u.reason = .Resolved

namespace FilledIn

theorem refl (c : Connection) : FilledIn c c where
  flow := rfl
  process _ := rfl
  container _ := rfl
  chain _ := rfl

theorem trans {a b c : Connection} (h : FilledIn a b) (h' : FilledIn b c) : FilledIn a c where
  flow := by
    rw [h'.flow, h.flow]
  process hv := by
    have e := h.process hv
    rw [h'.process (e ▸ hv), e]
  container hv := by
    have e := h.container hv
    rw [h'.container (e ▸ hv), e]
  chain hv := by
    have e := h.chain hv
    rw [h'.chain (e ▸ hv), e]

end FilledIn

namespace ConnectionsService

def step (S : StdSort) (svc : ConnectionsService) : ServiceEvent →
    ConnectionsService × List ConnectionDto
  | .connectionsUpdated host w nowMs conns =>
      let r := svc.onConnectionsUpdated S host w nowMs conns
      (r.1, r.2.1)
  | .deepRefined updates => svc.onDeepRefined updates

/-! ### One refinement -/

theorem refine_filledIn (u : DeepAttributionUpdate) (c : Connection) : FilledIn c (refine u c) := by
  rw [refine_eq]
  refine ⟨rfl, fun hv => ?_, fun hv => ?_, fun hv => ?_⟩
  · exact if_neg (by simp [hv])
  · exact if_neg (by simp [hv])
  · exact if_neg (by simp [hv])

theorem refine_reasonTold {u : DeepAttributionUpdate} (hu : UpdateOk u) {c : Connection}
    (h : ReasonTold c) : ReasonTold (refine u c) := by
  rw [ReasonTold, refine_eq]
  dsimp only
  by_cases hp : u.process.valid ∧ !c.process.valid
  · rw [if_pos hp, if_pos hp]
    exact iff_of_true (hu hp.1) hp.1
  · rw [if_neg hp, if_neg hp]
    exact h

/-- A refinement's step: nothing, or one row replaced in both copies. -/
theorem refineStep_cases (st : ConnectionsService × List ConnectionDto) (u : DeepAttributionUpdate) :
    (refineStep st u).1 = st.1 ∨
      ∃ i c, st.1.lastConns[i]? = some c ∧
        (refineStep st u).1 = { st.1 with
          lastConns := st.1.lastConns.set i (refine u c)
          last := st.1.last.set i (toDto (refine u c)) } := by
  unfold refineStep
  split
  · exact .inl rfl
  · next i _ =>
      split
      · exact .inl rfl
      · next c hc =>
          split
          · exact .inr ⟨i, c, hc, rfl⟩
          · exact .inl rfl

/-- What one refinement keeps, a batch keeps. -/
theorem onDeepRefined_induction (I : ConnectionsService → Prop) {updates : List DeepAttributionUpdate}
    (hstep : ∀ svc i c, ∀ u ∈ updates, I svc → svc.lastConns[i]? = some c →
      I { svc with
        lastConns := svc.lastConns.set i (refine u c), last := svc.last.set i (toDto (refine u c)) })
    {svc : ConnectionsService} (h : I svc) : I (svc.onDeepRefined updates).1 := by
  unfold onDeepRefined
  suffices hfold : ∀ st : ConnectionsService × List ConnectionDto, I st.1 →
      I (updates.foldl refineStep st).1 from hfold (svc, []) h
  induction updates with
  | nil => exact fun st hst => hst
  | cons u updates ih =>
      intro st hst
      refine ih (fun svc i c u' hu' => hstep svc i c u' (List.mem_cons_of_mem _ hu')) _ ?_
      rcases refineStep_cases st u with e | ⟨i, c, hc, e⟩
      · rw [e]
        exact hst
      · rw [e]
        exact hstep st.1 i c u List.mem_cons_self hst hc

/-! ### One event -/

theorem length_snapshot_le (S : StdSort) (host : HostContext) (w : Wiring) (conns : List Connection) :
    (snapshot S host w conns).length ≤ kMaxConnections := by
  have hcap : (capped S conns).length ≤ kMaxConnections := by
    unfold capped
    split
    · exact List.length_take_le _ _
    · omega
  simpa [snapshot, length_attributeFlows] using hcap

theorem snapshot_reasonTold {S : StdSort} {host : HostContext} {w : Wiring} {conns : List Connection}
    {c : Connection} (hc : c ∈ snapshot S host w conns) : ReasonTold c := by
  obtain ⟨c, -, rfl⟩ := List.mem_map.mp hc
  simp only [ReasonTold, ProcessInfo.valid, decide_eq_true_eq]
  exact attributionReason_eq_resolved_iff c host.localAddrs host.loopbackAddrs

/-- The copies stay one through a refined row. -/
theorem Mirrored.set {svc : ConnectionsService} (h : Mirrored svc) {i : ℕ} {c : Connection}
    (hc : svc.lastConns[i]? = some c) (u : DeepAttributionUpdate) :
    Mirrored { svc with
      lastConns := svc.lastConns.set i (refine u c), last := svc.last.set i (toDto (refine u c)) } where
  rows := by
    dsimp only
    rw [h.rows, List.map_set]
  capped := by
    rw [List.length_set]
    exact h.capped
  index := h.index.trans (Hash.positions_congr (map_set_of_eq hc (keyOf_refine u c)).symm)

theorem step_mirrored (S : StdSort) {svc : ConnectionsService} (h : Mirrored svc) (e : ServiceEvent) :
    Mirrored (step S svc e).1 := by
  cases e with
  | connectionsUpdated host w nowMs conns =>
      exact ⟨rfl, length_snapshot_le S host w conns, rfl⟩
  | deepRefined updates =>
      exact onDeepRefined_induction Mirrored (fun svc i c u _ h hc => Mirrored.set h hc u) h

/-- A batch of refinements only fills in attributions, row by row. -/
theorem onDeepRefined_filledIn (svc : ConnectionsService) (updates : List DeepAttributionUpdate) :
    List.Forall₂ FilledIn svc.lastConns (svc.onDeepRefined updates).1.lastConns := by
  refine onDeepRefined_induction (fun svc' => List.Forall₂ FilledIn svc.lastConns svc'.lastConns)
    (fun svc' i c u _ h hc => ?_) (List.forall₂_same.mpr fun c _ => .refl c)
  obtain ⟨hlen, hrow⟩ := List.forall₂_iff_get.mp h
  refine List.forall₂_iff_get.mpr ⟨by rw [List.length_set]; exact hlen, fun j hj hj' => ?_⟩
  have hj'' : j < svc'.lastConns.length := hlen ▸ hj
  rw [List.get_eq_getElem, List.get_eq_getElem, List.getElem_set]
  have hj₀ := hrow j hj hj''
  rw [List.get_eq_getElem, List.get_eq_getElem] at hj₀
  split
  · next e =>
      subst e
      obtain ⟨-, rfl⟩ := List.getElem?_eq_some_iff.mp hc
      exact hj₀.trans (refine_filledIn u _)
  · exact hj₀

/-- The reasons tell of the processes, through an event whose updates do. -/
theorem step_reasonTold (S : StdSort) {svc : ConnectionsService}
    (h : ∀ c ∈ svc.lastConns, ReasonTold c) {e : ServiceEvent}
    (he : ∀ updates, e = .deepRefined updates → ∀ u ∈ updates, UpdateOk u) :
    ∀ c ∈ (step S svc e).1.lastConns, ReasonTold c := by
  cases e with
  | connectionsUpdated host w nowMs conns => exact fun c hc => snapshot_reasonTold hc
  | deepRefined updates =>
      refine onDeepRefined_induction (fun svc => ∀ c ∈ svc.lastConns, ReasonTold c)
        (fun svc i c u hu h hc d hd => ?_) h
      rcases List.mem_or_eq_of_mem_set hd with hd | rfl
      · exact h d hd
      · exact refine_reasonTold (he updates rfl u hu) (h c (List.mem_of_getElem? hc))

/-! ### Runs -/

theorem run_mirrored (S : StdSort) (events : List ServiceEvent) :
    Mirrored (run (step S) {} events).1 :=
  run_invariant Mirrored (fun _ e h => step_mirrored S h e) ⟨rfl, Nat.zero_le _, rfl⟩ events

theorem run_reasonTold (S : StdSort) (events : List ServiceEvent) {svc : ConnectionsService}
    (h : ∀ c ∈ svc.lastConns, ReasonTold c)
    (hev : ∀ updates, .deepRefined updates ∈ events → ∀ u ∈ updates, UpdateOk u) :
    ∀ c ∈ (run (step S) svc events).1.lastConns, ReasonTold c := by
  induction events generalizing svc with
  | nil => exact h
  | cons e events ih =>
      refine ih (step_reasonTold S h fun updates he => ?_) fun updates hmem =>
        hev updates (List.mem_cons_of_mem _ hmem)
      exact hev updates (he ▸ List.mem_cons_self)

/-- **The mirror invariant.**  After every run of polls and refinements the rows are the rows of the
connections, in order and at most 4096; every entry of the index points to a row of its flow, and
every flow has an entry; a further batch of refinements changes nothing of a row but its attribution
and nothing that is attributed; and if the updates that brought a process brought its reason, a row's
reason is `Resolved` exactly when it has a process. -/
theorem service_mirrors (S : StdSort) (events : List ServiceEvent) :
    let svc := (run (step S) {} events).1
    (svc.last = svc.lastConns.map toDto ∧ svc.last.length ≤ 4096) ∧
    ((∀ k i, svc.keyIndex.lookup k = some i → ∃ c, svc.lastConns[i]? = some c ∧ keyOf c = k) ∧
      ∀ c ∈ svc.lastConns, keyOf c ∈ svc.keyIndex) ∧
    (∀ updates, List.Forall₂ FilledIn svc.lastConns (svc.onDeepRefined updates).1.lastConns) ∧
    ((∀ updates, .deepRefined updates ∈ events → ∀ u ∈ updates, UpdateOk u) →
      ∀ c ∈ svc.lastConns, c.reason = .Resolved ↔ c.process.valid = true) := by
  intro svc
  have h : Mirrored svc := run_mirrored S events
  refine ⟨⟨h.rows, ?_⟩, ⟨fun k i hk => ?_, fun c hc => ?_⟩, svc.onDeepRefined_filledIn, fun hev => ?_⟩
  · rw [h.rows, List.length_map]
    exact h.capped
  · rw [h.index] at hk
    exact Hash.lookup_positions_some hk
  · rw [h.index, Hash.mem_positions]
    exact List.mem_map_of_mem hc
  · exact run_reasonTold S events (fun c hc => by cases hc) hev

end ConnectionsService

end Qiftop.Agent
