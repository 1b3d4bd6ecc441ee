import Qiftop.Agent.IdleManager

/-!
# Agent — when a hint is refused

Both hint tables refuse a new sender when they hold `kMaxHints` entries.  Entries that have ended are
only pruned by an evaluation, and the size is tested before that, so an ended hint still takes up
room.  A refusal is justified when that many other senders hold live hints by the book.

`refusals_justified_iff`: in a run, every refusal is justified exactly when no well-formed hint of a
new sender meets a full table in which some hint has ended.
-/

namespace Qiftop.Agent
open Qt Lib Backend

/-! ### Attribution hints -/

namespace HintSystem

/-- A hint's return value is `false` for an empty sender and for a new one that meets a full table. -/
theorem setHint_refused_iff (m : AttributionHintManager) {sender : QString} (hs : sender ≠ [])
    (mode : AttributionEagerness) (now now' now'' : Int) :
    (m.setHint sender mode now now' now'').2.1 = false ↔
      Lease.admits kMaxHints m.hints sender = false := by
  rw [← AttributionHintManager.refuses_iff, AttributionHintManager.setHint, if_neg hs]
  by_cases hfull : sender ∉ m.hints ∧ m.hints.keys.length ≥ kMaxHints
  · simp [hfull]
  · rw [if_neg hfull]
    exact iff_of_false Bool.true_eq_false.mp hfull

/-- The calls of `calls` that bring a well-formed hint of a sender without an entry satisfy `P`, of
the state and the outputs before the call, the sender and the time of the call. -/
def EachNewSender (configMode : AttributionEagerness) (hintTtlMs : Int)
    (calls : List (HintCall × Waits))
    (P : AttributionHintManager → List HintOutput → QString → AttributionEagerness → Int → Int →
      Int → Prop) : Prop :=
  ∀ pre sender mode w post, calls = pre ++ (.setHint sender mode, w) :: post →
    let r := run step (create configMode hintTtlMs) pre
    sender ≠ [] → sender ∉ r.1.manager.hints →
      P r.1.manager r.2 sender mode (elapsedMs 0 (r.1.now + w.first))
        (elapsedMs 0 (r.1.now + w.first + w.second))
        (elapsedMs 0 (r.1.now + w.first + w.second + w.third))

/-- A hint is refused only when the table's maximum of other senders hold live hints. -/
def RefusalsJustified (configMode : AttributionEagerness) (hintTtlMs : Int)
    (calls : List (HintCall × Waits)) : Prop :=
  EachNewSender configMode hintTtlMs calls fun m outs sender mode now now' now'' =>
    (m.setHint sender mode now now' now'').2.1 = false →
      Lease.FullOfLive kMaxHints (Lease.book (history outs)) now sender

/-- A new sender that meets a full table meets no hint that has ended. -/
def NoneEnded (configMode : AttributionEagerness) (hintTtlMs : Int)
    (calls : List (HintCall × Waits)) : Prop :=
  EachNewSender configMode hintTtlMs calls fun m _ _ _ now _ _ =>
    m.hints.keys.length = kMaxHints → ∀ sender h, m.hints.lookup sender = some h →
      now < h.expiresAtMs

/-- The test and the book, at one call. -/
theorem justified_iff {configMode : AttributionEagerness} {s : HintSystem} {outs : List HintOutput}
    (h : Tracked configMode s outs) {sender : QString} (hs : sender ≠ [])
    (hnew : sender ∉ s.manager.hints) (mode : AttributionEagerness) (w : ℕ) (now' now'' : Int) :
    ((s.manager.setHint sender mode (elapsedMs 0 (s.now + w)) now' now'').2.1 = false →
        Lease.FullOfLive kMaxHints (Lease.book (history outs)) (elapsedMs 0 (s.now + w)) sender) ↔
      (s.manager.hints.keys.length = kMaxHints → ∀ sender h, s.manager.hints.lookup sender = some h →
        elapsedMs 0 (s.now + w) < h.expiresAtMs) := by
  rw [setHint_refused_iff _ hs]
  have hfollows := h.follows.mono (elapsedMs_mono 0 (Nat.le_add_right s.now w))
  exact Lease.refusal_justified_iff hfollows h.bounded hnew

theorem refusals_iff (configMode : AttributionEagerness) (hintTtlMs : Int)
    (calls : List (HintCall × Waits)) :
    RefusalsJustified configMode hintTtlMs calls ↔ NoneEnded configMode hintTtlMs calls := by
  refine forall_congr' fun pre => forall_congr' fun sender => forall_congr' fun mode =>
    forall_congr' fun w => forall_congr' fun post => forall_congr' fun _ =>
    forall_congr' fun hs => forall_congr' fun hnew => ?_
  exact justified_iff (run_tracked configMode hintTtlMs pre) hs hnew mode w.first _ _

end HintSystem

/-! ### Cadence hints -/

namespace IdleSystem

theorem setClientHint_refused_iff (m : IdleManager) {sender : QString} (hs : sender ≠ []) {ms : Int}
    (hms : 0 < ms) (now : Int) (t : ℕ) (now' : Int) :
    (m.setClientHint sender ms now t now').2.1 = false ↔
      Lease.admits kMaxHints m.hints sender = false := by
  rw [← IdleManager.refuses_iff, IdleManager.setClientHint, if_neg hs, if_neg (by omega)]
  by_cases hfull : sender ∉ m.hints ∧ m.hints.keys.length ≥ kMaxHints
  · simp [hfull]
  · rw [if_neg hfull]
    exact iff_of_false Bool.true_eq_false.mp hfull

/-- The calls of `calls` that bring a well-formed hint of a sender without an entry satisfy `P`. -/
def EachNewSender (cfg : IdleConfig) (w₀ : Waits) (calls : List (IdleCall × Waits))
    (P : IdleManager → List IdleOutput → QString → Int → ℕ → ℕ → ℕ → Prop) : Prop :=
  ∀ pre sender ms w post, calls = pre ++ (.setClientHint sender ms, w) :: post →
    let r := runFrom cfg w₀ pre
    sender ≠ [] → 0 < ms → sender ∉ r.1.manager.hints →
      P r.1.manager r.2 sender ms (r.1.now + w.first) (r.1.now + w.first + w.second)
        (r.1.now + w.first + w.second + w.third)

/-- A hint is refused only when the table's maximum of other senders hold live hints. -/
def RefusalsJustified (cfg : IdleConfig) (w₀ : Waits) (calls : List (IdleCall × Waits)) : Prop :=
  EachNewSender cfg w₀ calls fun m outs sender ms t t' t'' =>
    (m.setClientHint sender ms (elapsedMs 0 t) t' (elapsedMs 0 t'')).2.1 = false →
      Lease.FullOfLive kMaxHints (Lease.book (cadenceHistory outs)) (elapsedMs 0 t) sender

/-- A new sender that meets a full table meets no hint that has ended. -/
def NoneEnded (cfg : IdleConfig) (w₀ : Waits) (calls : List (IdleCall × Waits)) : Prop :=
  EachNewSender cfg w₀ calls fun m _ _ _ t _ _ =>
    m.hints.keys.length = kMaxHints → ∀ sender h, m.hints.lookup sender = some h →
      elapsedMs 0 t < h.expiresAtMs

/-- The test and the book, at one call. -/
theorem justified_iff {cfg : IdleConfig} {s : IdleSystem} {outs : List IdleOutput}
    (h : Tracked cfg s outs) {sender : QString} (hs : sender ≠ []) {ms : Int} (hms : 0 < ms)
    (hnew : sender ∉ s.manager.hints) (w t' : ℕ) (now' : Int) :
    ((s.manager.setClientHint sender ms (elapsedMs 0 (s.now + w)) t' now').2.1 = false →
        Lease.FullOfLive kMaxHints (Lease.book (cadenceHistory outs)) (elapsedMs 0 (s.now + w))
          sender) ↔
      (s.manager.hints.keys.length = kMaxHints → ∀ sender h, s.manager.hints.lookup sender = some h →
        elapsedMs 0 (s.now + w) < h.expiresAtMs) := by
  rw [setClientHint_refused_iff _ hs hms]
  have hfollows := h.follows.mono (elapsedMs_mono 0 (Nat.le_add_right s.now w))
  exact Lease.refusal_justified_iff hfollows h.bounded hnew

theorem refusals_iff (cfg : IdleConfig) (w₀ : Waits) (calls : List (IdleCall × Waits)) :
    RefusalsJustified cfg w₀ calls ↔ NoneEnded cfg w₀ calls := by
  refine forall_congr' fun pre => forall_congr' fun sender => forall_congr' fun ms =>
    forall_congr' fun w => forall_congr' fun post => forall_congr' fun _ =>
    forall_congr' fun hs => forall_congr' fun hms => forall_congr' fun hnew => ?_
  exact justified_iff (run_tracked cfg w₀ pre) hs hms hnew w.first _ _

end IdleSystem

/-! ### Both tables -/

/-- **When refusals are justified.**  For both managers and every run: every well-formed hint refused
to a new sender is refused because the table's maximum of other senders hold hints that have not
ended, exactly when no such sender meets a full table in which a hint has ended. -/
theorem refusals_justified_iff (configMode : AttributionEagerness) (hintTtlMs : Int)
    (hintCalls : List (HintCall × Waits)) (cfg : IdleConfig) (w₀ : Waits)
    (idleCalls : List (IdleCall × Waits)) :
    (HintSystem.RefusalsJustified configMode hintTtlMs hintCalls ↔
        HintSystem.NoneEnded configMode hintTtlMs hintCalls) ∧
      (IdleSystem.RefusalsJustified cfg w₀ idleCalls ↔ IdleSystem.NoneEnded cfg w₀ idleCalls) :=
  ⟨HintSystem.refusals_iff configMode hintTtlMs hintCalls, IdleSystem.refusals_iff cfg w₀ idleCalls⟩

/-! ### Refused by hints that have ended -/

/-- A table with room for one more sender admits it. -/
theorem admits_of_holds {V : Type} {t : Hash QString (Lease V)} {senders : List QString} {e : Int}
    (h : Lease.Holds t senders e) (hnd : senders.Nodup) (hlen : senders.length < kMaxHints)
    (sender : QString) : ¬ (sender ∉ t ∧ t.keys.length ≥ kMaxHints) := by
  rw [h.size hnd]
  omega

namespace HintSystem

/-- A hint set before the others end joins them. -/
theorem setHint_holds {m : AttributionHintManager} {senders : List QString} (now now' : Int)
    (h : Lease.Holds m.hints senders (now + m.hintTtlMs)) (hnd : senders.Nodup)
    (hlen : senders.length < kMaxHints) {sender : QString} (hs : sender ≠ [])
    (mode : AttributionEagerness) (hnow : now' < now + m.hintTtlMs) (now'' : Int) :
    (m.setHint sender mode now now' now'').1.hintTtlMs = m.hintTtlMs ∧
      Lease.Holds (m.setHint sender mode now now' now'').1.hints (senders ++ [sender])
        (now + m.hintTtlMs) := by
  rw [AttributionHintManager.setHint, if_neg hs, if_neg (admits_of_holds h hnd hlen sender)]
  unfold AttributionHintManager.evaluate
  dsimp only
  split <;> exact ⟨rfl, h.grant hnow sender mode⟩

/-- Hints set one after the other at the start are all held. -/
theorem run_setHints (senders : List QString) (hnd : senders.Nodup)
    (hne : ∀ sender ∈ senders, sender ≠ []) (hlen : senders.length ≤ kMaxHints) :
    let s := (run step (create .Balanced 10000)
      (senders.map fun sender => (.setHint sender .Eager, ({} : Waits)))).1
    s.now = 0 ∧ s.manager.hintTtlMs = 10000 ∧ Lease.Holds s.manager.hints senders 10000 := by
  induction senders using List.reverseRecOn with
  | nil => exact ⟨rfl, rfl, .empty _⟩
  | append_singleton senders sender ih =>
      rw [List.length_append, List.length_singleton] at hlen
      obtain ⟨hnd', -⟩ := List.nodup_append.mp hnd
      obtain ⟨hnow, httl, hholds⟩ :=
        ih hnd' (fun x hx => hne x (List.mem_append_left _ hx)) (by omega)
      rw [List.map_append, List.map_singleton, run_concat]
      generalize (run step (create .Balanced 10000) _).1 = s at hnow httl hholds ⊢
      obtain ⟨m, now⟩ := s
      dsimp only at hnow httl hholds
      subst hnow
      have hset := setHint_holds (elapsedMs 0 0) (elapsedMs 0 0) (by rw [httl]; exact hholds) hnd'
        (by omega) (hne sender (by simp)) .Eager (by rw [httl]; decide) (elapsedMs 0 0)
      rw [httl] at hset
      exact ⟨rfl, hset.1, hset.2⟩

end HintSystem

namespace IdleSystem

/-- A hint set before the others end joins them. -/
theorem setClientHint_holds {m : IdleManager} {senders : List QString} (now now' : Int)
    (h : Lease.Holds m.hints senders (now + m.cfg.hintTtlMs)) (hnd : senders.Nodup)
    (hlen : senders.length < kMaxHints) {sender : QString} (hs : sender ≠ []) (ms : Int)
    (hms : 0 < ms) (hnow : now' < now + m.cfg.hintTtlMs) (t : ℕ) :
    (m.setClientHint sender ms now t now').1.cfg = m.cfg ∧
      Lease.Holds (m.setClientHint sender ms now t now').1.hints (senders ++ [sender])
        (now + m.cfg.hintTtlMs) := by
  rw [IdleManager.setClientHint, if_neg hs, if_neg (by omega),
    if_neg (admits_of_holds h hnd hlen sender)]
  unfold IdleManager.evaluate
  dsimp only
  rw [(IdleManager.retarget_spec _ _).1]
  exact ⟨rfl, h.grant hnow sender _⟩

/-- Hints set one after the other at the start are all held. -/
theorem run_setClientHints (senders : List QString) (hnd : senders.Nodup)
    (hne : ∀ sender ∈ senders, sender ≠ []) (hlen : senders.length ≤ kMaxHints) :
    let s := (runFrom {} {} (senders.map fun sender => (.setClientHint sender 500, ({} : Waits)))).1
    s.now = 0 ∧ s.manager.cfg = {} ∧ Lease.Holds s.manager.hints senders 10000 := by
  induction senders using List.reverseRecOn with
  | nil => exact ⟨rfl, rfl, .empty _⟩
  | append_singleton senders sender ih =>
      rw [List.length_append, List.length_singleton] at hlen
      obtain ⟨hnd', -⟩ := List.nodup_append.mp hnd
      obtain ⟨hnow, hcfg, hholds⟩ :=
        ih hnd' (fun x hx => hne x (List.mem_append_left _ hx)) (by omega)
      rw [runFrom] at hnow hcfg hholds ⊢
      rw [List.map_append, List.map_singleton, run_concat]
      generalize (run step (create {} {}).1 _).1 = s at hnow hcfg hholds ⊢
      obtain ⟨m, now⟩ := s
      dsimp only at hnow hcfg hholds
      subst hnow
      have hset := setClientHint_holds (elapsedMs 0 0) (elapsedMs 0 0) (by rw [hcfg]; exact hholds)
        hnd' (by omega) (hne sender (by simp)) 500 (by decide) (by rw [hcfg]; decide) 0
      rw [hcfg] at hset
      exact ⟨rfl, hset.1, hset.2⟩

end IdleSystem

/-- The senders of a full table. -/
def sixtyFour : List QString := (List.range kMaxHints).map fun n => List.replicate (n + 1) 'a'

/-- 64 senders ask at the start; a further one asks 10 s later, when all of their hints have ended but
no timer has pruned them, and is refused. -/
theorem refused_by_ended_hints :
    ¬ HintSystem.RefusalsJustified .Balanced 10000
        (sixtyFour.map (fun sender => (.setHint sender .Eager, ({} : Waits))) ++
          [(.setHint "late".toList .Eager, { first := 10000000000 })]) ∧
      ¬ IdleSystem.RefusalsJustified {} {}
        (sixtyFour.map (fun sender => (.setClientHint sender 500, ({} : Waits))) ++
          [(.setClientHint "late".toList 500, { first := 10000000000 })]) := by
  have hnd : sixtyFour.Nodup := List.nodup_range.map fun i j hij => by
    simpa using congrArg List.length hij
  have hne : ∀ sender ∈ sixtyFour, sender ≠ [] := by simp [sixtyFour]
  have hlate : "late".toList ∉ sixtyFour := by simp [sixtyFour, List.replicate_succ]
  have hfirst : ['a'] ∈ sixtyFour := List.mem_map.mpr ⟨0, by decide, rfl⟩
  -- ten seconds later every lease has ended, and the table is still full
  constructor
  · rw [HintSystem.refusals_iff]
    intro h
    obtain ⟨hnow, -, hholds⟩ := HintSystem.run_setHints sixtyFour hnd hne (by decide)
    obtain ⟨l, hl⟩ := Hash.exists_lookup ((hholds.keys ['a']).mpr hfirst)
    have hlive := h _ _ _ _ [] rfl (by decide) (fun hk => hlate ((hholds.keys _).mp hk))
      (hholds.size hnd) ['a'] l hl
    rw [hholds.ends _ l hl, hnow] at hlive
    revert hlive
    decide
  · rw [IdleSystem.refusals_iff]
    intro h
    obtain ⟨hnow, -, hholds⟩ := IdleSystem.run_setClientHints sixtyFour hnd hne (by decide)
    obtain ⟨l, hl⟩ := Hash.exists_lookup ((hholds.keys ['a']).mpr hfirst)
    have hlive := h _ _ _ _ [] rfl (by decide) (by decide) (fun hk => hlate ((hholds.keys _).mp hk))
      (hholds.size hnd) ['a'] l hl
    rw [hholds.ends _ l hl, hnow] at hlive
    revert hlive
    decide

end Qiftop.Agent
