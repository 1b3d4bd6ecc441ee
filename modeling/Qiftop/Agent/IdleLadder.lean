import Qiftop.Agent.IdleManager

/-!
# Agent — the idle ladder

What a run of the idle manager shows to its monitors, for every configuration a file can give, and
when the ladder only ever slows down as the idle time grows.

The ladder tests the pause first, then the second slow step, then the first; the windows are taken as
the file has them.  Its one way to speed up is from the first slow step to the second: both are
reached, neither is cut off by the pause, and the second interval is shorter than the first
(`SpeedsUp`).
-/

namespace Qiftop.Agent
open Qt Lib

/-! ### The interval in a run -/

namespace IdleSystem

/-- After a choice of the interval, the interval in force is the ladder's at the idle time and the
hints of that moment. -/
theorem step_evaluated {cfg : IdleConfig} {s : IdleSystem} {outs : List IdleOutput}
    (h : Tracked cfg s outs) {c : IdleCall × Waits} {t : ℕ} {now : Int}
    (hmem : .evaluated t now ∈ (step s c).2) :
    ∃ active, ActiveInterval cfg (Lease.book (cadenceHistory (outs ++ (step s c).2))) now active ∧
      (step s c).1.manager.currentMs =
        cfg.ladder (elapsedMs (step s c).1.manager.since t) active := by
  have heff := step_effect h c
  generalize step s c = r at heff hmem ⊢
  obtain ⟨⟨m', now'⟩, outs'⟩ := r
  dsimp only at heff hmem ⊢
  cases heff with
  | quiet entries follows => simp at hmem
  | chooses entries hints bounded spec =>
      rw [List.mem_append] at hmem
      rcases hmem with hmem | hmem
      · simp at hmem
      · obtain ⟨rfl, rfl⟩ := spec.reading t now hmem
        obtain ⟨active, hactive, hcur⟩ := spec.current
        rw [cadenceHistory_append, cadenceHistory_append, (map_entered entries).1, spec.history,
          List.append_nil, Lease.book_append]
        have hcfg : s.manager.cfg = cfg := h.config
        subst hcfg
        exact ⟨active, hactive, hcur⟩

theorem evaluated_mem_evaluate (m : IdleManager) (t : ℕ) (now : Int) :
    .evaluated t now ∈ (m.evaluate t now).2 :=
  List.mem_append_right _ (List.mem_singleton_self _)

/-- The calls that are to choose an interval do. -/
theorem evaluated_mem_call {m : IdleManager} {c : IdleCall} (hc : c.Evaluates m) (t t' t'' : ℕ) :
    .evaluated t' (elapsedMs 0 t'') ∈ (call m c t t' t'').2 := by
  cases c with
  | noteActivity =>
      rw [call, IdleManager.noteActivity_eq]
      exact List.mem_cons_of_mem _ (evaluated_mem_evaluate _ _ _)
  | setClientHint sender ms =>
      obtain ⟨hsender, hroom⟩ := hc
      by_cases hms : ms ≤ 0
      · rw [if_pos hms] at hroom
        simp only [call, IdleManager.setClientHint, IdleManager.removeHint, if_neg hsender, if_pos hms,
          if_pos hroom]
        exact List.mem_append_right _ (evaluated_mem_evaluate _ _ _)
      · rw [if_neg hms] at hroom
        have hadmitted : ¬ (sender ∉ m.hints ∧ m.hints.keys.length ≥ kMaxHints) := fun hfull =>
          hroom.elim hfull.1 (not_lt.mpr hfull.2)
        simp only [call, IdleManager.setClientHint, if_neg hsender, if_neg hms, if_neg hadmitted]
        exact List.mem_append_right _ (evaluated_mem_evaluate _ _ _)
  | nameOwnerChanged name oldOwner newOwner =>
      obtain ⟨rfl, hold, hheld⟩ := hc
      simp only [call, IdleManager.onNameOwnerChanged, IdleManager.removeHint, ne_eq, not_true, if_false,
        if_neg hold, if_pos hheld]
      exact List.mem_append_right _ (evaluated_mem_evaluate _ _ _)
  | timeout => exact evaluated_mem_evaluate _ _ _

/-- **The applied interval.**  For every file and every run: each interval applied is `0` or at least
the floor, which is at least 10 ms; after each call that chooses, the interval in force is the ladder's for
the time since the last activity and the hints that have not ended; and no interval is applied twice in a
row. -/
theorem applied_interval (file : Option Ini) (w : Waits) (calls : List (IdleCall × Waits)) :
    let cfg := loadIdleConfig file
    let r := runFrom cfg w calls
    10 ≤ cfg.minIntervalMs ∧
    (∀ ms ∈ applied r.2, ms = 0 ∨ cfg.minIntervalMs ≤ ms) ∧
    (∀ c : IdleCall × Waits, c.1.Evaluates r.1.manager →
      let t := r.1.now + c.2.first + c.2.second
      let now := elapsedMs 0 (step r.1 c).1.now
      let outs := r.2 ++ (step r.1 c).2
      ∃ since active, (activity outs).getLast? = some since ∧
        ActiveInterval cfg (Lease.book (cadenceHistory outs)) now active ∧
        (step r.1 c).1.manager.currentMs = cfg.ladder (elapsedMs since t) active ∧
        (applied outs).getLast? = some (cfg.ladder (elapsedMs since t) active)) ∧
    (applied r.2).IsChain (· ≠ ·) := by
  intro cfg r
  have hrun : Tracked cfg r.1 r.2 := run_tracked cfg w calls
  refine ⟨(loadIdleConfig_valid file).minIntervalMs, hrun.floor, ?_, hrun.changes⟩
  intro c hc t now outs
  have hstep : Tracked cfg (step r.1 c).1 outs := step_tracked hrun c
  obtain ⟨active, hactive, hcur⟩ := step_evaluated hrun (evaluated_mem_call hc _ _ _)
  refine ⟨_, active, hstep.since, hactive, hcur, ?_⟩
  rw [hstep.last]
  exact congrArg some hcur

/-- Without a file, the timer pauses the monitors two minutes after the last activity, although a client has
asked for an interval. -/
theorem idle_agent_paused :
    let cfg := loadIdleConfig none
    let r := runFrom cfg {} [(.setClientHint ":1.5".toList 500, {})]
    (applied (r.2 ++ (step r.1 (.timeout, { first := 120000000000 })).2)).getLast? = some 0 := by
  intro cfg r
  obtain ⟨since, active, hsince, -, -, hlast⟩ := (applied_interval none {}
    [(.setClientHint ":1.5".toList 500, {})]).2.2.1 (.timeout, { first := 120000000000 }) trivial
  have hactivity : activity (r.2 ++ (step r.1 (.timeout, { first := 120000000000 })).2) = [0] := by
    decide +kernel
  have hzero : since = 0 := by
    rw [hactivity] at hsince
    exact (Option.some.inj hsince).symm
  rw [hlast, hzero, IdleConfig.ladder, if_pos (.inl (by decide +kernel))]

end IdleSystem

/-! ### Slowing down -/

/-- An interval `b` that is not shorter than `a`, where `0` is longer than any. -/
def NotShorter (a b : Int) : Prop := b = 0 ∨ (a ≠ 0 ∧ a ≤ b)

instance (a b : Int) : Decidable (NotShorter a b) := inferInstanceAs (Decidable (_ ∨ _))

/-- The ladder speeds up between its slow steps: both are reached before the pause, the second is
shorter than the first, and so is the active interval. -/
def SpeedsUp (cfg : IdleConfig) (hints : Hash QString CadenceHint) (now : Int) : Prop :=
  0 < cfg.activeWindowMs ∧ cfg.activeWindowMs < cfg.slow1WindowMs ∧
    (cfg.idleTimeoutMs = 0 ∨ cfg.slow1WindowMs < cfg.idleTimeoutMs) ∧
    (cfg.slow2WindowMs = 0 ∨ cfg.slow1WindowMs < cfg.slow2WindowMs) ∧
    cfg.slow2IntervalMs < cfg.slow1IntervalMs ∧ cfg.minIntervalMs < cfg.slow1IntervalMs ∧
    (cfg.activeIntervalMs < cfg.slow1IntervalMs ∨
      ∃ sender, ∃ h, hints.lookup sender = some h ∧ now < h.expiresAtMs ∧
        h.value < cfg.slow1IntervalMs)

namespace IdleManager

theorem evaluate_currentMs (m : IdleManager) (t : ℕ) (now : Int) :
    (m.evaluate t now).1.currentMs =
      m.cfg.ladder (elapsedMs m.since t) (m.effectiveActiveIntervalMs now).2 := by
  unfold evaluate
  dsimp only
  rw [(retarget_spec _ _).1]

/-- When the active interval is below a bound. -/
theorem active_lt_iff (m : IdleManager) (now bound : Int) :
    (m.effectiveActiveIntervalMs now).2 < bound ↔ m.cfg.minIntervalMs < bound ∧
      (m.cfg.activeIntervalMs < bound ∨ ∃ sender, ∃ h, m.hints.lookup sender = some h ∧
        now < h.expiresAtMs ∧ h.value < bound) := by
  obtain ⟨hmem, hlow⟩ := foldl_min_isLeast (Lease.prune now m.hints).values m.cfg.activeIntervalMs
  simp only [effectiveActiveIntervalMs, max_lt_iff]
  rw [and_comm]
  refine and_congr_right fun _ => ⟨fun hlt => ?_, ?_⟩
  · rcases hmem with he | ⟨h, hh, he⟩
    · exact .inl (he ▸ hlt)
    · obtain ⟨sender, hl⟩ := Hash.mem_values_iff.mp hh
      obtain ⟨hl, hlive⟩ := Lease.lookup_prune.mp hl
      exact .inr ⟨sender, h, hl, hlive, he ▸ hlt⟩
  · rintro (hlt | ⟨sender, h, hl, hlive, hlt⟩)
    · exact (hlow (.inl rfl)).trans_lt hlt
    · refine (hlow (.inr ⟨h, ?_, rfl⟩)).trans_lt hlt
      exact Hash.mem_values_iff.mpr ⟨sender, Lease.lookup_prune.mpr ⟨hl, hlive⟩⟩

end IdleManager

/-- The steps of the ladder, for a configuration within its bounds and a positive active interval. -/
theorem IdleConfig.ladder_notShorter_iff {cfg : IdleConfig} (h : cfg.Valid) {active : Int}
    (ha : 0 < active) :
    (∀ e e' : Int, 0 ≤ e → e ≤ e' → NotShorter (cfg.ladder e active) (cfg.ladder e' active)) ↔
      ¬ (0 < cfg.activeWindowMs ∧ cfg.activeWindowMs < cfg.slow1WindowMs ∧
        (cfg.idleTimeoutMs = 0 ∨ cfg.slow1WindowMs < cfg.idleTimeoutMs) ∧
        (cfg.slow2WindowMs = 0 ∨ cfg.slow1WindowMs < cfg.slow2WindowMs) ∧
        cfg.slow2IntervalMs < cfg.slow1IntervalMs ∧ active < cfg.slow1IntervalMs) := by
  obtain ⟨-, -, -, hslow2, hidle, -⟩ := h
  constructor
  · rintro hmono ⟨hw, hws, hi, hs, hlt, hactive⟩
    -- at the first window the first slow step, at the second window the shorter one
    have h1 : cfg.ladder cfg.activeWindowMs active = max cfg.slow1IntervalMs active := by
      rw [ladder, if_neg (by omega), if_neg (by omega), if_pos (by omega)]
    have h2 : cfg.ladder cfg.slow1WindowMs active = max cfg.slow2IntervalMs active := by
      rw [ladder, if_neg (by omega), if_pos (by omega)]
    have := hmono cfg.activeWindowMs cfg.slow1WindowMs (by omega) (by omega)
    rw [h1, h2, NotShorter] at this
    omega
  · intro hcond e e' he hle
    unfold ladder NotShorter
    split_ifs <;> omega

/-- **When the ladder slows down monotonically.**  For every file, every table of hints and every
moment: the interval chosen after a longer idle time is never shorter, exactly when the schedule does
not speed up between its slow steps. -/
theorem ladder_slows_iff (file : Option Ini) (hints : Hash QString CadenceHint) (since : ℕ)
    (currentMs now : Int) :
    let m : IdleManager := { cfg := loadIdleConfig file, since, currentMs, hints }
    (∀ t t' : ℕ, t ≤ t' →
      NotShorter (m.evaluate t now).1.currentMs (m.evaluate t' now).1.currentMs) ↔
      ¬ SpeedsUp (loadIdleConfig file) hints now := by
  intro m
  have hvalid := loadIdleConfig_valid file
  have hpos : 0 < (m.effectiveActiveIntervalMs now).2 :=
    lt_of_lt_of_le (lt_of_lt_of_le (by decide) hvalid.minIntervalMs) (le_max_right _ _)
  have hiff := IdleConfig.ladder_notShorter_iff hvalid hpos
  have hactive := m.active_lt_iff now (loadIdleConfig file).slow1IntervalMs
  rw [hactive] at hiff
  rw [SpeedsUp, ← hiff]
  constructor
  · intro hmono e e' he hle
    obtain ⟨k, rfl⟩ := Int.eq_ofNat_of_zero_le he
    obtain ⟨k', rfl⟩ := Int.eq_ofNat_of_zero_le (he.trans hle)
    have hms : ∀ k : ℕ, elapsedMs m.since (m.since + k * 1000000) = k := by
      intro k
      simp [elapsedMs]
    have := hmono (m.since + k * 1000000) (m.since + k' * 1000000) (by omega)
    rwa [m.evaluate_currentMs, m.evaluate_currentMs, hms, hms] at this
  · intro hmono t t' hle
    rw [m.evaluate_currentMs, m.evaluate_currentMs]
    exact hmono _ _ (Int.natCast_nonneg _) (elapsedMs_mono _ hle)

/-- A file that gives a schedule and nothing else. -/
def scheduleFile (pairs : List String) : Ini := fun key =>
  if key = "idle/schedule" then some { toStringList := pairs.map String.toList } else none

/-- With the schedule `30:5000,45:2000,60:0` the agent polls every 5 s after half a minute of
idleness, and every 2 s after three quarters of a minute. -/
theorem schedule_speeds_up :
    let m : IdleManager :=
      { cfg := loadIdleConfig (some (scheduleFile ["30:5000", "45:2000", "60:0"])), since := 0 }
    ¬ NotShorter (m.evaluate 30000000000 0).1.currentMs (m.evaluate 45000000000 0).1.currentMs := by
  decide +kernel

end Qiftop.Agent
