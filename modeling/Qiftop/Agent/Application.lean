import Qiftop.Agent.AttributionHintManager
import Qiftop.Agent.Config
import Qiftop.Backend.ProcessResolverFactory
import Qiftop.Backend.ResolverDeepWorker

/-!
# Agent — the tuning in force

`agent/main.cpp`, `Application::start` and `ConnectionsService::onEffectiveEagernessChanged`: the
agent builds its resolver from the configuration's tuning, overrides included, and starts the deep
worker with the preset of the configured mode.  Whenever the hints' effective mode changes, resolver
and worker are retuned to the preset of the new mode, without the overrides.

So what is in force is the preset of the mode in effect, or still what the agent was started with
(`Tuned`); the two agree for the configured mode exactly when no layer that is built has an override
of its own (`VoidOverrides`).
-/

namespace Qiftop.Agent
open Qt Lib Backend

/-- What the agent tunes, and the hints that make it. -/
structure Application where
  hints : HintSystem
  resolver : CompositeResolver
  deepWorker : Option ResolverDeepWorker

namespace Application

section Model
variable (S : StdSort) (probe : ResolverLayer → Bool) (file : Option Ini)

/-- The agent once it has started. -/
def start : Application :=
  let cfg := loadAttributionConfig file
  let resolver := createProcessResolver probe cfg
  { hints := .create cfg.eagerness (loadIdleConfig file).hintTtlMs
    resolver
    deepWorker :=
      if "process-attribution".toList ∈ resolver.capabilities then
        some ((({} : ResolverDeepWorker).setTuning S (resolverTuningFor cfg.eagerness)).setActive
          (cfg.eagerness ≠ .Off))
      else none }

def onEffectiveEagernessChanged (app : Application) (mode : AttributionEagerness) : Application :=
  { app with
    resolver := app.resolver.setTuning (resolverTuningFor mode)
    deepWorker := app.deepWorker.map fun w =>
      (w.setTuning S (resolverTuningFor mode)).setActive (mode ≠ .Off) }

/-- A call of the hint manager and what its signals bring about. -/
def step (app : Application) (c : HintCall × Waits) : Application × List HintOutput :=
  let r := app.hints.step c
  ((announced r.2).foldl (onEffectiveEagernessChanged S) { app with hints := r.1 }, r.2)

end Model

/-- The mode in effect, as last evaluated. -/
def mode (app : Application) : AttributionEagerness := app.hints.manager.lastEmitted

/-- What resolver and worker hold. -/
def tuning (app : Application) : CompositeResolver × Option DeepBudgets :=
  (app.resolver, app.deepWorker.map ResolverDeepWorker.budgets)

/-! ### What is in force -/

section Tuned
variable {S : StdSort} {probe : ResolverLayer → Bool} {file : Option Ini} {app : Application}
  {outs : List HintOutput}

/-- The budgets of a mode's preset. -/
def budgetsFor (S : StdSort) (mode : AttributionEagerness) : DeepBudgets :=
  (({} : ResolverDeepWorker).setTuning S (resolverTuningFor mode)).budgets

/-- **The invariant**: resolver and worker hold the preset of the mode in effect, or that mode is the
configured one and the resolver holds what it was built with; without a hint the mode is the
configured one. -/
structure Tuned (S : StdSort) (probe : ResolverLayer → Bool) (file : Option Ini) (app : Application)
    (outs : List HintOutput) : Prop where
  tracked : Tracked (loadAttributionConfig file).eagerness app.hints outs
  unhinted : app.hints.manager.hints.keys = [] → app.mode = (loadAttributionConfig file).eagerness
  resolver : app.resolver = (start S probe file).resolver.setTuning (resolverTuningFor app.mode) ∨
    app.resolver = (start S probe file).resolver ∧ app.mode = (loadAttributionConfig file).eagerness
  worker : app.deepWorker.map ResolverDeepWorker.budgets =
    (start S probe file).deepWorker.map fun _ => budgetsFor S app.mode

theorem step_hints (S : StdSort) (app : Application) (c : HintCall × Waits) :
    (step S app c).1.hints = (app.hints.step c).1 := by
  have hfold : ∀ (modes : List AttributionEagerness) (app : Application),
      (modes.foldl (onEffectiveEagernessChanged S) app).hints = app.hints := by
    intro modes
    induction modes with
    | nil => exact fun _ => rfl
    | cons m modes ih => exact fun app => ih _
  exact hfold _ _

theorem start_tuned : Tuned S probe file (start S probe file) [] where
  tracked := HintSystem.create_tracked _ _
  unhinted _ := rfl
  resolver := .inr ⟨rfl, rfl⟩
  worker := by
    have hmode : (start S probe file).mode = (loadAttributionConfig file).eagerness := rfl
    rw [hmode, start]
    dsimp only
    split
    · simp [budgetsFor]
    · rfl

/-- A new mode retunes both. -/
theorem onEffectiveEagernessChanged_tuned {mode : AttributionEagerness}
    (h : Tuned S probe file app outs) :
    (app.onEffectiveEagernessChanged S mode).resolver =
        (start S probe file).resolver.setTuning (resolverTuningFor mode) ∧
      (app.onEffectiveEagernessChanged S mode).deepWorker.map ResolverDeepWorker.budgets =
        (start S probe file).deepWorker.map fun _ => budgetsFor S mode := by
  constructor
  · rcases h.resolver with hr | ⟨hr, -⟩
    · simp only [onEffectiveEagernessChanged, hr, setTuning_setTuning]
    · simp only [onEffectiveEagernessChanged, hr]
  · have hworker := h.worker
    unfold onEffectiveEagernessChanged
    dsimp only
    -- there is a worker now exactly if there was one at the start
    cases hw : app.deepWorker with
    | none =>
        cases hw' : (start S probe file).deepWorker with
        | none => rfl
        | some w' =>
            rw [hw, hw'] at hworker
            cases hworker
    | some w =>
        cases hw' : (start S probe file).deepWorker with
        | none =>
            rw [hw, hw'] at hworker
            cases hworker
        | some w' =>
            simp only [Option.map_some, ResolverDeepWorker.budgets_setActive, budgetsFor]
            rw [ResolverDeepWorker.budgets_setTuning S w {}]

theorem step_tuned (h : Tuned S probe file app outs) (c : HintCall × Waits) :
    Tuned S probe file (step S app c).1 (outs ++ (step S app c).2) := by
  have htracked := HintSystem.step_tracked h.tracked c
  have hunhinted := HintSystem.step_unhinted h.tracked h.unhinted c
  have hann := HintSystem.step_announced h.tracked c
  unfold step
  dsimp only
  rw [hann]
  split
  · next hsame =>
      have hmode : ({ app with hints := (app.hints.step c).1 } : Application).mode = app.mode := hsame
      refine ⟨htracked, hunhinted, ?_, ?_⟩
      · rw [List.foldl_nil, hmode]
        exact h.resolver
      · rw [List.foldl_nil, hmode]
        exact h.worker
  · -- the hints' signal does not reach back into the manager
    obtain ⟨hresolver, hworker⟩ := onEffectiveEagernessChanged_tuned h
    exact ⟨htracked, hunhinted, .inl hresolver, hworker⟩

theorem run_tuned (calls : List (HintCall × Waits)) :
    Tuned S probe file (run (step S) (start S probe file) calls).1
      (run (step S) (start S probe file) calls).2 :=
  run_trace_invariant (Tuned S probe file) (fun _ _ e h => step_tuned h e) [] start_tuned calls

end Tuned

/-! ### Overrides -/

/-- The override of the file for a layer's interval, `0` for none. -/
def overrideMs (file : Option Ini) (layer : ResolverLayer) : Int :=
  layer.overrideMs (file.elim 0 cacheOverrideMs) (file.elim 0 netnsOverrideMs)

/-- No layer that is built has an override other than its preset's own interval. -/
def VoidOverrides (probe : ResolverLayer → Bool) (file : Option Ini) : Prop :=
  let cfg := loadAttributionConfig file
  ∀ layer ∈ layersFor probe cfg, overrideMs file layer = 0 ∨
    overrideMs file layer = layer.intervalMs (resolverTuningFor cfg.eagerness)

/-- The interval a layer starts with: the override if there is one. -/
theorem intervalMs_loaded {file : Option Ini} (h : (loadAttributionConfig file).eagerness ≠ .Off)
    (layer : ResolverLayer) :
    layer.intervalMs (loadAttributionConfig file).tuning =
      if overrideMs file layer = 0 then
        layer.intervalMs (resolverTuningFor (loadAttributionConfig file).eagerness)
      else overrideMs file layer := by
  rw [loadAttributionConfig_tuning]
  refine intervalMs_resolverTuningFor h ?_ ?_ layer
  · cases file with
    | none => exact .inl rfl
    | some ini => exact readAttributionOverrideMs_range ini _ _ _
  · cases file with
    | none => exact .inl rfl
    | some ini => exact readAttributionOverrideMs_range ini _ _ _

/-- Retuned to the configured mode's preset, the resolver is as it was built exactly when the
overrides are void. -/
theorem setTuning_config_iff (S : StdSort) (probe : ResolverLayer → Bool) (file : Option Ini) :
    (start S probe file).resolver.setTuning
        (resolverTuningFor (loadAttributionConfig file).eagerness) = (start S probe file).resolver ↔
      VoidOverrides probe file := by
  have hstart : (start S probe file).resolver =
      createProcessResolver probe (loadAttributionConfig file) := rfl
  rw [hstart, setTuning_createProcessResolver, createProcessResolver, VoidOverrides]
  by_cases hoff : (loadAttributionConfig file).eagerness = .Off
  · simp [layersFor_off hoff]
  · rw [List.map_inj_left]
    refine forall₂_congr fun layer _ => ?_
    simp only [TunedLayer.create, TunedLayer.mk.injEq, true_and, intervalMs_loaded hoff]
    split
    · next hzero => simp [hzero]
    · next hzero => simp [hzero, eq_comm]

/-! ### Hints and the administrator's tuning -/

/-- **Hints respect the tuning the agent was started with.**  In every run: whenever no hint is left,
or none is live at an evaluation, resolver and worker hold what they were started with; and over a
stretch in which the mode in effect is `Off` no layer's interval has become shorter than it was
before the stretch. -/
structure RespectsTuning (S : StdSort) (probe : ResolverLayer → Bool) (file : Option Ini) : Prop where
  unhinted : ∀ calls, let app := (run (step S) (start S probe file) calls).1
    app.hints.manager.hints.keys = [] → app.tuning = (start S probe file).tuning
  evaluated : ∀ calls c now, let r := run (step S) (start S probe file) calls
    .evaluated now ∈ (step S r.1 c).2 →
      (∀ sender h, ¬ Lease.LiveAt (Lease.book (history (r.2 ++ (step S r.1 c).2))) now sender h) →
      (step S r.1 c).1.tuning = (start S probe file).tuning
  quiesced : ∀ pre post,
    (∀ p, p <+: post → p ≠ [] → (run (step S) (start S probe file) (pre ++ p)).1.mode = .Off) →
      List.Forall₂ (fun l l' => l.layer = l'.layer ∧ l.intervalMs ≤ l'.intervalMs)
        (run (step S) (start S probe file) pre).1.resolver
        (run (step S) (start S probe file) (pre ++ post)).1.resolver

section Respects
variable {S : StdSort} {probe : ResolverLayer → Bool} {file : Option Ini}

/-- With void overrides every state holds the preset of its mode. -/
theorem Tuned.resolver_eq {app : Application} {outs : List HintOutput}
    (h : Tuned S probe file app outs) (hvoid : VoidOverrides probe file) :
    app.resolver = (start S probe file).resolver.setTuning (resolverTuningFor app.mode) := by
  rcases h.resolver with hr | ⟨hr, hmode⟩
  · exact hr
  · rw [hr, hmode]
    exact ((setTuning_config_iff S probe file).2 hvoid).symm

theorem Tuned.tuning_eq {app : Application} {outs : List HintOutput}
    (h : Tuned S probe file app outs) (hvoid : VoidOverrides probe file)
    (hmode : app.mode = (loadAttributionConfig file).eagerness) :
    app.tuning = (start S probe file).tuning := by
  have hresolver := h.resolver_eq hvoid
  have hworker := h.worker
  have hstart := (start_tuned : Tuned S probe file (start S probe file) []).worker
  rw [hmode, (setTuning_config_iff S probe file).2 hvoid] at hresolver
  rw [hmode] at hworker
  exact Prod.ext hresolver (hworker.trans hstart.symm)

theorem respectsTuning_of_void (hvoid : VoidOverrides probe file) : RespectsTuning S probe file where
  unhinted calls hempty :=
    (run_tuned calls).tuning_eq hvoid ((run_tuned calls).unhinted hempty)
  evaluated calls c now hnow hnone := by
    have hrun : Tuned S probe file _ _ := run_tuned calls
    have hstep := step_tuned hrun c
    refine hstep.tuning_eq hvoid ?_
    obtain ⟨hend, hlast⟩ := HintSystem.step_evaluated hrun.tracked hnow
    have heff := AttributionHintManager.effectiveMode_spec hstep.tracked.follows
    -- the remembered mode is the effective one, and that is the configured one without a live hint
    rw [step_hints, ← hend, ← hlast, ← step_hints S, hstep.tracked.config] at heff
    exact heff.eq_config hnone
  quiesced pre post hoff := by
    rcases List.eq_nil_or_concat post with rfl | ⟨post, c, rfl⟩
    · rw [List.append_nil]
      exact List.forall₂_same.mpr fun _ _ => ⟨rfl, le_rfl⟩
    · -- no preset is slower than that of `Off`, whatever the mode was before
      have hlast := hoff _ (List.prefix_refl _) (by simp)
      rw [(run_tuned pre).resolver_eq hvoid, (run_tuned (pre ++ _)).resolver_eq hvoid, hlast]
      refine List.forall₂_map_left_iff.mpr (List.forall₂_map_right_iff.mpr ?_)
      exact List.forall₂_same.mpr fun l _ => ⟨rfl, intervalMs_le_off l.layer _⟩

end Respects

/-! ### A hint that comes and goes -/

/-- A hint for `Off`, where there is no other. -/
def loneHint (hintTtlMs : Int) : Hint := ⟨.Off, 0 + max 1 hintTtlMs⟩

theorem loneHint_live (hintTtlMs : Int) : 0 < (loneHint hintTtlMs).expiresAtMs := by
  show 0 < 0 + max 1 hintTtlMs
  omega

/-- The manager with the hint, before it is evaluated. -/
def hinted (configMode : AttributionEagerness) (hintTtlMs : Int) (sender : QString) :
    AttributionHintManager :=
  { AttributionHintManager.create configMode hintTtlMs with
    hints := (∅ : Hash QString Hint).insert sender (loneHint hintTtlMs) }

theorem step_setHint (configMode : AttributionEagerness) (hintTtlMs : Int) {sender : QString}
    (hs : sender ≠ []) :
    ((HintSystem.create configMode hintTtlMs).step (.setHint sender .Off, {})).1 =
      ⟨((hinted configMode hintTtlMs sender).evaluate 0 0).1, 0⟩ := by
  have hroom : ¬ (sender ∉ (∅ : Hash QString Hint) ∧
      (∅ : Hash QString Hint).keys.length ≥ kMaxHints) := by
    rintro ⟨-, hfull⟩
    exact absurd hfull (by decide)
  have hset : ((AttributionHintManager.create configMode hintTtlMs).setHint sender .Off 0 0 0).1 =
      ((hinted configMode hintTtlMs sender).evaluate 0 0).1 := by
    rw [AttributionHintManager.setHint, if_neg hs]
    exact congrArg Prod.fst (if_neg hroom)
  have helapsed : elapsedMs 0 0 = 0 := by decide
  rw [← hset, ← helapsed]
  rfl

theorem lookup_hinted {configMode : AttributionEagerness} {hintTtlMs : Int} {sender k : QString}
    {l : Hint} :
    (Lease.prune 0 (hinted configMode hintTtlMs sender).hints).lookup k = some l ↔
      k = sender ∧ l = loneHint hintTtlMs := by
  rw [Lease.lookup_prune, hinted, Hash.lookup_insert_ite]
  constructor
  · rintro ⟨hk, -⟩
    split at hk
    · next e => exact ⟨e, (Option.some.inj hk).symm⟩
    · simp at hk
  · rintro ⟨rfl, rfl⟩
    exact ⟨if_pos rfl, loneHint_live hintTtlMs⟩

/-- A hint for `Off` and no other, then none: the mode is `Off` in between. -/
theorem lone_hint {configMode : AttributionEagerness} (h : configMode ≠ .Off) (hintTtlMs : Int)
    {sender : QString} (hs : sender ≠ []) :
    let s := ((HintSystem.create configMode hintTtlMs).step (.setHint sender .Off, {})).1
    s.manager.lastEmitted = .Off ∧
      (s.step (.clearHint sender, {})).1.manager.hints.keys = [] := by
  intro s
  have hset : s = ⟨((hinted configMode hintTtlMs sender).evaluate 0 0).1, 0⟩ := step_setHint _ _ hs
  have htable : ∀ k l, s.manager.hints.lookup k = some l ↔ k = sender ∧ l = loneHint hintTtlMs := by
    intro k l
    rw [hset, AttributionHintManager.evaluate_hints]
    exact lookup_hinted
  constructor
  · -- the table is its own book
    have hspec := AttributionHintManager.evaluate_spec (le_refl 0)
      (fun _ _ _ => Iff.rfl : Lease.Tracks 0 (hinted configMode hintTtlMs sender).hints fun k =>
        (hinted configMode hintTtlMs sender).hints.lookup k)
    have heff : EffectiveMode s.manager.configMode (fun k => s.manager.hints.lookup k) 0 _ :=
      AttributionHintManager.effectiveMode_spec fun _ _ _ => Iff.rfl
    have hlast : s.manager.lastEmitted = s.manager.effectiveMode 0 := by
      rw [hset]
      exact hspec.last
    have hconfig : s.manager.configMode = configMode := by
      rw [hset]
      exact hspec.config
    rw [← hlast, hconfig, EffectiveMode, if_neg h] at heff
    rcases heff with ⟨⟨k, l, hl, hmode⟩, -⟩ | ⟨hnone, -⟩
    · rw [← hmode, ((htable k l).1 hl.1).2]
      rfl
    · refine absurd ⟨(htable sender _).2 ⟨rfl, rfl⟩, ?_⟩ (hnone sender (loneHint hintTtlMs))
      exact loneHint_live hintTtlMs
  · refine Hash.keys_eq_nil fun k l hk => ?_
    have hmem : sender ∈ s.manager.hints := Hash.mem_of_lookup ((htable sender _).2 ⟨rfl, rfl⟩)
    have hclear : (s.manager.clearHint sender (elapsedMs 0 s.now)
        (elapsedMs 0 s.now)).1.hints.lookup k = some l := hk
    rw [AttributionHintManager.clearHint, if_neg hs, AttributionHintManager.removeHint,
      if_pos hmem, AttributionHintManager.evaluate_hints, Lease.lookup_prune] at hclear
    by_cases hks : k = sender
    · rw [hks] at hclear
      simp at hclear
    · rw [AList.lookup_erase_ne hks] at hclear
      exact hks ((htable k l).1 hclear.1).1

section Converse
variable {S : StdSort} {probe : ResolverLayer → Bool} {file : Option Ini}

/-- A step to a new mode leaves the preset of that mode. -/
theorem step_changed {app : Application} {outs : List HintOutput} (h : Tuned S probe file app outs)
    (c : HintCall × Waits) (hne : (app.hints.step c).1.manager.lastEmitted ≠ app.mode) :
    (step S app c).1.resolver = (start S probe file).resolver.setTuning
      (resolverTuningFor (app.hints.step c).1.manager.lastEmitted) := by
  have hann := HintSystem.step_announced h.tracked c
  rw [mode] at hne
  rw [if_neg hne] at hann
  unfold step
  dsimp only
  rw [hann]
  exact (onEffectiveEagernessChanged_tuned h).1

theorem void_of_respectsTuning (h : RespectsTuning S probe file) : VoidOverrides probe file := by
  by_cases hoff : (loadAttributionConfig file).eagerness = .Off
  · intro layer hlayer
    rw [layersFor_off hoff] at hlayer
    cases hlayer
  · -- a client asks for `Off` and takes it back
    obtain ⟨sender, hs⟩ : ∃ sender : QString, sender ≠ [] := ⟨":1.1".toList, by decide⟩
    obtain ⟨hmode, hempty⟩ := lone_hint hoff (loadIdleConfig file).hintTtlMs hs
    have hrestored := h.unhinted [(.setHint sender .Off, {}), (.clearHint sender, {})]
    simp only [run] at hrestored
    have hhints := step_hints S (start S probe file) (.setHint sender .Off, {})
    have htuned := step_tuned (start_tuned : Tuned S probe file _ []) (.setHint sender .Off, {})
    generalize (step S (start S probe file) (.setHint sender .Off, {})).1 = app
      at hrestored hhints htuned
    have hleft : (app.hints.step (.clearHint sender, {})).1.manager.hints.keys = [] := by
      rw [hhints]
      exact hempty
    have hback := HintSystem.step_unhinted htuned.tracked htuned.unhinted _ hleft
    have hchanged := step_changed htuned (.clearHint sender, {}) (by
      rw [hback, mode, hhints]
      exact fun e => hoff (e.trans hmode))
    -- the retuning was to the preset, and is to be what the resolver was built with
    rw [hback] at hchanged
    rw [step_hints] at hrestored
    rw [← setTuning_config_iff S, ← hchanged]
    exact congrArg Prod.fst (hrestored hleft)

end Converse

/-- **Exactly without overrides of its own is the administrator's tuning respected.** -/
theorem respectsTuning_iff (S : StdSort) (probe : ResolverLayer → Bool) (file : Option Ini) :
    RespectsTuning S probe file ↔ VoidOverrides probe file :=
  ⟨void_of_respectsTuning, respectsTuning_of_void⟩

/-- A file that sets the cache's refresh interval to a minute. -/
def slowCache : Ini := fun key =>
  if key = "attribution/cache_refresh_ms" then
    some { toInt := 60000, toLongLong := 60000, toString := "60000".toList,
           toStringList := ["60000".toList] }
  else none

/-- The socket table is refreshed every minute; during and after a hint for `Off`, every second. -/
example :
    let cfg := start .stable (fun _ => true) (some slowCache)
    let hinted := (step .stable cfg (.setHint ":1.1".toList .Off, {})).1
    let cleared := (step .stable hinted (.clearHint ":1.1".toList, {})).1
    [cfg, hinted, cleared].map (fun app => app.resolver.map TunedLayer.intervalMs) =
      [[60000, 60000, 5000], [1000, 2000, 5000], [1000, 2000, 5000]] := by
  decide +kernel

/-- With that file, and every layer built, hints do not respect the tuning. -/
theorem slowCache_not_respected :
    (loadAttributionConfig (some slowCache)).eagerness ≠ .Off ∧
      ¬ RespectsTuning .stable (fun _ => true) (some slowCache) := by
  refine ⟨by decide, fun h => ?_⟩
  have hvoid := void_of_respectsTuning h .SockDiagResolver (by decide)
  exact absurd hvoid (by decide)

end Application
end Qiftop.Agent
