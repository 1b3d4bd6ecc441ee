import Qiftop.Backend.ResolverTuning

/-!
# Backend — the resolver and its layers

`backend/ProcessResolverFactory.cpp`, `backend/CompositeResolver.h` and the tuning of the Linux layers
(`SockDiagResolver`, `CgroupClassifier`, `NetnsScanner`).  A resolver is the list of the layers that
were built, each with the refresh interval it holds; the null resolver has none.  A layer is built from
a tuning and may be retuned; either way it reads one interval of the tuning, takes its own default for
`0` and less, and never goes below its floor.

Which layers are compiled in, and whether a layer's probe succeeds, is a parameter.
-/

namespace Qiftop.Backend
open Qt

/-- A raw interval: the default for `0` and less, else at least the floor. -/
def safeIntervalMs (raw defaultMs minMs : Int) : Int :=
  if raw ≤ 0 then defaultMs else if raw ≥ minMs then raw else minMs

def safeCacheTtlMs (raw : Int) : Int := safeIntervalMs raw 1000 100

def safeContainerTtlMs (raw : Int) : Int := safeIntervalMs raw 2000 100

def safeRefreshIntervalMs (raw : Int) : Int := safeIntervalMs raw 5000 250

inductive ResolverLayer where
  | SockDiagResolver | CgroupClassifier | NetnsScanner
  deriving DecidableEq, Repr

namespace ResolverLayer

/-- The interval a layer takes from a tuning. -/
def intervalMs : ResolverLayer → ResolverTuning → Int
  | SockDiagResolver, tuning => safeCacheTtlMs tuning.cacheRefreshMs
  | CgroupClassifier, tuning => safeContainerTtlMs tuning.containerCacheMs
  | NetnsScanner, tuning => safeRefreshIntervalMs tuning.netnsRefreshMs

/-- The override that replaces a layer's interval. -/
def overrideMs (cacheOverrideMs netnsOverrideMs : Int) : ResolverLayer → Int
  | SockDiagResolver | CgroupClassifier => cacheOverrideMs
  | NetnsScanner => netnsOverrideMs

def capabilities : ResolverLayer → List QString
  | SockDiagResolver => ["process-attribution".toList]
  | CgroupClassifier => ["container-attribution".toList, "container-chain".toList]
  | NetnsScanner => ["netns-scan".toList]

end ResolverLayer

/-- A layer and the interval it holds. -/
structure TunedLayer where
  layer : ResolverLayer
  intervalMs : Int
  deriving DecidableEq, Repr

def TunedLayer.create (tuning : ResolverTuning) (layer : ResolverLayer) : TunedLayer :=
  ⟨layer, layer.intervalMs tuning⟩

/-- The layers of a resolver, in the order they are asked. -/
abbrev CompositeResolver := List TunedLayer

namespace CompositeResolver

def setTuning (resolver : CompositeResolver) (tuning : ResolverTuning) : CompositeResolver :=
  resolver.map fun l => .create tuning l.layer

def capabilities (resolver : CompositeResolver) : List QString :=
  (resolver.flatMap fun l => l.layer.capabilities).dedup

end CompositeResolver

/-- The layers the configuration asks for and `probe` admits. -/
def layersFor (probe : ResolverLayer → Bool) (cfg : ProcessResolverConfig) : List ResolverLayer :=
  if cfg.eagerness = .Off ∨ (!cfg.processAttribution && !cfg.containerAttribution && !cfg.netnsScan)
  then []
  else
    -- the other two layers need a pid, hence the first switch
    (if cfg.processAttribution && probe .SockDiagResolver then [.SockDiagResolver] else []) ++
    (if cfg.processAttribution && cfg.containerAttribution && probe .CgroupClassifier then
      [.CgroupClassifier] else []) ++
    if cfg.processAttribution && cfg.netnsScan && probe .NetnsScanner then [.NetnsScanner] else []

/-- `createProcessResolver`. -/
def createProcessResolver (probe : ResolverLayer → Bool) (cfg : ProcessResolverConfig) :
    CompositeResolver :=
  (layersFor probe cfg).map (.create cfg.tuning)

/-! ### Retuning -/

/-- Retuning depends on the layers only. -/
theorem setTuning_createProcessResolver (probe : ResolverLayer → Bool) (cfg : ProcessResolverConfig)
    (tuning : ResolverTuning) :
    CompositeResolver.setTuning (createProcessResolver probe cfg) tuning =
      (layersFor probe cfg).map (.create tuning) := by
  simp [CompositeResolver.setTuning, createProcessResolver, Function.comp_def, TunedLayer.create]

@[simp] theorem setTuning_setTuning (resolver : CompositeResolver) (tuning tuning' : ResolverTuning) :
    (resolver.setTuning tuning).setTuning tuning' = resolver.setTuning tuning' := by
  simp [CompositeResolver.setTuning, TunedLayer.create]

/-- **The preset of `Off` is no layer's shortest**: with it a layer refreshes no more often than with
any other preset. -/
theorem intervalMs_le_off (layer : ResolverLayer) (mode : AttributionEagerness) :
    layer.intervalMs (resolverTuningFor mode) ≤ layer.intervalMs (resolverTuningFor .Off) := by
  cases layer <;> cases mode <;> decide

theorem safeIntervalMs_of_le {raw defaultMs minMs : Int} (hmin : 0 < minMs) (h : minMs ≤ raw) :
    safeIntervalMs raw defaultMs minMs = raw := by
  rw [safeIntervalMs, if_neg (by omega), if_pos h]

/-- Without overrides the tuning is the preset. -/
theorem resolverTuningFor_eq_preset (mode : AttributionEagerness) :
    resolverTuningFor mode = presetTuning mode := by
  cases mode <;> rfl

/-- An override in its range is the interval; without one it is the preset's. -/
theorem intervalMs_resolverTuningFor {mode : AttributionEagerness} (h : mode ≠ .Off)
    {cache netns : Int} (hc : cache = 0 ∨ 100 ≤ cache) (hn : netns = 0 ∨ 250 ≤ netns)
    (layer : ResolverLayer) :
    layer.intervalMs (resolverTuningFor mode cache netns) =
      if layer.overrideMs cache netns = 0 then layer.intervalMs (resolverTuningFor mode)
      else layer.overrideMs cache netns := by
  have hcache : (resolverTuningFor mode cache netns).cacheRefreshMs =
        (if cache = 0 then (resolverTuningFor mode).cacheRefreshMs else cache) ∧
      (resolverTuningFor mode cache netns).containerCacheMs =
        (if cache = 0 then (resolverTuningFor mode).containerCacheMs else cache) ∧
      (resolverTuningFor mode cache netns).netnsRefreshMs =
        if netns = 0 then (resolverTuningFor mode).netnsRefreshMs else netns := by
    have hcpos : cache > 0 ↔ ¬ cache = 0 := by omega
    have hnpos : netns > 0 ↔ ¬ netns = 0 := by omega
    rw [resolverTuningFor_eq_preset]
    simp only [resolverTuningFor, if_neg h, hcpos, hnpos]
    split_ifs <;> exact ⟨rfl, rfl, rfl⟩
  obtain ⟨hcache, hcontainer, hnetns⟩ := hcache
  -- an override passes the layer's clamp unchanged: its range begins at the floor or above
  cases layer with
  | SockDiagResolver =>
      rw [ResolverLayer.intervalMs, hcache, ResolverLayer.overrideMs]
      split
      · rfl
      · exact safeIntervalMs_of_le (by decide) (by omega)
  | CgroupClassifier =>
      rw [ResolverLayer.intervalMs, hcontainer, ResolverLayer.overrideMs]
      split
      · rfl
      · exact safeIntervalMs_of_le (by decide) (by omega)
  | NetnsScanner =>
      rw [ResolverLayer.intervalMs, hnetns, ResolverLayer.overrideMs]
      split
      · rfl
      · exact safeIntervalMs_of_le (by decide) (by omega)

theorem layersFor_off {probe : ResolverLayer → Bool} {cfg : ProcessResolverConfig}
    (h : cfg.eagerness = .Off) : layersFor probe cfg = [] :=
  if_pos (.inl h)

end Qiftop.Backend
