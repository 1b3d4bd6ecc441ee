import Qiftop.Backend.ResolverTuning
import Qiftop.Qt.Text

/-!
# Agent — configuration

`agent/Config.cpp`: the sections of `agent.conf` that set the polling cadence and the attribution.
`QSettings` reads the file: for a key the file has, it holds some value, and what a value's conversions
answer is left open (`IniValue`), so the results cover every file.  A missing file gives the defaults.
The warnings are left out.
-/

namespace Qiftop.Agent
open Qt Backend

/-- A value of the file, through the conversions the program applies to it. -/
structure IniValue where
  toInt : Int := 0
  toLongLong : Int := 0
  toString : QString := []
  toStringList : List QString := []

/-- The values of a file, by `section/key`. -/
abbrev Ini := String → Option IniValue

/-- A value in its range, or the fallback. -/
def clampCfg (raw lo hi fallback : Int) : Int := if raw < lo ∨ raw > hi then fallback else raw

/-! ### The polling cadence -/

/-- `IdleManager::Config`. -/
structure IdleConfig where
  activeIntervalMs : Int := 1000
  slow1IntervalMs : Int := 2000
  slow2IntervalMs : Int := 5000
  activeWindowMs : Int := 30000
  slow1WindowMs : Int := 45000
  slow2WindowMs : Int := 60000
  idleTimeoutMs : Int := 60000
  minIntervalMs : Int := 100
  hintTtlMs : Int := 10000
  deriving DecidableEq, Repr

def kMinMs : Int := 10
def kMaxMs : Int := 60 * 60 * 1000
def kMaxWin : Int := 24 * 60 * 60 * 1000
def kMaxSec : Int := 24 * 60 * 60

/-- Seconds as milliseconds, or the default when out of range. -/
def secsToMsInline (raw defaultMs : Int) : Int :=
  if raw < 0 ∨ raw > kMaxSec then defaultMs else raw * 1000

/-- The key's seconds as milliseconds. -/
def secsToMs (ini : Ini) (key : String) (defaultMs : Int) : Int :=
  secsToMsInline ((ini key).elim (defaultMs / 1000) IniValue.toLongLong) defaultMs

/-- The `[poll]` keys and the timeouts. -/
def loadIntervals (ini : Ini) (cfg : IdleConfig) : IdleConfig :=
  let minIntervalMs := clampCfg ((ini "poll/min_interval_ms").elim cfg.minIntervalMs IniValue.toInt)
    kMinMs kMaxMs cfg.minIntervalMs
  { cfg with
    minIntervalMs
    activeIntervalMs :=
      clampCfg ((ini "poll/base_interval_ms").elim cfg.activeIntervalMs IniValue.toInt)
        minIntervalMs kMaxMs cfg.activeIntervalMs
    idleTimeoutMs := secsToMs ini "idle/timeout_secs" cfg.idleTimeoutMs
    hintTtlMs := clampCfg (secsToMs ini "idle/hint_ttl_secs" cfg.hintTtlMs) kMinMs kMaxWin
      cfg.hintTtlMs }

/-- The pairs of `idle/schedule`. -/
def schedulePairs (ini : Ini) : List QString :=
  let sched := (((ini "idle/schedule").elim ["30:2000,45:5000,60:0".toList]
    IniValue.toStringList).intersperse [',']).flatten
  (sched.splitOn ',').filter (· ≠ [])

/-- A pair of the schedule: the window in seconds and the interval in milliseconds. -/
def schedulePair (pair : QString) : Option (Int × Int) :=
  match pair.splitOn ':' with
  | [window, interval] => some (Qt.toLongLong (trimmed window), Qt.toInt (trimmed interval))
  | _ => none

/-- The three pairs of the schedule, as far as the file gives them. -/
def loadSchedule (pairs : List QString) (cfg : IdleConfig) : IdleConfig :=
  let cfg := match pairs[0]?.bind schedulePair with
    | some (window, interval) => { cfg with
        activeWindowMs := secsToMsInline window cfg.activeWindowMs
        slow1IntervalMs := clampCfg interval cfg.minIntervalMs kMaxMs cfg.slow1IntervalMs }
    | none => cfg
  let cfg := match pairs[1]?.bind schedulePair with
    | some (window, interval) => { cfg with
        slow1WindowMs := secsToMsInline window cfg.slow1WindowMs
        slow2IntervalMs := clampCfg interval cfg.minIntervalMs kMaxMs cfg.slow2IntervalMs }
    | none => cfg
  match pairs[2]?.bind schedulePair with
  | some (window, _) => { cfg with slow2WindowMs := secsToMsInline window cfg.slow2WindowMs }
  | none => cfg

def loadIdleConfig (file : Option Ini) : IdleConfig :=
  match file with
  | none => {}
  | some ini => loadSchedule (schedulePairs ini) (loadIntervals ini {})

/-! ### The attribution -/

/-- `parseBoolToken`. -/
def parseBoolToken (value : QString) : Option Bool :=
  let value := Qt.toLower (trimmed value)
  if value ∈ ["true".toList, "yes".toList, "1".toList, "on".toList] then some true
  else if value ∈ ["false".toList, "no".toList, "0".toList, "off".toList] then some false
  else none

/-- A switch of the file, or the fallback. -/
def readBoolCfg (ini : Ini) (key : String) (fallback : Bool) : Bool :=
  match ini key with
  | none => fallback
  | some v => (parseBoolToken (trimmed v.toString)).getD fallback

/-- An interval of the file in its range, `0` for none. -/
def readAttributionOverrideMs (ini : Ini) (key : String) (lo hi : Int) : Int :=
  let raw := (ini key).elim 0 IniValue.toInt
  if raw = 0 then 0 else if raw < lo ∨ raw > hi then 0 else raw

/-- The mode of the file, `Balanced` for anything unrecognised. -/
def readEagerness (ini : Ini) : AttributionEagerness :=
  let eagerness := Qt.toLower (trimmed
    ((ini "attribution/eagerness").elim "balanced".toList IniValue.toString))
  if eagerness = "off".toList then .Off
  else if eagerness = "balanced".toList then .Balanced
  else if eagerness = "eager".toList then .Eager
  else .Balanced

def cacheOverrideMs (ini : Ini) : Int :=
  readAttributionOverrideMs ini "attribution/cache_refresh_ms" 100 (60 * 1000)

def netnsOverrideMs (ini : Ini) : Int :=
  readAttributionOverrideMs ini "attribution/netns_refresh_ms" 250 (5 * 60 * 1000)

/-- The switches of the layers; without process attribution the other two are off. -/
def loadLayers (ini : Ini) (cfg : ProcessResolverConfig) : ProcessResolverConfig :=
  let cfg := { cfg with
    processAttribution := readBoolCfg ini "attribution/process" cfg.processAttribution
    containerAttribution := readBoolCfg ini "attribution/container" cfg.containerAttribution
    netnsScan := readBoolCfg ini "attribution/netns" cfg.netnsScan }
  if !cfg.processAttribution && (cfg.containerAttribution || cfg.netnsScan) then
    { cfg with containerAttribution := false, netnsScan := false }
  else cfg

def loadAttributionConfig (file : Option Ini) : ProcessResolverConfig :=
  match file with
  | none => {}
  | some ini =>
      let eagerness := readEagerness ini
      let cfg : ProcessResolverConfig :=
        { eagerness, tuning := resolverTuningFor eagerness (cacheOverrideMs ini) (netnsOverrideMs ini) }
      -- the switches of the file are not read then
      if eagerness = .Off then
        { cfg with processAttribution := false, containerAttribution := false, netnsScan := false }
      else loadLayers ini cfg

/-! ### What a loaded configuration keeps -/

/-- The bounds that hold of every configuration: the floor is not below the hard minimum, windows and
timeouts are not negative.  The base interval and the slow steps may lie below the floor, when the
floor is above their defaults. -/
structure IdleConfig.Valid (cfg : IdleConfig) : Prop where
  minIntervalMs : kMinMs ≤ cfg.minIntervalMs
  activeWindowMs : 0 ≤ cfg.activeWindowMs
  slow1WindowMs : 0 ≤ cfg.slow1WindowMs
  slow2WindowMs : 0 ≤ cfg.slow2WindowMs
  idleTimeoutMs : 0 ≤ cfg.idleTimeoutMs
  hintTtlMs : kMinMs ≤ cfg.hintTtlMs

theorem le_clampCfg {lo hi fallback : Int} (h : lo ≤ fallback) (raw : Int) :
    lo ≤ clampCfg raw lo hi fallback := by
  unfold clampCfg
  split <;> omega

theorem secsToMsInline_nonneg {defaultMs : Int} (h : 0 ≤ defaultMs) (raw : Int) :
    0 ≤ secsToMsInline raw defaultMs := by
  unfold secsToMsInline
  split <;> omega

theorem loadIntervals_valid (ini : Ini) : (loadIntervals ini {}).Valid where
  minIntervalMs := le_clampCfg (by decide) _
  activeWindowMs := by simp [loadIntervals]
  slow1WindowMs := by simp [loadIntervals]
  slow2WindowMs := by simp [loadIntervals]
  idleTimeoutMs := secsToMsInline_nonneg (by decide) _
  hintTtlMs := le_clampCfg (by decide) _

theorem loadSchedule_valid (pairs : List QString) {cfg : IdleConfig} (h : cfg.Valid) :
    (loadSchedule pairs cfg).Valid := by
  obtain ⟨hmin, hactive, hslow1, hslow2, hidle, httl⟩ := h
  unfold loadSchedule
  dsimp only
  cases pairs[0]?.bind schedulePair <;> cases pairs[1]?.bind schedulePair <;>
    cases pairs[2]?.bind schedulePair <;>
    exact ⟨hmin, by first | exact hactive | exact secsToMsInline_nonneg hactive _,
      by first | exact hslow1 | exact secsToMsInline_nonneg hslow1 _,
      by first | exact hslow2 | exact secsToMsInline_nonneg hslow2 _, hidle, httl⟩

/-- Every configuration `loadIdleConfig` returns is within its bounds, whatever the file. -/
theorem loadIdleConfig_valid (file : Option Ini) : (loadIdleConfig file).Valid := by
  cases file with
  | none => exact ⟨by decide, by decide, by decide, by decide, by decide, by decide⟩
  | some ini => exact loadSchedule_valid _ (loadIntervals_valid ini)

theorem loadLayers_keeps (ini : Ini) (cfg : ProcessResolverConfig) :
    (loadLayers ini cfg).eagerness = cfg.eagerness ∧ (loadLayers ini cfg).tuning = cfg.tuning := by
  unfold loadLayers
  dsimp only
  split <;> exact ⟨rfl, rfl⟩

/-- The tuning loaded is the preset of the mode loaded with the overrides of the file. -/
theorem loadAttributionConfig_tuning (file : Option Ini) :
    (loadAttributionConfig file).tuning = resolverTuningFor (loadAttributionConfig file).eagerness
      (file.elim 0 cacheOverrideMs) (file.elim 0 netnsOverrideMs) := by
  cases file with
  | none => rfl
  | some ini =>
      unfold loadAttributionConfig
      dsimp only
      split
      · rfl
      · rw [(loadLayers_keeps ini _).1, (loadLayers_keeps ini _).2]
        rfl

/-- An override is none or within its range. -/
theorem readAttributionOverrideMs_range (ini : Ini) (key : String) (lo hi : Int) :
    readAttributionOverrideMs ini key lo hi = 0 ∨ lo ≤ readAttributionOverrideMs ini key lo hi := by
  unfold readAttributionOverrideMs
  dsimp only
  split
  · exact .inl rfl
  · split
    · exact .inl rfl
    · exact .inr (by omega)

end Qiftop.Agent
