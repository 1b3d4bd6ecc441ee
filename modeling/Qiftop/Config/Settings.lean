import Mathlib.Logic.Function.Basic
import Qiftop.Lib.Run
import Qiftop.Qt.Text

/-!
# Config — the settings

`config/Settings.cpp`: the numeric and enumerated settings, their loading from `QSettings` with the
migration of a legacy key, and their setters.  The other settings are flags and texts.

Each setter brings its argument into a range.  `load` assigns what the store has; only the view mode
is looked at first.  `legacy * 1000` is an `int` multiplication, which is undefined beyond 2³¹ − 1
(`none`).

* `Call.get_apply`, `inRange_calls_iff`: what setters leave in a setting.
* `load_cases`: what loading leaves.
* `settings_in_range_iff`: which stores and calls leave every setting in its range.
-/

namespace Qiftop.Config
open Qt Lib

/-! ### The store -/

/-- A stored value. -/
inductive QVariant where
  | int (n : Int32)
  | string (s : QString)
  deriving DecidableEq, Repr

def QVariant.toInt : QVariant → Int
  | int n => n.toInt
  | string s => variantToInt s

/-- `QSettings`, by key. -/
abbrev Store := QString → Option QVariant

/-- `value(key, default).toInt()`. -/
def Store.int (store : Store) (key : String) (default : Int) : Int :=
  ((store key.toList).map QVariant.toInt).getD default

def Store.contains (store : Store) (key : String) : Bool := (store key.toList).isSome

def Store.setValue (store : Store) (key : String) (v : QVariant) : Store :=
  Function.update store key.toList (some v)

def Store.remove (store : Store) (key : String) : Store := Function.update store key.toList none

def kPollIntervalMs := "monitor/pollIntervalMs"
def kConnStaleRetentionSecs := "connections/staleRetentionSecs"
def kConnStaleRetentionSecsUdp := "connections/staleRetentionSecsUdp"
def kThroughputMaxMode := "display/throughputMaxMode"
def kThroughputWindowSecs := "display/throughputWindowSecs"
def kRateSmoothingMs := "display/rateSmoothingMs"
def kRateSmoothingSecsLegacy := "display/rateSmoothingSecs"
def kConnectionViewMode := "connections/viewMode"

/-! ### The settings -/

inductive ThroughputMaxMode where
  | Windowed | CumulativeAverage
  deriving DecidableEq, Repr

def ThroughputMaxMode.toInt : ThroughputMaxMode → Int
  | Windowed => 0
  | CumulativeAverage => 1

inductive ConnectionViewMode where
  | Flat | ByInterface | ByContainer | ByProcess
  deriving DecidableEq, Repr

def ConnectionViewMode.toInt : ConnectionViewMode → Int
  | Flat => 0
  | ByInterface => 1
  | ByContainer => 2
  | ByProcess => 3

/-- The members with a range.  An enumeration holds any `int` it was cast from. -/
inductive Setting where
  | pollIntervalMs | connStaleRetentionSecs | connStaleRetentionSecsUdp | throughputMaxMode
  | throughputWindowSecs | rateSmoothingMs | connViewMode
  deriving DecidableEq, Repr

structure Settings where
  persist : Bool
  store : Store
  get : Setting → Int

/-- The initial values of the members. -/
def Setting.initial : Setting → Int
  | pollIntervalMs => 1000
  | connStaleRetentionSecs => 15
  | connStaleRetentionSecsUdp => 60
  | throughputMaxMode => ThroughputMaxMode.Windowed.toInt
  | throughputWindowSecs => 30
  | rateSmoothingMs => 0
  | connViewMode => ConnectionViewMode.Flat.toInt

/-- The range a setter keeps its member in. -/
def Setting.range : Setting → Int × Int
  | pollIntervalMs => (100, 60000)
  | connStaleRetentionSecs => (0, 600)
  | connStaleRetentionSecsUdp => (0, 600)
  | throughputMaxMode => (0, 1)
  | throughputWindowSecs => (2, 3600)
  | rateSmoothingMs => (0, 60000)
  | connViewMode => (0, 3)

def Setting.InRange (x : Setting) (v : Int) : Prop := x.range.1 ≤ v ∧ v ≤ x.range.2

instance (x : Setting) (v : Int) : Decidable (x.InRange v) := inferInstanceAs (Decidable (_ ∧ _))

namespace Settings

/-! ### Loading -/

def set (s : Settings) (x : Setting) (v : Int) : Settings :=
  { s with get := Function.update s.get x v }

/-- `int` multiplication. -/
def mulInt (a b : Int) : Option Int :=
  if -2147483648 ≤ a * b ∧ a * b ≤ 2147483647 then some (a * b) else none

/-- The migration of the smoothing time in whole seconds. -/
def migrateSmoothing (s : Settings) : Option Settings :=
  if s.get .rateSmoothingMs = 0 ∧ s.store.contains kRateSmoothingSecsLegacy then do
    let legacy := s.store.int kRateSmoothingSecsLegacy 0
    let s ←
      if 0 < legacy then do
        let ms ← mulInt legacy 1000
        let s := s.set .rateSmoothingMs ms
        pure (if s.persist then
          { s with store := s.store.setValue kRateSmoothingMs (.int (Int32.ofInt ms)) } else s)
      else pure s
    pure (if s.persist then { s with store := s.store.remove kRateSmoothingSecsLegacy } else s)
  else some s

/-- The view mode is taken only if there is such a mode. -/
def loadViewMode (s : Settings) : Settings :=
  let mode := s.store.int kConnectionViewMode (s.get .connViewMode)
  if 0 ≤ mode ∧ mode ≤ ConnectionViewMode.ByProcess.toInt then s.set .connViewMode mode else s

def load (persist : Bool) (store : Store) : Option Settings := do
  let s : Settings := ⟨persist, store, Setting.initial⟩
  let s := s.set .pollIntervalMs (store.int kPollIntervalMs (s.get .pollIntervalMs))
  let s := s.set .connStaleRetentionSecs
    (store.int kConnStaleRetentionSecs (s.get .connStaleRetentionSecs))
  let s := s.set .connStaleRetentionSecsUdp
    (store.int kConnStaleRetentionSecsUdp (s.get .connStaleRetentionSecsUdp))
  let s := s.set .throughputMaxMode (store.int kThroughputMaxMode (s.get .throughputMaxMode))
  let s := s.set .throughputWindowSecs
    (store.int kThroughputWindowSecs (s.get .throughputWindowSecs))
  let s := s.set .rateSmoothingMs (store.int kRateSmoothingMs (s.get .rateSmoothingMs))
  let s ← s.migrateSmoothing
  return s.loadViewMode

/-! ### Setters -/

/-- `qBound(lo, v, hi)`. -/
def qBound (lo v hi : Int) : Int := max lo (min hi v)

/-- `Settings::store`. -/
def write (s : Settings) (key : String) (v : Int) : Settings :=
  if s.persist then { s with store := s.store.setValue key (.int (Int32.ofInt v)) } else s

/-- What the setters have in common, `changed` apart. -/
def assign (s : Settings) (x : Setting) (key : String) (v : Int) : Settings :=
  if v = s.get x then s else (s.set x v).write key v

def setPollIntervalMs (s : Settings) (ms : Int) : Settings :=
  s.assign .pollIntervalMs kPollIntervalMs (qBound 100 ms 60000)

def setConnectionStaleRetentionSecs (s : Settings) (secs : Int) : Settings :=
  s.assign .connStaleRetentionSecs kConnStaleRetentionSecs (qBound 0 secs 600)

def setConnectionStaleRetentionSecsUdp (s : Settings) (secs : Int) : Settings :=
  s.assign .connStaleRetentionSecsUdp kConnStaleRetentionSecsUdp (qBound 0 secs 600)

def setThroughputMaxMode (s : Settings) (m : ThroughputMaxMode) : Settings :=
  s.assign .throughputMaxMode kThroughputMaxMode m.toInt

def setThroughputWindowSecs (s : Settings) (secs : Int) : Settings :=
  s.assign .throughputWindowSecs kThroughputWindowSecs (qBound 2 secs 3600)

def setRateSmoothingMs (s : Settings) (ms : Int) : Settings :=
  s.assign .rateSmoothingMs kRateSmoothingMs (qBound 0 ms 60000)

def setConnectionViewMode (s : Settings) (m : ConnectionViewMode) : Settings :=
  s.assign .connViewMode kConnectionViewMode m.toInt

end Settings

/-- A call of a setter. -/
inductive Call where
  | setPollIntervalMs (ms : Int)
  | setConnectionStaleRetentionSecs (secs : Int)
  | setConnectionStaleRetentionSecsUdp (secs : Int)
  | setThroughputMaxMode (m : ThroughputMaxMode)
  | setThroughputWindowSecs (secs : Int)
  | setRateSmoothingMs (ms : Int)
  | setConnectionViewMode (m : ConnectionViewMode)

namespace Call

def apply (s : Settings) : Call → Settings
  | setPollIntervalMs ms => s.setPollIntervalMs ms
  | setConnectionStaleRetentionSecs secs => s.setConnectionStaleRetentionSecs secs
  | setConnectionStaleRetentionSecsUdp secs => s.setConnectionStaleRetentionSecsUdp secs
  | setThroughputMaxMode m => s.setThroughputMaxMode m
  | setThroughputWindowSecs secs => s.setThroughputWindowSecs secs
  | setRateSmoothingMs ms => s.setRateSmoothingMs ms
  | setConnectionViewMode m => s.setConnectionViewMode m

/-- The setting of a setter. -/
def setting : Call → Setting
  | setPollIntervalMs _ => .pollIntervalMs
  | setConnectionStaleRetentionSecs _ => .connStaleRetentionSecs
  | setConnectionStaleRetentionSecsUdp _ => .connStaleRetentionSecsUdp
  | setThroughputMaxMode _ => .throughputMaxMode
  | setThroughputWindowSecs _ => .throughputWindowSecs
  | setRateSmoothingMs _ => .rateSmoothingMs
  | setConnectionViewMode _ => .connViewMode

end Call

/-! ### What setters leave -/

@[simp] theorem Settings.get_write (s : Settings) (key : String) (v : Int) :
    (s.write key v).get = s.get := by
  unfold Settings.write
  split <;> rfl

/-- An assignment changes one setting, whether or not it had the value. -/
theorem Settings.get_assign (s : Settings) (x : Setting) (key : String) (v : Int) :
    (s.assign x key v).get = Function.update s.get x v := by
  unfold Settings.assign
  split
  · rename_i h
    rw [h, Function.update_eq_self]
  · rw [Settings.get_write]
    rfl

theorem Settings.inRange_qBound (x : Setting) (v : Int) :
    x.InRange (qBound x.range.1 v x.range.2) := by
  have : x.range.1 ≤ x.range.2 := by cases x <;> decide
  unfold Setting.InRange qBound
  omega

/-- **What a setter leaves**: its setting in its range, and the others as they were. -/
theorem Call.get_apply (s : Settings) (c : Call) :
    ∃ v, c.setting.InRange v ∧ (c.apply s).get = Function.update s.get c.setting v := by
  cases c with
  | setPollIntervalMs ms =>
      exact ⟨_, Settings.inRange_qBound .pollIntervalMs ms, Settings.get_assign _ _ _ _⟩
  | setConnectionStaleRetentionSecs secs =>
      exact ⟨_, Settings.inRange_qBound .connStaleRetentionSecs secs, Settings.get_assign _ _ _ _⟩
  | setConnectionStaleRetentionSecsUdp secs =>
      exact ⟨_, Settings.inRange_qBound .connStaleRetentionSecsUdp secs, Settings.get_assign _ _ _ _⟩
  | setThroughputMaxMode m =>
      exact ⟨m.toInt, by cases m <;> decide, Settings.get_assign _ _ _ _⟩
  | setThroughputWindowSecs secs =>
      exact ⟨_, Settings.inRange_qBound .throughputWindowSecs secs, Settings.get_assign _ _ _ _⟩
  | setRateSmoothingMs ms =>
      exact ⟨_, Settings.inRange_qBound .rateSmoothingMs ms, Settings.get_assign _ _ _ _⟩
  | setConnectionViewMode m =>
      exact ⟨m.toInt, by cases m <;> decide, Settings.get_assign _ _ _ _⟩

/-- **What a sequence of setters leaves**: a setting one of them has set is in its range, any other
as it was. -/
theorem inRange_calls_iff (s : Settings) (calls : List Call) (x : Setting) :
    x.InRange ((calls.foldl Call.apply s).get x) ↔
      x ∈ calls.map Call.setting ∨ x.InRange (s.get x) := by
  induction calls generalizing s with
  | nil => simp
  | cons c calls ih =>
      obtain ⟨v, hv, hget⟩ := c.get_apply s
      rw [List.foldl_cons, ih, hget, List.map_cons, List.mem_cons, or_comm (a := x = c.setting),
        or_assoc]
      refine or_congr Iff.rfl ?_
      by_cases hx : x = c.setting
      · subst hx
        simp [hv]
      · rw [Function.update_of_ne hx]
        simp [hx]

/-! ### What loading leaves -/

/-- The legacy key is used: the new one is missing or zero. -/
def Migrates (store : Store) : Prop :=
  store.int kRateSmoothingMs 0 = 0 ∧ store.contains kRateSmoothingSecsLegacy ∧
    0 < store.int kRateSmoothingSecsLegacy 0

instance (store : Store) : Decidable (Migrates store) := inferInstanceAs (Decidable (_ ∧ _))

/-- The seconds of the legacy key are too many for an `int` of milliseconds. -/
def Overflows (store : Store) : Prop :=
  Migrates store ∧ 2147483 < store.int kRateSmoothingSecsLegacy 0

/-- What the store has of a setting is in the setting's range. -/
def StoredInRange (store : Store) : Setting → Prop
  | .pollIntervalMs => Setting.pollIntervalMs.InRange (store.int kPollIntervalMs 1000)
  | .connStaleRetentionSecs =>
      Setting.connStaleRetentionSecs.InRange (store.int kConnStaleRetentionSecs 15)
  | .connStaleRetentionSecsUdp =>
      Setting.connStaleRetentionSecsUdp.InRange (store.int kConnStaleRetentionSecsUdp 60)
  | .throughputMaxMode => Setting.throughputMaxMode.InRange (store.int kThroughputMaxMode 0)
  | .throughputWindowSecs => Setting.throughputWindowSecs.InRange (store.int kThroughputWindowSecs 30)
  | .rateSmoothingMs =>
      if Migrates store then store.int kRateSmoothingSecsLegacy 0 ≤ 60
      else Setting.rateSmoothingMs.InRange (store.int kRateSmoothingMs 0)
  | .connViewMode => True

/-- **What the migration does**: nothing, or it takes over the legacy seconds if they fit. -/
theorem Settings.migrateSmoothing_cases (s : Settings)
    (hget : s.get .rateSmoothingMs = s.store.int kRateSmoothingMs 0) :
    (Overflows s.store ∧ s.migrateSmoothing = none) ∨
    ¬Overflows s.store ∧ ∃ s', s.migrateSmoothing = some s' ∧
      s'.get = if Migrates s.store then
          Function.update s.get .rateSmoothingMs (s.store.int kRateSmoothingSecsLegacy 0 * 1000)
        else s.get := by
  unfold Settings.migrateSmoothing
  by_cases hused : s.get .rateSmoothingMs = 0 ∧ s.store.contains kRateSmoothingSecsLegacy
  · rw [if_pos hused]
    rw [hget] at hused
    by_cases hpos : 0 < s.store.int kRateSmoothingSecsLegacy 0
    · have hmig : Migrates s.store := ⟨hused.1, hused.2, hpos⟩
      by_cases hfit : s.store.int kRateSmoothingSecsLegacy 0 ≤ 2147483
      · have hmul : mulInt (s.store.int kRateSmoothingSecsLegacy 0) 1000 =
            some (s.store.int kRateSmoothingSecsLegacy 0 * 1000) := if_pos (by omega)
        refine .inr ⟨fun h => absurd h.2 (by omega), _, by simp [hpos, hmul]; rfl, ?_⟩
        cases hp : s.persist <;> simp [Settings.set, hp, hmig]
      · have hmul : mulInt (s.store.int kRateSmoothingSecsLegacy 0) 1000 = none :=
          if_neg (by omega)
        exact .inl ⟨⟨hmig, by omega⟩, by simp [hpos, hmul]⟩
    · have hmig : ¬Migrates s.store := fun h => hpos h.2.2
      refine .inr ⟨fun h => hmig h.1, _, by simp [hpos]; rfl, ?_⟩
      cases s.persist <;> simp [hmig]
  · rw [if_neg hused]
    rw [hget] at hused
    have hmig : ¬Migrates s.store := fun h => hused ⟨h.1, h.2.1⟩
    exact .inr ⟨fun h => hmig h.1, s, rfl, by rw [if_neg hmig]⟩

theorem Settings.get_loadViewMode_of_ne {s : Settings} {x : Setting} (h : x ≠ .connViewMode) :
    s.loadViewMode.get x = s.get x := by
  unfold Settings.loadViewMode
  dsimp only
  split
  · exact Function.update_of_ne h _ _
  · rfl

/-- The view mode stays in its range, whatever the store has. -/
theorem Settings.inRange_loadViewMode {s : Settings}
    (h : Setting.connViewMode.InRange (s.get .connViewMode)) :
    Setting.connViewMode.InRange (s.loadViewMode.get .connViewMode) := by
  unfold Settings.loadViewMode
  dsimp only
  split
  · rename_i hmode
    have hset : (Function.update s.get .connViewMode
        (s.store.int kConnectionViewMode (s.get .connViewMode))) .connViewMode =
          s.store.int kConnectionViewMode (s.get .connViewMode) := Function.update_self _ _ _
    exact hset ▸ hmode
  · exact h

/-- **What loading leaves**: nothing defined if the legacy seconds are too many, and else each
setting in its range just if what the store has of it is. -/
theorem load_cases (persist : Bool) (store : Store) :
    (Overflows store ∧ Settings.load persist store = none) ∨
    ¬Overflows store ∧ ∃ s, Settings.load persist store = some s ∧
      ∀ x, x.InRange (s.get x) ↔ StoredInRange store x := by
  unfold Settings.load
  dsimp only
  generalize hs₀ : Settings.set _ .rateSmoothingMs _ = s₀
  have hstore : s₀.store = store := by rw [← hs₀]; rfl
  rcases s₀.migrateSmoothing_cases (by rw [← hs₀]; rfl) with ⟨hover, hnone⟩ | ⟨hover, s, hs, hget⟩
  · rw [hnone]
    exact .inl ⟨hstore ▸ hover, rfl⟩
  rw [hs]
  rw [hstore] at hover hget
  -- The migration touches the smoothing time only.
  have hother {x : Setting} (hx : x ≠ .rateSmoothingMs) : s.get x = s₀.get x := by
    rw [hget]
    split
    · exact Function.update_of_ne hx _ _
    · rfl
  refine .inr ⟨hover, _, rfl, fun x => ?_⟩
  cases x with
  | connViewMode =>
      refine iff_of_true (Settings.inRange_loadViewMode ?_) trivial
      have hflat : s₀.get .connViewMode = 0 := by rw [← hs₀]; rfl
      rw [hother (by simp), hflat]
      decide
  | rateSmoothingMs =>
      rw [Settings.get_loadViewMode_of_ne (by simp), hget, StoredInRange]
      split
      · rename_i hmig
        rw [Function.update_self]
        have := hmig.2.2
        simp only [Setting.InRange, Setting.range]
        omega
      · rw [← hs₀]
        rfl
  | _ =>
      rw [Settings.get_loadViewMode_of_ne (by simp), hother (by simp), ← hs₀]
      rfl

/-- **When the settings stay in their ranges**: the conversion of the legacy value does not overflow
and every setting is in its range after the calls, if and only if the legacy seconds are at most
2147483 where they are used, and each setting was set by a call or is in range in the store. -/
theorem settings_in_range_iff (persist : Bool) (store : Store) (calls : List Call) :
    (∃ s, Settings.load persist store = some s ∧
      ∀ x, Setting.InRange x ((calls.foldl Call.apply s).get x)) ↔
    ¬Overflows store ∧ ∀ x, x ∈ calls.map Call.setting ∨ StoredInRange store x := by
  rcases load_cases persist store with ⟨hover, hload⟩ | ⟨hover, s, hload, hrange⟩
  · refine iff_of_false ?_ fun h => h.1 hover
    rintro ⟨s, hs, -⟩
    rw [hload] at hs
    cases hs
  · constructor
    · rintro ⟨s', hs', hall⟩
      obtain rfl : s = s' := Option.some.inj (hload.symm.trans hs')
      refine ⟨hover, fun x => ?_⟩
      rw [← hrange x, ← inRange_calls_iff]
      exact hall x
    · rintro ⟨-, hall⟩
      refine ⟨s, hload, fun x => ?_⟩
      rw [inRange_calls_iff, hrange x]
      exact hall x

/-! ### Runs -/

/-- A store with one entry. -/
def oneEntry (key : String) (v : QVariant) : Store := Function.update (fun _ => none) key.toList (some v)

/-- Of a stored text that is a larger number, the lower 32 bits are loaded. -/
example : variantToInt "4294967303".toList = 7 := by decide +kernel

/-- **Two stores the settings are loaded from out of range**: a poll interval of 5 ms stays, and
2147484 legacy seconds overflow. -/
theorem stored_values_unchecked :
    (∃ s, Settings.load true (oneEntry kPollIntervalMs (.string "5".toList)) = some s ∧
      s.get .pollIntervalMs = 5 ∧ ¬Setting.pollIntervalMs.InRange (s.get .pollIntervalMs)) ∧
    Settings.load true (oneEntry kRateSmoothingSecsLegacy (.string "2147484".toList)) = none :=
  ⟨⟨_, rfl, by decide +kernel, by decide +kernel⟩, Option.isNone_iff_eq_none.mp (by decide +kernel)⟩

end Qiftop.Config
