import Qiftop.Agent.AttributionHintManager
import Qiftop.Agent.Config

/-!
# Agent — the idle manager

`agent/IdleManager.cpp`: the agent polls at its active interval while clients call it, then in two
slower steps, then not at all.  Clients ask for a shorter interval, each under its bus name and for a
time.  The interval is handed to the monitors when it changes.

The clock, the readings a call makes of it and the book of the clients' hints are those of the
attribution hints.  Both timers of the manager are readings of the one clock: the hints' deadlines
count from its start, the idle time from the last activity.
-/

namespace Qiftop.Agent
open Qt Lib

/-- A cadence hint: an interval and when it ends. -/
abbrev CadenceHint := Lease Int

structure IdleManager where
  cfg : IdleConfig
  /-- When the last activity was. -/
  since : ℕ
  currentMs : Int := -1
  hints : Hash QString CadenceHint := ∅

/-- What an observer of the manager sees. -/
inductive IdleOutput where
  /-- A grant or a removal, by the call that made it. -/
  | entered (entry : QString × Option CadenceHint)
  /-- Activity, at this time. -/
  | noted (t : ℕ)
  /-- An interval handed to the monitors and announced by `cadenceChanged`. -/
  | applied (ms : Int)
  /-- The interval was chosen by the idle time at `t` and the hints at `now`. -/
  | evaluated (t : ℕ) (now : Int)

/-- The step of the ladder for an idle time. -/
def IdleConfig.ladder (cfg : IdleConfig) (elapsed active : Int) : Int :=
  if (cfg.idleTimeoutMs > 0 ∧ elapsed ≥ cfg.idleTimeoutMs) ∨
      (cfg.slow2WindowMs > 0 ∧ elapsed ≥ cfg.slow2WindowMs) then 0
  else if cfg.slow1WindowMs > 0 ∧ elapsed ≥ cfg.slow1WindowMs then max cfg.slow2IntervalMs active
  else if cfg.activeWindowMs > 0 ∧ elapsed ≥ cfg.activeWindowMs then max cfg.slow1IntervalMs active
  else active

namespace IdleManager

def effectiveActiveIntervalMs (m : IdleManager) (now : Int) : IdleManager × Int :=
  let hints := Lease.prune now m.hints
  ({ m with hints },
    max (hints.values.foldl (fun best h => min best h.value) m.cfg.activeIntervalMs)
      m.cfg.minIntervalMs)

/-- `applyInterval`, when the interval is a new one. -/
def retarget (m : IdleManager) (target : Int) : IdleManager × List IdleOutput :=
  if target ≠ m.currentMs then ({ m with currentMs := target }, [.applied target]) else (m, [])

/-- `evaluate`, at the idle time of `t` and the hints at `now`. -/
def evaluate (m : IdleManager) (t : ℕ) (now : Int) : IdleManager × List IdleOutput :=
  let elapsed := elapsedMs m.since t
  let r := m.effectiveActiveIntervalMs now
  let r := r.1.retarget (m.cfg.ladder elapsed r.2)
  (r.1, r.2 ++ [.evaluated t now])

def noteActivity (m : IdleManager) (t : ℕ) (now : Int) : IdleManager × List IdleOutput :=
  let m := { m with since := t }
  let r := m.effectiveActiveIntervalMs now
  let r := r.1.retarget r.2
  (r.1, .noted t :: r.2 ++ [.evaluated t now])

/-- Drops a sender's hint and evaluates if there was one. -/
def removeHint (m : IdleManager) (sender : QString) (t : ℕ) (now : Int) :
    IdleManager × List IdleOutput :=
  if sender ∈ m.hints then { m with hints := m.hints.erase sender }.evaluate t now else (m, [])

/-- `setClientHint`: the return value with the effects. -/
def setClientHint (m : IdleManager) (sender : QString) (ms : Int) (now : Int) (t : ℕ) (now' : Int) :
    IdleManager × Bool × List IdleOutput :=
  if sender = [] then (m, false, [])
  else if ms ≤ 0 then ((m.removeHint sender t now').1, true, (m.removeHint sender t now').2)
  else if sender ∉ m.hints ∧ m.hints.keys.length ≥ kMaxHints then (m, false, [])
  else
    let clamped := max ms m.cfg.minIntervalMs
    let exp := now + m.cfg.hintTtlMs
    let r := { m with hints := m.hints.insert sender ⟨clamped, exp⟩ }.evaluate t now'
    (r.1, true, r.2)

def onNameOwnerChanged (m : IdleManager) (name oldOwner newOwner : QString) (t : ℕ) (now : Int) :
    IdleManager × List IdleOutput :=
  if newOwner ≠ [] then (m, [])
  else if oldOwner = [] then (m, [])
  else m.removeHint name t now

end IdleManager

/-! ### Runs -/

/-- A client's call, a change of a name's owner, or the timer. -/
inductive IdleCall where
  | noteActivity
  | setClientHint (sender : QString) (ms : Int)
  | nameOwnerChanged (name oldOwner newOwner : QString)
  | timeout

/-- The calls after which the manager chooses an interval: activity, the timer, a hint there is room for, and
the end of a hint that the table has. -/
def IdleCall.Evaluates (m : IdleManager) : IdleCall → Prop
  | .noteActivity => True
  | .setClientHint sender ms => sender ≠ [] ∧
      if ms ≤ 0 then sender ∈ m.hints else sender ∈ m.hints ∨ m.hints.keys.length < kMaxHints
  | .nameOwnerChanged name oldOwner newOwner => newOwner = [] ∧ oldOwner ≠ [] ∧ name ∈ m.hints
  | .timeout => True

/-- The manager and the clock. -/
structure IdleSystem where
  manager : IdleManager
  now : ℕ

namespace IdleSystem

/-- The constructor: the clock starts, then the idle time, then the active interval is applied. -/
def create (cfg : IdleConfig) (w : Waits) : IdleSystem × List IdleOutput :=
  let t := w.first
  let now := t + w.second
  let r := IdleManager.effectiveActiveIntervalMs { cfg, since := t } (elapsedMs 0 now)
  ({ manager := { r.1 with currentMs := r.2 }, now },
    [.noted t, .applied r.2, .evaluated t (elapsedMs 0 now)])

/-- What a client's hint enters in the book. -/
def entries (cfg : IdleConfig) (sender : QString) (ms now : Int) : QString × Option CadenceHint :=
  (sender, if ms ≤ 0 then none else some ⟨max ms cfg.minIntervalMs, now + cfg.hintTtlMs⟩)

/-- One call at times `t ≤ t' ≤ t''`, with what it enters in the book. -/
def call (m : IdleManager) (c : IdleCall) (t t' t'' : ℕ) : IdleManager × List IdleOutput :=
  match c with
  | .noteActivity => m.noteActivity t' (elapsedMs 0 t'')
  | .setClientHint sender ms =>
      let r := m.setClientHint sender ms (elapsedMs 0 t) t' (elapsedMs 0 t'')
      (r.1, (if r.2.1 then [.entered (entries m.cfg sender ms (elapsedMs 0 t))] else []) ++ r.2.2)
  | .nameOwnerChanged name oldOwner newOwner =>
      let r := m.onNameOwnerChanged name oldOwner newOwner t' (elapsedMs 0 t'')
      (r.1, (if newOwner = [] ∧ oldOwner ≠ [] then [.entered (name, none)] else []) ++ r.2)
  | .timeout => m.evaluate t' (elapsedMs 0 t'')

def step (s : IdleSystem) (c : IdleCall × Waits) : IdleSystem × List IdleOutput :=
  let t₁ := s.now + c.2.first
  let t₂ := t₁ + c.2.second
  let t₃ := t₂ + c.2.third
  let r := call s.manager c.1 t₁ t₂ t₃
  ({ manager := r.1, now := t₃ }, r.2)

/-- A run from the constructor on. -/
def runFrom (cfg : IdleConfig) (w : Waits) (calls : List (IdleCall × Waits)) :
    IdleSystem × List IdleOutput :=
  let r := run step (create cfg w).1 calls
  (r.1, (create cfg w).2 ++ r.2)

end IdleSystem

/-- The grants and removals among the outputs. -/
def cadenceHistory (outs : List IdleOutput) : List (QString × Option CadenceHint) :=
  outs.filterMap fun
    | .entered e => some e
    | _ => none

/-- The intervals applied. -/
def applied (outs : List IdleOutput) : List Int :=
  outs.filterMap fun
    | .applied ms => some ms
    | _ => none

/-- The times of activity. -/
def activity (outs : List IdleOutput) : List ℕ :=
  outs.filterMap fun
    | .noted t => some t
    | _ => none

@[simp] theorem cadenceHistory_append (outs outs' : List IdleOutput) :
    cadenceHistory (outs ++ outs') = cadenceHistory outs ++ cadenceHistory outs' :=
  List.filterMap_append

@[simp] theorem applied_append (outs outs' : List IdleOutput) :
    applied (outs ++ outs') = applied outs ++ applied outs' :=
  List.filterMap_append

@[simp] theorem activity_append (outs outs' : List IdleOutput) :
    activity (outs ++ outs') = activity outs ++ activity outs' :=
  List.filterMap_append

/-- **What the active interval is to be**: the shortest of the configured one and the hints held, but
no shorter than the floor. -/
def ActiveInterval (cfg : IdleConfig) (held : Lease.Book QString Int) (now active : Int) : Prop :=
  ∃ best, IsLeast (insert cfg.activeIntervalMs
      { ms | ∃ sender, ∃ h, Lease.LiveAt held now sender h ∧ h.value = ms }) best ∧
    active = max best cfg.minIntervalMs

/-! ### Choosing an interval -/

/-- Without idle time the ladder is at its first step. -/
theorem IdleConfig.ladder_zero (cfg : IdleConfig) (active : Int) : cfg.ladder 0 active = active := by
  rw [ladder, if_neg (by omega), if_neg (by omega), if_neg (by omega)]

/-- Every step but the pause is at least as long as the active interval. -/
theorem IdleConfig.ladder_eq_zero_or_le (cfg : IdleConfig) (elapsed active : Int) :
    cfg.ladder elapsed active = 0 ∨ active ≤ cfg.ladder elapsed active := by
  unfold ladder
  split
  · exact .inl rfl
  · split
    · exact .inr (le_max_right _ _)
    · split
      · exact .inr (le_max_right _ _)
      · exact .inr le_rfl

theorem foldl_min_isLeast (hints : List CadenceHint) (a : Int) :
    IsLeast (insert a { ms | ∃ h ∈ hints, h.value = ms })
      (hints.foldl (fun best h => min best h.value) a) := by
  induction hints generalizing a with
  | nil => simp
  | cons h hints ih =>
      obtain ⟨hmem, hlow⟩ := ih (min a h.value)
      refine ⟨?_, ?_⟩
      · rcases hmem with hmem | ⟨h', hh', hv⟩
        · rw [List.foldl_cons, hmem]
          rcases min_choice a h.value with e | e
          · exact .inl e
          · exact .inr ⟨h, List.mem_cons_self, e.symm⟩
        · exact .inr ⟨h', List.mem_cons_of_mem _ hh', hv⟩
      · rintro ms (rfl | ⟨h', hh', rfl⟩)
        · exact (hlow (.inl rfl)).trans (min_le_left _ _)
        · rcases List.mem_cons.mp hh' with rfl | hh'
          · exact (hlow (.inl rfl)).trans (min_le_right _ _)
          · exact hlow (.inr ⟨h', hh', rfl⟩)

/-- The intervals applied by a change to `ms`. -/
def changeTo (before ms : Int) : List Int := if ms = before then [] else [ms]

/-- What choosing an interval leaves: a table that follows the book, and the ladder's interval. -/
structure Chosen (m m' : IdleManager) (outs : List IdleOutput) (t : ℕ) (now : Int)
    (held : Lease.Book QString Int) : Prop where
  cfg : m'.cfg = m.cfg
  since : m'.since = ((activity outs).getLast?).getD m.since
  follows : Lease.Tracks now m'.hints held
  bounded : m'.hints.keys.length ≤ m.hints.keys.length
  current : ∃ active, ActiveInterval m.cfg held now active ∧
    m'.currentMs = m.cfg.ladder (elapsedMs m'.since t) active
  applied : applied outs = changeTo m.currentMs m'.currentMs
  history : cadenceHistory outs = []
  reading : ∀ t' now', .evaluated t' now' ∈ outs → t' = t ∧ now' = now

/-- A chosen interval suspends the monitors or is one they may have. -/
theorem Chosen.floor {m m' : IdleManager} {outs : List IdleOutput} {t : ℕ} {now : Int}
    {held : Lease.Book QString Int} (h : Chosen m m' outs t now held) :
    ∀ ms ∈ changeTo m.currentMs m'.currentMs, ms = 0 ∨ m.cfg.minIntervalMs ≤ ms := by
  intro ms hms
  unfold changeTo at hms
  split at hms
  · cases hms
  · obtain rfl := List.mem_singleton.mp hms
    obtain ⟨active, ⟨best, -, rfl⟩, hcur⟩ := h.current
    have hladder := IdleConfig.ladder_eq_zero_or_le m.cfg (elapsedMs m'.since t)
      (max best m.cfg.minIntervalMs)
    rw [← hcur] at hladder
    exact hladder.imp_right ((le_max_right _ _).trans ·)

namespace IdleManager
variable {m : IdleManager} {now : Int} {held : Lease.Book QString Int}

theorem effectiveActiveIntervalMs_spec (h : Lease.Tracks now m.hints held) :
    ActiveInterval m.cfg held now (m.effectiveActiveIntervalMs now).2 := by
  refine ⟨_, ?_, rfl⟩
  have hset : { ms | ∃ h ∈ (Lease.prune now m.hints).values, h.value = ms } =
      { ms | ∃ sender, ∃ h, Lease.LiveAt held now sender h ∧ h.value = ms } := by
    ext ms
    simp only [Set.mem_ofPred_eq, Hash.mem_values_iff, h.lookup_prune_iff]
    constructor
    · rintro ⟨l, ⟨sender, hl⟩, hv⟩
      exact ⟨sender, l, hl, hv⟩
    · rintro ⟨sender, l, hl, hv⟩
      exact ⟨l, ⟨sender, hl⟩, hv⟩
  rw [← hset]
  exact foldl_min_isLeast _ _

theorem retarget_spec (m : IdleManager) (target : Int) :
    (m.retarget target).1 = { m with currentMs := target } ∧
      applied (m.retarget target).2 = changeTo m.currentMs target ∧
      cadenceHistory (m.retarget target).2 = [] ∧ activity (m.retarget target).2 = [] ∧
      ∀ t now, .evaluated t now ∉ (m.retarget target).2 := by
  unfold retarget changeTo
  by_cases h : target = m.currentMs
  · subst h
    simp [Agent.applied, cadenceHistory, activity]
  · simp [h, Agent.applied, cadenceHistory, activity]

theorem evaluate_spec (h : Lease.Tracks now m.hints held) (t : ℕ) :
    Chosen m (m.evaluate t now).1 (m.evaluate t now).2 t now held := by
  have hactive := effectiveActiveIntervalMs_spec h
  obtain ⟨hm, happ, hhist, hact, hread⟩ :=
    (m.effectiveActiveIntervalMs now).1.retarget_spec
      (m.cfg.ladder (elapsedMs m.since t) (m.effectiveActiveIntervalMs now).2)
  unfold evaluate
  dsimp only
  rw [hm]
  refine ⟨rfl, ?_, h.prune le_rfl, Lease.size_prune_le _ _, ⟨_, hactive, rfl⟩, ?_, ?_, ?_⟩
  · rw [activity_append, hact]; rfl
  · rw [applied_append, happ]; exact List.append_nil _
  · rw [cadenceHistory_append, hhist]; rfl
  · intro t' now' hmem
    rw [List.mem_append] at hmem
    rcases hmem with hmem | hmem
    · exact absurd hmem (hread t' now')
    · simpa using hmem

/-- Activity restarts the idle time and chooses by it. -/
theorem noteActivity_eq (m : IdleManager) (t : ℕ) (now : Int) :
    m.noteActivity t now =
      ((evaluate { m with since := t } t now).1,
        .noted t :: (evaluate { m with since := t } t now).2) := by
  have h0 : elapsedMs t t = 0 := by simp [elapsedMs]
  unfold noteActivity evaluate
  dsimp only
  rw [h0, IdleConfig.ladder_zero]
  rfl

theorem noteActivity_spec (h : Lease.Tracks now m.hints held) (t : ℕ) :
    Chosen m (m.noteActivity t now).1 (m.noteActivity t now).2 t now held := by
  rw [noteActivity_eq]
  have hc := evaluate_spec (m := { m with since := t }) h t
  refine ⟨hc.cfg, ?_, hc.follows, hc.bounded, hc.current, hc.applied, hc.history, ?_⟩
  · have hcons : ∀ outs, activity (.noted t :: outs) = t :: activity outs := fun _ => rfl
    rw [hc.since, hcons, List.getLast?_cons]
    rfl
  · intro t' now' hmem
    exact hc.reading t' now' (by simpa using hmem)

/-- The test `setClientHint` makes is that of a bounded table. -/
theorem refuses_iff (m : IdleManager) (sender : QString) :
    (sender ∉ m.hints ∧ m.hints.keys.length ≥ kMaxHints) ↔
      Lease.admits kMaxHints m.hints sender = false := by
  simp [Lease.admits]

end IdleManager

/-! ### One step -/

namespace IdleSystem

/-- A call enters something in the book; then it chooses an interval, or leaves the manager as it
was. -/
inductive Effect (m : IdleManager) (now : Int) (t' t'' : ℕ) (held : Lease.Book QString Int) :
    IdleManager × List IdleOutput → Prop
  | quiet (entries : List (QString × Option CadenceHint))
      (follows : Lease.Tracks now m.hints (entries.foldl Lease.Book.enter held)) :
      Effect m now t' t'' held (m, entries.map .entered)
  | chooses (entries : List (QString × Option CadenceHint)) (hints : Hash QString CadenceHint)
      {m' : IdleManager} {outs : List IdleOutput} (bounded : hints.keys.length ≤ kMaxHints)
      (spec : Chosen { m with hints } m' outs t' (elapsedMs 0 t'')
        (entries.foldl Lease.Book.enter held)) :
      Effect m now t' t'' held (m', entries.map .entered ++ outs)

section Effects
variable {m : IdleManager} {t t' t'' : ℕ} {held : Lease.Book QString Int}

theorem removeHint_effect (hle : elapsedMs 0 t ≤ elapsedMs 0 t'')
    (h : Lease.Tracks (elapsedMs 0 t) m.hints held) (hcap : m.hints.keys.length ≤ kMaxHints)
    (sender : QString) :
    Effect m (elapsedMs 0 t) t' t'' held ((m.removeHint sender t' (elapsedMs 0 t'')).1,
      .entered (sender, none) :: (m.removeHint sender t' (elapsedMs 0 t'')).2) := by
  unfold IdleManager.removeHint
  split
  · exact .chooses [(sender, none)] (m.hints.erase sender)
      ((Lease.size_erase_le _ _).trans hcap)
      (IdleManager.evaluate_spec ((h.mono hle).erase sender) t')
  · next hk => exact .quiet [(sender, none)] (h.enter_none hk)

/-- What one call does. -/
theorem call_effect (hle : elapsedMs 0 t ≤ elapsedMs 0 t'')
    (h : Lease.Tracks (elapsedMs 0 t) m.hints held) (hcap : m.hints.keys.length ≤ kMaxHints)
    (c : IdleCall) : Effect m (elapsedMs 0 t) t' t'' held (call m c t t' t'') := by
  cases c with
  | noteActivity => exact .chooses [] m.hints hcap (IdleManager.noteActivity_spec (h.mono hle) t')
  | setClientHint sender ms =>
      unfold call IdleManager.setClientHint
      by_cases hs : sender = []
      · simp only [hs, if_true]
        exact .quiet [] h
      · by_cases hms : ms ≤ 0
        · simp only [hs, hms, if_false, if_true, entries]
          exact removeHint_effect hle h hcap sender
        · by_cases hfull : sender ∉ m.hints ∧ m.hints.keys.length ≥ kMaxHints
          · simp only [hs, hms, if_false, if_pos hfull]
            exact .quiet [] h
          · simp only [hs, hms, if_false, if_neg hfull, if_true, entries]
            rw [IdleManager.refuses_iff, Bool.not_eq_false] at hfull
            exact .chooses [(sender, some ⟨max ms m.cfg.minIntervalMs,
                elapsedMs 0 t + m.cfg.hintTtlMs⟩)] (m.hints.insert sender _)
              (Lease.size_insert_le hcap hfull _)
              (IdleManager.evaluate_spec ((h.mono hle).insert sender _) t')
  | nameOwnerChanged name oldOwner newOwner =>
      unfold call IdleManager.onNameOwnerChanged
      by_cases hn : newOwner = []
      · by_cases ho : oldOwner = []
        · simp only [hn, ho, ne_eq, not_true, if_false, if_true, and_false]
          exact .quiet [] h
        · simp only [hn, ho, ne_eq, not_true, if_false, not_false_eq_true, and_self, if_true]
          exact removeHint_effect hle h hcap name
      · simp only [hn, ne_eq, not_false_eq_true, if_true, false_and, if_false]
        exact .quiet [] h
  | timeout => exact .chooses [] m.hints hcap (IdleManager.evaluate_spec (h.mono hle) t')

end Effects

/-- **The invariant of a run**: the table is bounded and follows the book of the calls; the idle time
counts from the last activity; the interval remembered is the one last applied, which is `0` or not
below the floor, and no interval is applied twice in a row. -/
structure Tracked (cfg : IdleConfig) (s : IdleSystem) (outs : List IdleOutput) : Prop where
  config : s.manager.cfg = cfg
  follows : Lease.Tracks (elapsedMs 0 s.now) s.manager.hints (Lease.book (cadenceHistory outs))
  bounded : s.manager.hints.keys.length ≤ kMaxHints
  since : (activity outs).getLast? = some s.manager.since
  last : (applied outs).getLast? = some s.manager.currentMs
  floor : ∀ ms ∈ applied outs, ms = 0 ∨ cfg.minIntervalMs ≤ ms
  changes : (applied outs).IsChain (· ≠ ·)

theorem map_entered (entries : List (QString × Option CadenceHint)) :
    cadenceHistory (entries.map .entered) = entries ∧ applied (entries.map .entered) = [] ∧
      activity (entries.map .entered) = [] := by
  induction entries with
  | nil => exact ⟨rfl, rfl, rfl⟩
  | cons e entries ih => exact ⟨congrArg (e :: ·) ih.1, ih.2.1, ih.2.2⟩

theorem create_tracked (cfg : IdleConfig) (w : Waits) :
    Tracked cfg (create cfg w).1 (create cfg w).2 where
  config := rfl
  follows := (Lease.Tracks.empty _).prune le_rfl
  bounded := Nat.zero_le _
  since := rfl
  last := rfl
  floor ms hms := by
    obtain rfl : ms = _ := List.mem_singleton.mp hms
    exact .inr (le_max_right _ _)
  changes := List.isChain_singleton _

/-- The readings of a call, in order. -/
theorem readings_le (s : IdleSystem) (w : Waits) :
    elapsedMs 0 s.now ≤ elapsedMs 0 (s.now + w.first) ∧
      elapsedMs 0 (s.now + w.first) ≤ elapsedMs 0 (s.now + w.first + w.second + w.third) :=
  ⟨elapsedMs_mono 0 (by omega), elapsedMs_mono 0 (by omega)⟩

/-- What one step does. -/
theorem step_effect {cfg : IdleConfig} {s : IdleSystem} {outs : List IdleOutput}
    (h : Tracked cfg s outs) (c : IdleCall × Waits) :
    Effect s.manager (elapsedMs 0 (s.now + c.2.first)) (s.now + c.2.first + c.2.second)
      (step s c).1.now (Lease.book (cadenceHistory outs)) ((step s c).1.manager, (step s c).2) := by
  obtain ⟨hle, hle'⟩ := readings_le s c.2
  exact call_effect hle' (h.follows.mono hle) h.bounded c.1

/-- One call keeps the invariant. -/
theorem step_tracked {cfg : IdleConfig} {s : IdleSystem} {outs : List IdleOutput}
    (h : Tracked cfg s outs) (c : IdleCall × Waits) :
    Tracked cfg (step s c).1 (outs ++ (step s c).2) := by
  have hle' := (readings_le s c.2).2
  have hnow : (step s c).1.now = s.now + c.2.first + c.2.second + c.2.third := rfl
  have heff := step_effect h c
  rw [← hnow] at hle'
  generalize step s c = r at heff hle' ⊢
  obtain ⟨⟨m', now'⟩, outs'⟩ := r
  dsimp only at heff hle' ⊢
  cases heff with
  | quiet entries follows =>
      obtain ⟨hhist, happ, hact⟩ := map_entered entries
      refine ⟨h.config, ?_, h.bounded, ?_, ?_, ?_, ?_⟩
      · rw [cadenceHistory_append, hhist, Lease.book_append]
        exact follows.mono hle'
      · rw [activity_append, hact, List.append_nil]; exact h.since
      all_goals rw [applied_append, happ, List.append_nil]
      · exact h.last
      · exact h.floor
      · exact h.changes
  | @chooses entries hints _ outs'' bounded spec =>
      obtain ⟨hhist, happ, hact⟩ := map_entered entries
      have hcfg : s.manager.cfg = cfg := h.config
      obtain ⟨hlast, hchanges⟩ := changes_append h.last h.changes m'.currentMs
      refine ⟨spec.cfg.trans hcfg, ?_, spec.bounded.trans bounded, ?_, ?_, ?_, ?_⟩
      · rw [cadenceHistory_append, cadenceHistory_append, hhist, spec.history, List.append_nil,
          Lease.book_append]
        exact spec.follows
      · rw [activity_append, activity_append, hact, List.nil_append, List.getLast?_append, h.since,
          spec.since]
        cases (activity outs'').getLast? <;> rfl
      all_goals rw [applied_append, applied_append, happ, List.nil_append, spec.applied]
      · exact hlast
      · intro ms hms
        rcases List.mem_append.mp hms with hms | hms
        · exact h.floor ms hms
        · exact hcfg ▸ spec.floor ms hms
      · exact hchanges

/-- Every run keeps the invariant. -/
theorem run_tracked (cfg : IdleConfig) (w : Waits) (calls : List (IdleCall × Waits)) :
    Tracked cfg (runFrom cfg w calls).1 (runFrom cfg w calls).2 :=
  run_trace_invariant (Tracked cfg) (fun _ _ e h => step_tracked h e) (create cfg w).2
    (create_tracked cfg w) calls

end IdleSystem
end Qiftop.Agent
