import Mathlib.Data.List.Chain
import Mathlib.Order.Bounds.Basic
import Qiftop.Backend.ResolverTuning
import Qiftop.Lib.Lease
import Qiftop.Lib.Run

/-!
# Agent — attribution hints

`agent/AttributionHintManager.cpp`: clients ask for a mode of attribution, each under its bus name and
for a time; the manager announces the mode that results whenever it changes.

Time is a monotonic clock in nanoseconds, which a call reads up to three times and which may advance
before each reading (`Waits`), so every list of calls is a run under a clock that does not go back.
A reading is in milliseconds, as `QElapsedTimer::elapsed` gives it.

What clients asked for is the `book` of the calls and their return values alone; the table, which
prunes when it happens to be evaluated, follows it (`Tracked`).
-/

namespace Qiftop.Agent
open Qt Lib Backend

/-! ### The clock -/

/-- `QElapsedTimer::elapsed`, from readings of the clock in nanoseconds. -/
def elapsedMs (start now : ℕ) : Int := ((now - start) / 1000000 : ℕ)

theorem elapsedMs_mono (start : ℕ) {now later : ℕ} (h : now ≤ later) :
    elapsedMs start now ≤ elapsedMs start later := by
  have : (now - start) / 1000000 ≤ (later - start) / 1000000 :=
    Nat.div_le_div_right (Nat.sub_le_sub_right h start)
  exact Int.ofNat_le.mpr this

/-- How far the clock advances before each reading of a call. -/
structure Waits where
  first : ℕ := 0
  second : ℕ := 0
  third : ℕ := 0

/-- Both hint tables hold at most this many senders. -/
def kMaxHints : ℕ := 64

/-! ### The manager -/

/-- A hint: a mode and when it ends. -/
abbrev Hint := Lease AttributionEagerness

structure AttributionHintManager where
  configMode : AttributionEagerness
  hintTtlMs : Int
  lastEmitted : AttributionEagerness
  hints : Hash QString Hint := ∅

/-- What an observer of the manager sees. -/
inductive HintOutput where
  /-- A grant or a removal, by the call that made it. -/
  | entered (entry : QString × Option Hint)
  /-- The hints were evaluated, the effective mode at this reading. -/
  | evaluated (now : Int)
  /-- `effectiveModeChanged`. -/
  | effectiveModeChanged (mode : AttributionEagerness)

namespace AttributionHintManager

def create (configMode : AttributionEagerness) (hintTtlMs : Int) : AttributionHintManager where
  configMode
  hintTtlMs := max 1 hintTtlMs
  lastEmitted := configMode

/-- The most eager of the hints that have not ended, if there is one. -/
def best (now : Int) (hints : List Hint) : Option AttributionEagerness :=
  hints.foldl (fun best h =>
    if h.expiresAtMs ≤ now then best else some (best.elim h.value (max · h.value))) none

def effectiveMode (m : AttributionHintManager) (now : Int) : AttributionEagerness :=
  if m.configMode = .Off then .Off
  else (best now m.hints.values).getD m.configMode

/-- `evaluate`, pruning at the reading `now` and computing the mode at the reading `now'`. -/
def evaluate (m : AttributionHintManager) (now now' : Int) :
    AttributionHintManager × List HintOutput :=
  let m := { m with hints := Lease.prune now m.hints }
  let eff := m.effectiveMode now'
  if eff ≠ m.lastEmitted then
    ({ m with lastEmitted := eff }, [.evaluated now', .effectiveModeChanged eff])
  else (m, [.evaluated now'])

/-- `setHint`: the return value with the effects. -/
def setHint (m : AttributionHintManager) (sender : QString) (mode : AttributionEagerness)
    (now now' now'' : Int) : AttributionHintManager × Bool × List HintOutput :=
  if sender = [] then (m, false, [])
  else if sender ∉ m.hints ∧ m.hints.keys.length ≥ kMaxHints then (m, false, [])
  else
    let exp := now + m.hintTtlMs
    let r := { m with hints := m.hints.insert sender ⟨mode, exp⟩ }.evaluate now' now''
    (r.1, true, r.2)

/-- Drops a sender's hint and evaluates if there was one. -/
def removeHint (m : AttributionHintManager) (sender : QString) (now now' : Int) :
    AttributionHintManager × List HintOutput :=
  if sender ∈ m.hints then { m with hints := m.hints.erase sender }.evaluate now now' else (m, [])

def clearHint (m : AttributionHintManager) (sender : QString) (now now' : Int) :
    AttributionHintManager × Bool × List HintOutput :=
  if sender = [] then (m, false, [])
  else ((m.removeHint sender now now').1, true, (m.removeHint sender now now').2)

def onNameOwnerChanged (m : AttributionHintManager) (name oldOwner newOwner : QString)
    (now now' : Int) : AttributionHintManager × List HintOutput :=
  if newOwner ≠ [] then (m, [])
  else if oldOwner = [] then (m, [])
  else m.removeHint name now now'

end AttributionHintManager

/-! ### Runs -/

/-- A client's call, a change of a name's owner, or the prune timer. -/
inductive HintCall where
  | setHint (sender : QString) (mode : AttributionEagerness)
  | clearHint (sender : QString)
  | nameOwnerChanged (name oldOwner newOwner : QString)
  | timeout

/-- The calls after which the manager evaluates: the timer, a hint there is room for, and the end of a hint
that the table has. -/
def HintCall.Evaluates (m : AttributionHintManager) : HintCall → Prop
  | .setHint sender _ => sender ≠ [] ∧ (sender ∈ m.hints ∨ m.hints.keys.length < kMaxHints)
  | .clearHint sender => sender ≠ [] ∧ sender ∈ m.hints
  | .nameOwnerChanged name oldOwner newOwner => newOwner = [] ∧ oldOwner ≠ [] ∧ name ∈ m.hints
  | .timeout => True

/-- The manager and the clock, in nanoseconds since the manager's timer was started. -/
structure HintSystem where
  manager : AttributionHintManager
  now : ℕ := 0

namespace HintSystem

def create (configMode : AttributionEagerness) (hintTtlMs : Int) : HintSystem where
  manager := .create configMode hintTtlMs

/-- One call at readings `now ≤ now' ≤ now''`, with what it enters in the book. -/
def call (m : AttributionHintManager) (c : HintCall) (now now' now'' : Int) :
    AttributionHintManager × List HintOutput :=
  match c with
  | .setHint sender mode =>
      let r := m.setHint sender mode now now' now''
      (r.1, (if r.2.1 then [.entered (sender, some ⟨mode, now + m.hintTtlMs⟩)] else []) ++ r.2.2)
  | .clearHint sender =>
      let r := m.clearHint sender now' now''
      (r.1, (if r.2.1 then [.entered (sender, none)] else []) ++ r.2.2)
  | .nameOwnerChanged name oldOwner newOwner =>
      let r := m.onNameOwnerChanged name oldOwner newOwner now' now''
      (r.1, (if newOwner = [] ∧ oldOwner ≠ [] then [.entered (name, none)] else []) ++ r.2)
  | .timeout => m.evaluate now' now''

def step (s : HintSystem) (c : HintCall × Waits) : HintSystem × List HintOutput :=
  let t₁ := s.now + c.2.first
  let t₂ := t₁ + c.2.second
  let t₃ := t₂ + c.2.third
  let r := call s.manager c.1 (elapsedMs 0 t₁) (elapsedMs 0 t₂) (elapsedMs 0 t₃)
  ({ manager := r.1, now := t₃ }, r.2)

end HintSystem

/-- The grants and removals among the outputs. -/
def history (outs : List HintOutput) : List (QString × Option Hint) :=
  outs.filterMap fun
    | .entered e => some e
    | _ => none

/-- The modes announced. -/
def announced (outs : List HintOutput) : List AttributionEagerness :=
  outs.filterMap fun
    | .effectiveModeChanged mode => some mode
    | _ => none

@[simp] theorem history_append (outs outs' : List HintOutput) :
    history (outs ++ outs') = history outs ++ history outs' :=
  List.filterMap_append

@[simp] theorem announced_append (outs outs' : List HintOutput) :
    announced (outs ++ outs') = announced outs ++ announced outs' :=
  List.filterMap_append

/-- **What the effective mode is to be**: `Off` if the configuration says so; else the most eager of
the hints held at `now`; without a hint, the configured mode. -/
def EffectiveMode (configMode : AttributionEagerness) (held : Lease.Book QString AttributionEagerness)
    (now : Int) (mode : AttributionEagerness) : Prop :=
  if configMode = .Off then mode = .Off
  else IsGreatest { m | ∃ sender, ∃ h, Lease.LiveAt held now sender h ∧ h.value = m } mode ∨
    (∀ sender h, ¬ Lease.LiveAt held now sender h) ∧ mode = configMode

/-! ### The effective mode -/

namespace AttributionHintManager

theorem best_foldl (now : Int) (hints : List Hint) (acc : Option AttributionEagerness) :
    hints.foldl (fun best h =>
        if h.expiresAtMs ≤ now then best else some (best.elim h.value (max · h.value))) acc =
      (acc.toList ++ (hints.filter fun h => now < h.expiresAtMs).map Lease.value).max? := by
  induction hints generalizing acc with
  | nil => cases acc <;> rfl
  | cons h hints ih =>
      rw [List.foldl_cons, ih, List.filter_cons]
      by_cases hh : h.expiresAtMs ≤ now
      · rw [if_pos hh, if_neg (by simpa using hh)]
      · rw [if_neg hh, if_pos (by simpa using hh), List.map_cons]
        cases acc with
        | none => rfl
        | some a => rfl

theorem best_eq (now : Int) (hints : List Hint) :
    best now hints = ((hints.filter fun h => now < h.expiresAtMs).map Lease.value).max? :=
  best_foldl now hints none

/-- The hints of a table that tracks a book, read at `now`, give the mode the book's hints give. -/
theorem effectiveMode_spec {m : AttributionHintManager} {now : Int}
    {held : Lease.Book QString AttributionEagerness} (h : Lease.Tracks now m.hints held) :
    EffectiveMode m.configMode held now (m.effectiveMode now) := by
  rw [EffectiveMode, effectiveMode]
  split
  · rfl
  · have hset : ∀ mode, mode ∈ (m.hints.values.filter fun h => now < h.expiresAtMs).map Lease.value ↔
        ∃ sender, ∃ h, Lease.LiveAt held now sender h ∧ h.value = mode := by
      intro mode
      simp only [List.mem_map, List.mem_filter, Hash.mem_values_iff, decide_eq_true_eq]
      constructor
      · rintro ⟨l, ⟨⟨sender, hl⟩, hlt⟩, rfl⟩
        exact ⟨sender, l, h.live_iff.mpr ⟨hl, hlt⟩, rfl⟩
      · rintro ⟨sender, l, hl, rfl⟩
        obtain ⟨hl, hlt⟩ := h.live_iff.mp hl
        exact ⟨l, ⟨⟨sender, hl⟩, hlt⟩, rfl⟩
    rw [best_eq]
    cases hb : ((m.hints.values.filter fun h => now < h.expiresAtMs).map Lease.value).max? with
    | none =>
        refine .inr ⟨fun sender l hl => ?_, rfl⟩
        have := (hset l.value).mpr ⟨sender, l, hl, rfl⟩
        rw [List.max?_eq_none_iff.mp hb] at this
        cases this
    | some b =>
        obtain ⟨hmem, hub⟩ := List.max?_eq_some_iff.mp hb
        refine .inl ⟨(hset b).mp hmem, fun mode hmode => ?_⟩
        exact hub mode ((hset mode).mpr hmode)

/-- Without a hint the effective mode is the configured one. -/
theorem effectiveMode_of_empty {m : AttributionHintManager} (h : m.hints.keys = []) (now : Int) :
    m.effectiveMode now = m.configMode := by
  have hvalues : m.hints.values = [] := by
    rw [AList.keys, List.keys, List.map_eq_nil_iff] at h
    rw [Hash.values, h]
    rfl
  rw [effectiveMode, hvalues]
  split
  · next hoff => exact hoff.symm
  · rfl

end AttributionHintManager

/-- Without a live hint the mode is to be the configured one. -/
theorem EffectiveMode.eq_config {configMode mode : AttributionEagerness}
    {held : Lease.Book QString AttributionEagerness} {now : Int}
    (h : EffectiveMode configMode held now mode)
    (hnone : ∀ sender l, ¬ Lease.LiveAt held now sender l) : mode = configMode := by
  unfold EffectiveMode at h
  split at h
  · next hoff => rw [h, hoff]
  · rcases h with ⟨⟨sender, l, hl, -⟩, -⟩ | ⟨-, h⟩
    · exact absurd hl (hnone sender l)
    · exact h

/-! ### One step -/

/-- **The invariant of a run**: the table is bounded and follows the book of the calls; the mode last
announced is the one remembered, no mode is announced twice in a row, and none at all when the
configuration is `Off`. -/
structure Tracked (configMode : AttributionEagerness) (s : HintSystem) (outs : List HintOutput) :
    Prop where
  config : s.manager.configMode = configMode
  ttl : 0 < s.manager.hintTtlMs
  follows : Lease.Tracks (elapsedMs 0 s.now) s.manager.hints (Lease.book (history outs))
  bounded : s.manager.hints.keys.length ≤ kMaxHints
  last : (configMode :: announced outs).getLast? = some s.manager.lastEmitted
  changes : (configMode :: announced outs).IsChain (· ≠ ·)
  off : configMode = .Off → announced outs = []

/-- What an evaluation leaves: a table that follows the book, and the right mode announced. -/
structure Evaluated (m m' : AttributionHintManager) (outs : List HintOutput) (now : Int)
    (held : Lease.Book QString AttributionEagerness) : Prop where
  config : m'.configMode = m.configMode
  ttl : m'.hintTtlMs = m.hintTtlMs
  follows : Lease.Tracks now m'.hints held
  bounded : m'.hints.keys.length ≤ m.hints.keys.length
  last : m'.lastEmitted = m'.effectiveMode now
  announced : announced outs = if m'.lastEmitted = m.lastEmitted then [] else [m'.lastEmitted]
  history : history outs = []
  reading : ∀ t, .evaluated t ∈ outs → t = now

namespace AttributionHintManager

theorem evaluate_spec {m : AttributionHintManager} {now now' : Int}
    {held : Lease.Book QString AttributionEagerness} (hle : now ≤ now')
    (h : Lease.Tracks now m.hints held) :
    Evaluated m (m.evaluate now now').1 (m.evaluate now now').2 now' held := by
  have follows := (h.prune le_rfl).mono hle
  have bounded := Lease.size_prune_le now m.hints
  unfold evaluate
  dsimp only
  split
  · next hne =>
      exact ⟨rfl, rfl, follows, bounded, rfl, by simp [Agent.announced, hne], rfl, by simp⟩
  · next heq =>
      exact ⟨rfl, rfl, follows, bounded, (not_not.mp heq).symm, by simp [Agent.announced], rfl, by simp⟩

theorem evaluate_hints (m : AttributionHintManager) (now now' : Int) :
    (m.evaluate now now').1.hints = Lease.prune now m.hints := by
  unfold evaluate
  dsimp only
  split <;> rfl

theorem evaluated_mem_evaluate (m : AttributionHintManager) (now now' : Int) :
    .evaluated now' ∈ (m.evaluate now now').2 := by
  unfold evaluate
  dsimp only
  split <;> exact List.mem_cons_self

/-- The test `setHint` makes is that of a bounded table. -/
theorem refuses_iff (m : AttributionHintManager) (sender : QString) :
    (sender ∉ m.hints ∧ m.hints.keys.length ≥ kMaxHints) ↔
      Lease.admits kMaxHints m.hints sender = false := by
  simp [Lease.admits]

end AttributionHintManager

namespace HintSystem

/-- A call enters something in the book; then it evaluates, or leaves the manager as it was. -/
inductive Effect (m : AttributionHintManager) (now now'' : Int)
    (held : Lease.Book QString AttributionEagerness) :
    AttributionHintManager × List HintOutput → Prop
  | quiet (entries : List (QString × Option Hint))
      (follows : Lease.Tracks now m.hints (entries.foldl Lease.Book.enter held)) :
      Effect m now now'' held (m, entries.map .entered)
  | evaluates (entries : List (QString × Option Hint)) (hints : Hash QString Hint)
      {m' : AttributionHintManager} {outs : List HintOutput}
      (bounded : hints.keys.length ≤ kMaxHints)
      (spec : Evaluated { m with hints } m' outs now'' (entries.foldl Lease.Book.enter held)) :
      Effect m now now'' held (m', entries.map .entered ++ outs)

section Effects
variable {m : AttributionHintManager} {now now' now'' : Int}
  {held : Lease.Book QString AttributionEagerness}

theorem removeHint_effect (hle : now ≤ now') (hle' : now' ≤ now'')
    (h : Lease.Tracks now m.hints held) (hcap : m.hints.keys.length ≤ kMaxHints) (sender : QString) :
    Effect m now now'' held ((m.removeHint sender now' now'').1,
      .entered (sender, none) :: (m.removeHint sender now' now'').2) := by
  unfold AttributionHintManager.removeHint
  split
  · exact .evaluates [(sender, none)] (m.hints.erase sender)
      ((Lease.size_erase_le _ _).trans hcap)
      (AttributionHintManager.evaluate_spec hle' ((h.mono hle).erase sender))
  · next hk => exact .quiet [(sender, none)] (h.enter_none hk)

/-- What one call does. -/
theorem call_effect (hle : now ≤ now') (hle' : now' ≤ now'') (h : Lease.Tracks now m.hints held)
    (hcap : m.hints.keys.length ≤ kMaxHints) (c : HintCall) :
    Effect m now now'' held (call m c now now' now'') := by
  cases c with
  | setHint sender mode =>
      unfold call AttributionHintManager.setHint
      by_cases hs : sender = []
      · simp only [hs, if_true]
        exact .quiet [] h
      · by_cases hfull : sender ∉ m.hints ∧ m.hints.keys.length ≥ kMaxHints
        · simp only [hs, if_false, if_pos hfull]
          exact .quiet [] h
        · simp only [hs, if_false, if_neg hfull, if_true]
          rw [AttributionHintManager.refuses_iff, Bool.not_eq_false] at hfull
          exact .evaluates [(sender, some ⟨mode, now + m.hintTtlMs⟩)] (m.hints.insert sender _)
            (Lease.size_insert_le hcap hfull _)
            (AttributionHintManager.evaluate_spec hle' ((h.mono hle).insert sender _))
  | clearHint sender =>
      unfold call AttributionHintManager.clearHint
      by_cases hs : sender = []
      · simp only [hs, if_true]
        exact .quiet [] h
      · simp only [hs, if_false, if_true]
        exact removeHint_effect hle hle' h hcap sender
  | nameOwnerChanged name oldOwner newOwner =>
      unfold call AttributionHintManager.onNameOwnerChanged
      by_cases hn : newOwner = []
      · by_cases ho : oldOwner = []
        · simp only [hn, ho, ne_eq, not_true, if_false, if_true, and_false]
          exact .quiet [] h
        · simp only [hn, ho, ne_eq, not_true, if_false, not_false_eq_true, and_self, if_true]
          exact removeHint_effect hle hle' h hcap name
      · simp only [hn, ne_eq, not_false_eq_true, if_true, false_and, if_false]
        exact .quiet [] h
  | timeout =>
      exact .evaluates [] m.hints hcap (AttributionHintManager.evaluate_spec hle' (h.mono hle))

end Effects

theorem history_map_entered (entries : List (QString × Option Hint)) :
    history (entries.map .entered) = entries := by
  induction entries with
  | nil => rfl
  | cons e entries ih => exact congrArg (e :: ·) ih

theorem announced_map_entered (entries : List (QString × Option Hint)) :
    announced (entries.map .entered) = [] := by
  induction entries with
  | nil => rfl
  | cons e entries ih => exact ih

theorem create_tracked (configMode : AttributionEagerness) (hintTtlMs : Int) :
    Tracked configMode (create configMode hintTtlMs) [] where
  config := rfl
  ttl := by
    show 0 < max 1 hintTtlMs
    omega
  follows := Lease.Tracks.empty _
  bounded := Nat.zero_le _
  last := rfl
  changes := List.isChain_singleton _
  off _ := rfl

/-- One step's call, between the readings at its start and at its end. -/
theorem step_effect {configMode : AttributionEagerness} {s : HintSystem} {outs : List HintOutput}
    (h : Tracked configMode s outs) (c : HintCall × Waits) :
    ∃ now ≤ elapsedMs 0 (step s c).1.now,
      Effect s.manager now (elapsedMs 0 (step s c).1.now) (Lease.book (history outs))
        ((step s c).1.manager, (step s c).2) := by
  have hle₁ := elapsedMs_mono 0 (Nat.le_add_right s.now c.2.first)
  have hle₂ := elapsedMs_mono 0 (Nat.le_add_right (s.now + c.2.first) c.2.second)
  have hle₃ := elapsedMs_mono 0 (Nat.le_add_right (s.now + c.2.first + c.2.second) c.2.third)
  exact ⟨_, hle₂.trans hle₃, call_effect hle₂ hle₃ (h.follows.mono hle₁) h.bounded c.1⟩

/-- One call keeps the invariant. -/
theorem step_tracked {configMode : AttributionEagerness} {s : HintSystem} {outs : List HintOutput}
    (h : Tracked configMode s outs) (c : HintCall × Waits) :
    Tracked configMode (step s c).1 (outs ++ (step s c).2) := by
  obtain ⟨now, hle, heff⟩ := step_effect h c
  generalize step s c = r at hle heff ⊢
  obtain ⟨⟨m, t⟩, outs'⟩ := r
  dsimp only at hle heff ⊢
  cases heff with
  | quiet entries follows =>
      refine ⟨h.config, h.ttl, ?_, h.bounded, ?_, ?_, ?_⟩
      · rw [history_append, history_map_entered, Lease.book_append]
        exact follows.mono hle
      all_goals rw [announced_append, announced_map_entered, List.append_nil]
      · exact h.last
      · exact h.changes
      · exact h.off
  | evaluates entries hints bounded spec =>
      obtain ⟨hlast, hchanges⟩ := changes_append h.last h.changes m.lastEmitted
      refine ⟨spec.config.trans h.config, spec.ttl ▸ h.ttl, ?_, spec.bounded.trans bounded, ?_, ?_, ?_⟩
      · rw [history_append, history_append, history_map_entered, spec.history, List.append_nil,
          Lease.book_append]
        exact spec.follows
      all_goals
        rw [announced_append, announced_append, announced_map_entered, List.nil_append,
          spec.announced]
      · exact hlast
      · exact hchanges
      · -- with the configuration `Off`, the effective mode never leaves the mode remembered
        intro hoff
        have hmode : m.lastEmitted = s.manager.lastEmitted := by
          have hlast := h.last
          rw [h.off hoff, hoff] at hlast
          rw [spec.last, AttributionHintManager.effectiveMode, spec.config, if_pos (h.config.trans hoff)]
          simpa using hlast
        rw [if_pos hmode, List.append_nil, h.off hoff]

/-- Every run keeps the invariant. -/
theorem run_tracked (configMode : AttributionEagerness) (hintTtlMs : Int)
    (calls : List (HintCall × Waits)) :
    Tracked configMode (run step (create configMode hintTtlMs) calls).1
      (run step (create configMode hintTtlMs) calls).2 :=
  run_trace_invariant (Tracked configMode) (fun _ _ e h => step_tracked h e) []
    (create_tracked configMode hintTtlMs) calls

/-- A step announces the mode it leaves behind, if that is a new one. -/
theorem step_announced {configMode : AttributionEagerness} {s : HintSystem} {outs : List HintOutput}
    (h : Tracked configMode s outs) (c : HintCall × Waits) :
    announced (step s c).2 =
      if (step s c).1.manager.lastEmitted = s.manager.lastEmitted then []
      else [(step s c).1.manager.lastEmitted] := by
  obtain ⟨now, -, heff⟩ := step_effect h c
  generalize step s c = r at heff ⊢
  obtain ⟨⟨m, t⟩, outs'⟩ := r
  dsimp only at heff ⊢
  cases heff with
  | quiet entries follows => rw [announced_map_entered, if_pos rfl]
  | evaluates entries hints bounded spec =>
      rw [announced_append, announced_map_entered, List.nil_append, spec.announced]

/-- With no hint in its table the manager is in the configured mode. -/
theorem step_unhinted {configMode : AttributionEagerness} {s : HintSystem} {outs : List HintOutput}
    (h : Tracked configMode s outs)
    (hmode : s.manager.hints.keys = [] → s.manager.lastEmitted = configMode) (c : HintCall × Waits)
    (hempty : (step s c).1.manager.hints.keys = []) :
    (step s c).1.manager.lastEmitted = configMode := by
  obtain ⟨now, -, heff⟩ := step_effect h c
  generalize step s c = r at heff hempty ⊢
  obtain ⟨⟨m, t⟩, outs'⟩ := r
  dsimp only at heff hempty ⊢
  cases heff with
  | quiet entries follows => exact hmode hempty
  | evaluates entries hints bounded spec =>
      rw [spec.last, AttributionHintManager.effectiveMode_of_empty hempty, spec.config]
      exact h.config

/-- After an evaluation the remembered mode is the effective one at the evaluation's reading. -/
theorem step_evaluated {configMode : AttributionEagerness} {s : HintSystem} {outs : List HintOutput}
    (h : Tracked configMode s outs) {c : HintCall × Waits} {now : Int}
    (hnow : .evaluated now ∈ (step s c).2) :
    now = elapsedMs 0 (step s c).1.now ∧
      (step s c).1.manager.lastEmitted = (step s c).1.manager.effectiveMode now := by
  obtain ⟨_, -, heff⟩ := step_effect h c
  generalize step s c = r at heff hnow ⊢
  obtain ⟨⟨m, t⟩, outs'⟩ := r
  dsimp only at heff hnow ⊢
  cases heff with
  | quiet entries follows => simp at hnow
  | evaluates entries hints bounded spec =>
      rw [List.mem_append] at hnow
      rcases hnow with hnow | hnow
      · simp at hnow
      · obtain rfl := spec.reading now hnow
        exact ⟨rfl, spec.last⟩

/-- The calls that are to evaluate do. -/
theorem evaluated_mem_call {m : AttributionHintManager} {c : HintCall} (hc : c.Evaluates m)
    (now now' now'' : Int) : .evaluated now'' ∈ (call m c now now' now'').2 := by
  cases c with
  | setHint sender mode =>
      obtain ⟨hsender, hroom⟩ := hc
      have hadmitted : ¬ (sender ∉ m.hints ∧ m.hints.keys.length ≥ kMaxHints) := fun hfull =>
        hroom.elim hfull.1 (not_lt.mpr hfull.2)
      simp only [call, AttributionHintManager.setHint, if_neg hsender, if_neg hadmitted]
      exact List.mem_append_right _ (AttributionHintManager.evaluated_mem_evaluate _ _ _)
  | clearHint sender =>
      obtain ⟨hsender, hheld⟩ := hc
      simp only [call, AttributionHintManager.clearHint, AttributionHintManager.removeHint, if_neg hsender,
        if_pos hheld]
      exact List.mem_append_right _ (AttributionHintManager.evaluated_mem_evaluate _ _ _)
  | nameOwnerChanged name oldOwner newOwner =>
      obtain ⟨rfl, hold, hheld⟩ := hc
      simp only [call, AttributionHintManager.onNameOwnerChanged, AttributionHintManager.removeHint,
        ne_eq, not_true, if_false, if_neg hold, if_pos hheld]
      exact List.mem_append_right _ (AttributionHintManager.evaluated_mem_evaluate _ _ _)
  | timeout => exact AttributionHintManager.evaluated_mem_evaluate _ _ _

/-- **The manager announces the mode in effect.**  In every run, after each call that evaluates the effective
mode is what the hints held by then make it, and it is the mode last announced (the configured mode
counting as announced at the start); two announcements in a row differ; and with the configuration
`Off` there is none. -/
theorem announces_effective_mode (configMode : AttributionEagerness) (hintTtlMs : Int)
    (calls : List (HintCall × Waits)) :
    let r := run step (create configMode hintTtlMs) calls
    (∀ c : HintCall × Waits, c.1.Evaluates r.1.manager →
      let m := (step r.1 c).1.manager
      let now := elapsedMs 0 (step r.1 c).1.now
      let outs := r.2 ++ (step r.1 c).2
      EffectiveMode configMode (Lease.book (history outs)) now (m.effectiveMode now) ∧
        m.lastEmitted = m.effectiveMode now ∧
        (configMode :: announced outs).getLast? = some (m.effectiveMode now)) ∧
    (announced r.2).IsChain (· ≠ ·) ∧
    (configMode = .Off → announced r.2 = []) := by
  have hrun := run_tracked configMode hintTtlMs calls
  refine ⟨fun c hc => ?_, ?_, hrun.off⟩
  · have hstep := step_tracked hrun c
    have hlast := (step_evaluated hrun (evaluated_mem_call hc _ _ _)).2
    refine ⟨?_, hlast, ?_⟩
    · have := AttributionHintManager.effectiveMode_spec hstep.follows
      rwa [hstep.config] at this
    · rw [hstep.last]
      exact congrArg some hlast
  · exact hrun.changes.tail

/-- A client asks for `Eager`; when the timer finds the hint ended, the manager is back in the configured mode
and has said so. -/
theorem ended_hint_announced :
    let r := run step (create .Balanced 1000) [(.setHint ":1.5".toList .Eager, {})]
    (.Balanced :: announced (r.2 ++ (step r.1 (.timeout, { first := 2000000000 })).2)).getLast? =
      some .Balanced := by
  intro r
  have hends := ((announces_effective_mode .Balanced 1000 [(.setHint ":1.5".toList .Eager, {})]).1
    (.timeout, { first := 2000000000 }) trivial).2.2
  rw [hends]
  decide +kernel

end HintSystem
end Qiftop.Agent
