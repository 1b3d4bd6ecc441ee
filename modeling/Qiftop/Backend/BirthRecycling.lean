import Qiftop.Backend.BpfBirthResolver

/-!
# Backend — births and recycled pids

A pid is held by one process at a time, and a process is known by its pid and its start time.  Processes
start and exit, sockets are born, flows are looked up, and at any moment the resolver, alone or first in
a composite, may be asked about a pid.  It should not answer with what a birth of another process told
it: `Guarded`.

The cache of flows compares start times before it answers; the table by pid does not.
`guarded_iff_allowed`: a run stays guarded exactly when no process starts under a pid whose entry is of
another one, and no birth is entered under a pid that another one holds by then.
-/

namespace Qiftop.Backend
open Qt Lib

/-- `CompositeResolver::enrichPid`: the first answer. -/
def compositeEnrichPid (children : List ProcessResolver) (pid : Int32) : Option ProcessInfo :=
  children.findSome? fun c => c.enrichPid pid

/-- Which child answers. -/
def compositeAnsweredBy (children : List ProcessResolver) (pid : Int32) : Option ℕ :=
  children.findIdx? fun c => (c.enrichPid pid).isSome

/-- The birth resolver as one of the children. -/
def BpfBirthResolver.child (s : BpfBirthResolver) (startTimeProbe : Int32 → UInt64) (nowMs : Int) :
    ProcessResolver where
  resolvePid flow := (s.resolvePid (some startTimeProbe) flow nowMs).2
  startTimeForPid := startTimeProbe
  enrichPid := s.enrichPid
  resolveContainerForPid _ := none
  resolveContainerChainForPid _ := []

namespace BirthRecycling

structure System where
  resolver : BpfBirthResolver
  /-- The start time of the process that holds a pid. -/
  holder : Int32 → Option UInt64 := fun _ => none
  /-- The births so far, the newest first.  No step reads this. -/
  log : List BirthRecord := []

inductive Event where
  | start (pid : Int32) (startTime : UInt64)
  | exit (pid : Int32)
  | birth (key : BirthKey) (rec : BirthRecord) (nowMs : Int)
  | resolve (flow : Connection) (nowMs : Int)
  | prune (nowMs : Int)

namespace System

/-- The start time read from `/proc`, 0 for a pid that is gone. -/
def startTimeProbe (s : System) (pid : Int32) : UInt64 := (s.holder pid).getD 0

def step (s : System) : Event → System
  | .start pid startTime =>
      match s.holder pid with
      | some _ => s
      | none => { s with holder := Function.update s.holder pid (some startTime) }
  | .exit pid => { s with holder := Function.update s.holder pid none }
  | .birth key rec nowMs =>
      { s with resolver := s.resolver.onBirth key rec nowMs, log := rec :: s.log }
  | .resolve flow nowMs =>
      { s with resolver := (s.resolver.resolvePid (some s.startTimeProbe) flow nowMs).1 }
  | .prune nowMs => { s with resolver := s.resolver.prune nowMs }

/-- The last birth of a process with this pid. -/
def lastBirth (s : System) (pid : Int32) : Option BirthRecord :=
  s.log.find? fun b => b.valid && decide (b.pid = pid)

/-- The resolver answers with what this birth told it. -/
def AnswersFrom (s : System) (pid : Int32) (b : BirthRecord) : Prop :=
  s.resolver.enrichPid pid = some b.info ∧ s.lastBirth pid = some b

/-- The composite answers with what this birth told the resolver, its first child. -/
def CompositeAnswersFrom (s : System) (others : List ProcessResolver) (nowMs : Int) (pid : Int32)
    (b : BirthRecord) : Prop :=
  compositeEnrichPid (s.resolver.child s.startTimeProbe nowMs :: others) pid = some b.info ∧
    compositeAnsweredBy (s.resolver.child s.startTimeProbe nowMs :: others) pid = some 0 ∧
    s.lastBirth pid = some b

end System

/-- A loaded resolver that has seen nothing, and no processes. -/
def start (maxEntries ttlMs : Int) : System :=
  { resolver := { cache := .create maxEntries ttlMs, loaded := true } }

def after (maxEntries ttlMs : Int) (events : List Event) : System :=
  events.foldl System.step (start maxEntries ttlMs)

/-- No answer comes from a birth of another process than the one that holds the pid. -/
structure Guarded (s : System) : Prop where
  resolver : ∀ pid b startTime, s.AnswersFrom pid b → s.holder pid = some startTime →
    b.startTime = startTime
  composite : ∀ others nowMs pid b startTime, s.CompositeAnswersFrom others nowMs pid b →
    s.holder pid = some startTime → b.startTime = startTime

/-- Nobody starts under a pid whose entry is of another process, and no birth is entered under a pid
that another process holds. -/
def Allowed (s : System) : Event → Prop
  | .start pid startTime =>
      s.holder pid = none → pid ∈ s.resolver.enrichByPid → ∀ b, s.lastBirth pid = some b →
        b.startTime = startTime
  | .birth _ rec _ =>
      rec.valid = true →
        (rec.pid ∈ s.resolver.enrichByPid ∨
          s.resolver.enrichByPid.keys.length < s.resolver.cache.maxEntries) →
        ∀ startTime, s.holder rec.pid = some startTime → rec.startTime = startTime
  | .exit _ | .resolve _ _ | .prune _ => True

/-! ### What is in the table -/

/-- Every entry of the table by pid is of the last birth of its pid. -/
structure Recorded (s : System) : Prop where
  loaded : s.resolver.loaded = true
  entries : ∀ pid info, s.resolver.enrichByPid.lookup pid = some info →
    0 < pid ∧ ∃ b, s.lastBirth pid = some b ∧ info = b.info

theorem Recorded.start (maxEntries ttlMs : Int) : Recorded (start maxEntries ttlMs) :=
  ⟨rfl, fun _ _ h => nomatch h⟩

/-- A birth becomes the last one of its pid. -/
theorem lastBirth_birth (s : System) (key : BirthKey) (rec : BirthRecord) (nowMs : Int) (pid : Int32) :
    (s.step (.birth key rec nowMs)).lastBirth pid =
      if rec.valid = true ∧ pid = rec.pid then some rec else s.lastBirth pid := by
  rw [System.lastBirth, System.step, List.find?_cons]
  by_cases h : rec.valid = true ∧ pid = rec.pid
  · simp [h]
  · rw [if_neg h]
    have hfalse : (rec.valid && decide (rec.pid = pid)) = false := by
      rw [Bool.eq_false_iff]
      intro htrue
      rw [Bool.and_eq_true, decide_eq_true_eq] at htrue
      exact h ⟨htrue.1, htrue.2.symm⟩
    rw [hfalse]
    rfl

theorem Recorded.birth {s : System} (h : Recorded s) (key : BirthKey) (rec : BirthRecord)
    (nowMs : Int) : Recorded (s.step (.birth key rec nowMs)) := by
  refine ⟨h.loaded, fun pid info hinfo => ?_⟩
  rw [lastBirth_birth]
  by_cases hvalid : rec.valid = true
  · have hinfo : (s.resolver.enrolled rec).lookup pid = some info := hinfo
    rw [BpfBirthResolver.lookup_enrolled hvalid] at hinfo
    split at hinfo
    · by_cases hpid : pid = rec.pid
      · rw [if_pos hpid] at hinfo
        rw [if_pos ⟨hvalid, hpid⟩, hpid]
        exact ⟨of_decide_eq_true hvalid, rec, rfl, (Option.some.inj hinfo).symm⟩
      · rw [if_neg hpid] at hinfo
        rw [if_neg fun e => hpid e.2]
        exact h.entries pid info hinfo
    · cases hinfo
  · rw [if_neg fun e => hvalid e.1]
    refine h.entries pid info ?_
    have hsame : s.resolver.enrolled rec = s.resolver.enrichByPid := if_neg hvalid
    rw [← hsame]
    exact hinfo

/-- Lookups and prunings leave the table alone. -/
theorem resolve_table (s : System) (flow : Connection) (nowMs : Int) :
    (s.step (.resolve flow nowMs)).resolver.enrichByPid = s.resolver.enrichByPid ∧
      (s.step (.resolve flow nowMs)).resolver.loaded = s.resolver.loaded := by
  rw [System.step]
  rcases s.resolver.resolvePid_state (some s.startTimeProbe) flow nowMs with hs | hs
  · rw [hs]
    exact ⟨rfl, rfl⟩
  · rw [hs]
    exact ⟨rfl, rfl⟩

theorem Recorded.step {s : System} (h : Recorded s) (e : Event) : Recorded (s.step e) := by
  cases e with
  | start pid startTime =>
      rw [System.step]
      split
      · exact h
      · exact ⟨h.loaded, h.entries⟩
  | exit pid => exact ⟨h.loaded, h.entries⟩
  | birth key rec nowMs => exact h.birth key rec nowMs
  | resolve flow nowMs =>
      obtain ⟨htable, hloaded⟩ := resolve_table s flow nowMs
      refine ⟨hloaded.trans h.loaded, fun pid info hinfo => ?_⟩
      rw [htable] at hinfo
      exact h.entries pid info hinfo
  | prune nowMs => exact ⟨h.loaded, h.entries⟩

/-! ### Where answers come from -/

/-- An answer of the resolver is what the last birth of the pid told it. -/
theorem Recorded.answersFrom_iff {s : System} (h : Recorded s) {pid : Int32} {b : BirthRecord} :
    s.AnswersFrom pid b ↔ pid ∈ s.resolver.enrichByPid ∧ s.lastBirth pid = some b := by
  unfold System.AnswersFrom
  refine and_congr_left fun hb => ?_
  unfold BpfBirthResolver.enrichPid
  rw [h.loaded]
  constructor
  · intro hinfo
    split at hinfo
    · cases hinfo
    · exact Hash.mem_of_lookup hinfo
  · intro hmem
    obtain ⟨info, hinfo⟩ := Hash.exists_lookup hmem
    obtain ⟨hpos, b', hb', rfl⟩ := h.entries pid info hinfo
    have hle : decide (pid ≤ 0) = false := decide_eq_false (Int32.not_le.mpr hpos)
    rw [hle, hinfo, Option.some.inj (hb'.symm.trans hb)]
    rfl

/-- As the first child the resolver answers for the composite whenever it answers at all. -/
theorem compositeAnswersFrom_iff {s : System} {others : List ProcessResolver} {nowMs : Int}
    {pid : Int32} {b : BirthRecord} :
    s.CompositeAnswersFrom others nowMs pid b ↔ s.AnswersFrom pid b := by
  unfold System.CompositeAnswersFrom System.AnswersFrom compositeEnrichPid compositeAnsweredBy
  rw [List.findSome?_cons, List.findIdx?_cons]
  have hchild : (s.resolver.child s.startTimeProbe nowMs).enrichPid pid = s.resolver.enrichPid pid := rfl
  rw [hchild]
  cases s.resolver.enrichPid pid with
  | none => simp
  | some info => simp

theorem Recorded.guarded_iff {s : System} (h : Recorded s) :
    Guarded s ↔ ∀ pid b startTime, pid ∈ s.resolver.enrichByPid → s.lastBirth pid = some b →
      s.holder pid = some startTime → b.startTime = startTime := by
  constructor
  · intro hg pid b startTime hmem hb
    exact hg.resolver pid b startTime (h.answersFrom_iff.mpr ⟨hmem, hb⟩)
  · intro hg
    have hown : ∀ pid b startTime, s.AnswersFrom pid b → s.holder pid = some startTime →
        b.startTime = startTime := by
      intro pid b startTime hb
      obtain ⟨hmem, hb⟩ := h.answersFrom_iff.mp hb
      exact hg pid b startTime hmem hb
    exact ⟨hown, fun others nowMs pid b startTime hb =>
      hown pid b startTime (compositeAnswersFrom_iff.mp hb)⟩

/-! ### One step -/

theorem step_start_of_held {s : System} {pid : Int32} {held : UInt64} (h : s.holder pid = some held)
    (startTime : UInt64) : s.step (.start pid startTime) = s := by
  rw [System.step, h]

theorem step_start_of_free {s : System} {pid : Int32} (h : s.holder pid = none) (startTime : UInt64) :
    s.step (.start pid startTime) =
      { s with holder := Function.update s.holder pid (some startTime) } := by
  rw [System.step, h]

section Step
variable {s : System} (h : Recorded s) (hguarded : Guarded s)
include h hguarded

theorem guarded_start_iff (pid : Int32) (startTime : UInt64) :
    Guarded (s.step (.start pid startTime)) ↔ Allowed s (.start pid startTime) := by
  cases hheld : s.holder pid with
  | some held =>
      rw [step_start_of_held hheld]
      refine iff_of_true hguarded fun hfree => ?_
      rw [hheld] at hfree
      cases hfree
  | none =>
      rw [(h.step (.start pid startTime)).guarded_iff, step_start_of_free hheld]
      have hbefore := h.guarded_iff.mp hguarded
      constructor
      · intro hafter _ hmem b hb
        exact hafter pid b startTime hmem hb (Function.update_self ..)
      · intro hallowed pid' b startTime' hmem hb hafter
        dsimp only at hafter
        by_cases hpid : pid' = pid
        · subst hpid
          rw [Function.update_self] at hafter
          exact (hallowed hheld hmem b hb).trans (Option.some.inj hafter)
        · rw [Function.update_of_ne hpid] at hafter
          exact hbefore pid' b startTime' hmem hb hafter

theorem guarded_exit (pid : Int32) : Guarded (s.step (.exit pid)) := by
  rw [(h.step (.exit pid)).guarded_iff, System.step]
  intro pid' b startTime hmem hb hafter
  dsimp only at hafter
  by_cases hpid : pid' = pid
  · rw [hpid, Function.update_self] at hafter
    cases hafter
  · rw [Function.update_of_ne hpid] at hafter
    exact h.guarded_iff.mp hguarded pid' b startTime hmem hb hafter

theorem guarded_birth_iff (key : BirthKey) (rec : BirthRecord) (nowMs : Int) :
    Guarded (s.step (.birth key rec nowMs)) ↔ Allowed s (.birth key rec nowMs) := by
  rw [(h.step (.birth key rec nowMs)).guarded_iff]
  have hbefore := h.guarded_iff.mp hguarded
  constructor
  · intro hafter hvalid hroom startTime hheld
    refine hafter rec.pid rec startTime ?_ ?_ hheld
    · exact Hash.mem_of_lookup ((BpfBirthResolver.lookup_enrolled_iff hvalid).mpr hroom)
    · rw [lastBirth_birth, if_pos ⟨hvalid, rfl⟩]
  · intro hallowed pid b startTime hmem hb hheld
    rw [lastBirth_birth] at hb
    -- at most the pid of the birth is new, the others were guarded before
    obtain ⟨info, hinfo⟩ := Hash.exists_lookup hmem
    have hinfo : (s.resolver.enrolled rec).lookup pid = some info := hinfo
    by_cases hvalid : rec.valid = true
    · rw [BpfBirthResolver.lookup_enrolled hvalid] at hinfo
      split at hinfo
      · next hroom =>
          by_cases hpid : pid = rec.pid
          · subst hpid
            rw [if_pos ⟨hvalid, rfl⟩] at hb
            rw [← Option.some.inj hb]
            exact hallowed hvalid hroom startTime hheld
          · rw [if_neg hpid] at hinfo
            rw [if_neg fun e => hpid e.2] at hb
            exact hbefore pid b startTime (Hash.mem_of_lookup hinfo) hb hheld
      · cases hinfo
    · have hsame : s.resolver.enrolled rec = s.resolver.enrichByPid := if_neg hvalid
      rw [hsame] at hinfo
      rw [if_neg fun e => hvalid e.1] at hb
      exact hbefore pid b startTime (Hash.mem_of_lookup hinfo) hb hheld

theorem guarded_step_iff (e : Event) : Guarded (s.step e) ↔ Allowed s e := by
  cases e with
  | start pid startTime => exact guarded_start_iff h hguarded pid startTime
  | exit pid => exact iff_of_true (guarded_exit h hguarded pid) trivial
  | birth key rec nowMs => exact guarded_birth_iff h hguarded key rec nowMs
  | resolve flow nowMs =>
      refine iff_of_true ?_ trivial
      rw [(h.step (.resolve flow nowMs)).guarded_iff, (resolve_table s flow nowMs).1]
      exact h.guarded_iff.mp hguarded
  | prune nowMs =>
      refine iff_of_true ?_ trivial
      rw [(h.step (.prune nowMs)).guarded_iff]
      exact h.guarded_iff.mp hguarded

end Step

/-! ### Whole runs -/

theorem guarded_nothing (maxEntries ttlMs : Int) : Guarded (start maxEntries ttlMs) := by
  rw [(Recorded.start maxEntries ttlMs).guarded_iff]
  intro pid b startTime _ _ hheld
  cases hheld

/-- **When no recycled pid is answered with another process.**  In every run of starts, exits, births
and lookups, the resolver and every composite it is first in answer in every state only for the process
that holds the pid, exactly when every step is allowed. -/
theorem guarded_iff_allowed (maxEntries ttlMs : Int) (events : List Event) :
    (∀ pre, pre <+: events → Guarded (after maxEntries ttlMs pre)) ↔
      ∀ pre e, pre ++ [e] <+: events → Allowed (after maxEntries ttlMs pre) e :=
  forall_states_iff (I := Recorded) (P := Guarded) (C := Allowed) (fun _ e h => h.step e)
    (fun _ e h hguarded => guarded_step_iff h hguarded e) (Recorded.start maxEntries ttlMs)
    (guarded_nothing maxEntries ttlMs) events

/-- A process opens a socket and exits, another starts under its pid, and is taken for the first. -/
theorem recycled_pid_taken_for_first :
    ¬ ∀ events, Guarded (after 0 0 events) := by
  intro h
  have hstale := (h [.start 7 1, .birth {} { pid := 7, comm := "curl".toList, startTime := 1 } 0, .exit 7,
    .start 7 2]).resolver 7 { pid := 7, comm := "curl".toList, startTime := 1 } 2 ⟨rfl, rfl⟩ rfl
  exact absurd hstale (by decide)

end BirthRecycling

end Qiftop.Backend
