import Qiftop.Backend.BpfBirthResolver

/-!
# Backend — births and lookups at the same time

Births come from the thread that reads the ring buffer, lookups from others.  Each part under the
resolver's mutex is one step: a birth, a pruning, and of a lookup the search and the removal, between
which the start time of the process is read without the mutex.  Any number of lookups may be under way.

A removal is by key.  `Spared` says what should hold in a run: a removal takes out only the birth its
own lookup found and rejected, and a birth stays until it ages out, is replaced, is rejected itself or
falls to an overflow.  `spared_iff_undisturbed`: exactly in the runs in which no lookup removes a birth
that came after its search.
-/

namespace Qiftop.Backend
open Qt Lib

namespace BirthRaces

/-- A lookup between its two parts. -/
structure Pending where
  key : BirthKey
  found : BirthRecord
  rejected : Bool := false
  /-- Whether a birth of the flow came since the search.  No step reads this. -/
  overtaken : Bool := false

structure System where
  resolver : BpfBirthResolver
  lookups : ℕ → Option Pending := fun _ => none

inductive Event where
  | setLoaded (loaded : Bool)
  | birth (key : BirthKey) (rec : BirthRecord) (nowMs : Int)
  | prune (nowMs : Int)
  /-- The search of a new lookup. -/
  | search (id : ℕ) (flow : Connection) (nowMs : Int)
  /-- The start time of the process a lookup found. -/
  | probe (id : ℕ) (live : UInt64)
  | remove (id : ℕ)

/-- A birth of the flow comes while a lookup is under way. -/
def Pending.overtake (key : BirthKey) (p : Pending) : Pending :=
  if p.key = key then { p with overtaken := true } else p

/-- A lookup goes on to its removal, or ends with an answer. -/
def Pending.probe (p : Pending) (live : UInt64) : Option Pending :=
  if BpfBirthResolver.rejects p.found live then some { p with rejected := true } else none

namespace System

/-- The births of the cache. -/
def births (s : System) : Hash BirthKey BirthRecord := s.resolver.cache.map

/-- A lookup that has something to validate. -/
def searched (s : System) (flow : Connection) (nowMs : Int) : Option Pending :=
  if s.resolver.loaded then
    match s.resolver.cache.find (birthKeyOf flow) nowMs with
    | some rec => if rec.valid then some { key := birthKeyOf flow, found := rec } else none
    | none => none
  else none

def step (s : System) : Event → System
  | .setLoaded loaded => { s with resolver := s.resolver.setLoaded loaded }
  | .birth key rec nowMs =>
      { resolver := s.resolver.onBirth key rec nowMs
        lookups := fun id => (s.lookups id).map (Pending.overtake key) }
  | .prune nowMs => { s with resolver := s.resolver.prune nowMs }
  | .search id flow nowMs =>
      match s.lookups id with
      | some _ => s
      | none => { s with lookups := Function.update s.lookups id (s.searched flow nowMs) }
  | .probe id live =>
      match s.lookups id with
      | some p =>
          if p.rejected then s
          else { s with lookups := Function.update s.lookups id (p.probe live) }
      | none => s
  | .remove id =>
      match s.lookups id with
      | some p =>
          if p.rejected then
            { resolver := s.resolver.removeBirth p.key
              lookups := Function.update s.lookups id none }
          else s
      | none => s

end System

/-- A resolver that was just made, and no lookup under way. -/
def start (maxEntries ttlMs : Int) : System := { resolver := { cache := .create maxEntries ttlMs } }

def after (maxEntries ttlMs : Int) (events : List Event) : System :=
  events.foldl System.step (start maxEntries ttlMs)

theorem after_concat (maxEntries ttlMs : Int) (events : List Event) (e : Event) :
    after maxEntries ttlMs (events ++ [e]) = (after maxEntries ttlMs events).step e :=
  List.foldl_append

/-! ### What should hold in a run -/

/-- What may end the stay of birth `r` under `k`. -/
inductive Ends (s : System) (k : BirthKey) (r : BirthRecord) : Event → Prop where
  | expires {nowMs : Int} (h : s.resolver.cache.expired r nowMs = true) : Ends s k r (.prune nowMs)
  | replaced (rec : BirthRecord) (nowMs : Int) : Ends s k r (.birth k rec nowMs)
  | overflows {key : BirthKey} (h : s.resolver.cache.Overflows key) (rec : BirthRecord) (nowMs : Int) :
      Ends s k r (.birth key rec nowMs)
  /-- A lookup whose search came after the birth has rejected it. -/
  | rejected {id : ℕ} {p : Pending} (h : s.lookups id = some p) (hrejected : p.rejected = true)
      (hkey : p.key = k) (hfound : p.found = r) (hsince : p.overtaken = false) :
      Ends s k r (.remove id)

/-- A removal takes out only the birth its lookup found and rejected; a birth stays until something
ends it. -/
structure Spared (maxEntries ttlMs : Int) (events : List Event) : Prop where
  removes_own : ∀ pre id post, events = pre ++ .remove id :: post → ∀ p,
    (after maxEntries ttlMs pre).lookups id = some p → p.rejected = true → ∀ r,
    (after maxEntries ttlMs pre).births.lookup p.key = some r → r = p.found ∧ p.overtaken = false
  stays : ∀ pre k rec nowMs mid post, events = pre ++ .birth k rec nowMs :: (mid ++ post) →
    (∀ mid₁ e mid₂, mid = mid₁ ++ e :: mid₂ → ¬ Ends
      (after maxEntries ttlMs (pre ++ .birth k rec nowMs :: mid₁)) k
      { rec with insertedMonoMs := nowMs } e) →
    (after maxEntries ttlMs (pre ++ .birth k rec nowMs :: mid)).births.lookup k =
      some { rec with insertedMonoMs := nowMs }

/-- A lookup that a birth of its flow has overtaken comes to its removal only when no birth of the flow
is left. -/
def Undisturbed (maxEntries ttlMs : Int) (events : List Event) : Prop :=
  ∀ pre id post, events = pre ++ .remove id :: post → ∀ p,
    (after maxEntries ttlMs pre).lookups id = some p → p.rejected = true → p.overtaken = true →
    p.key ∉ (after maxEntries ttlMs pre).births

/-! ### One step -/

namespace System
variable (s : System)

theorem step_search (id : ℕ) (flow : Connection) (nowMs : Int) :
    s.step (.search id flow nowMs) = s ∨ s.step (.search id flow nowMs) =
      { s with lookups := Function.update s.lookups id (s.searched flow nowMs) } := by
  unfold step
  dsimp only
  split
  · exact .inl rfl
  · exact .inr rfl

theorem step_probe (id : ℕ) (live : UInt64) :
    s.step (.probe id live) = s ∨ ∃ p, s.lookups id = some p ∧ s.step (.probe id live) =
      { s with lookups := Function.update s.lookups id (p.probe live) } := by
  unfold step
  dsimp only
  split
  · next p hp =>
      split
      · exact .inl rfl
      · exact .inr ⟨p, hp, rfl⟩
  · exact .inl rfl

theorem step_remove (id : ℕ) :
    s.step (.remove id) = s ∨ ∃ p, s.lookups id = some p ∧ p.rejected = true ∧ s.step (.remove id) =
      { resolver := s.resolver.removeBirth p.key, lookups := Function.update s.lookups id none } := by
  unfold step
  dsimp only
  split
  · next p hp =>
      split
      · next hrejected => exact .inr ⟨p, hp, hrejected, rfl⟩
      · exact .inl rfl
  · exact .inl rfl

end System

/-- What a lookup that was not overtaken found is all there can be under its key. -/
def Tracked (s : System) : Prop :=
  ∀ id p, s.lookups id = some p → p.overtaken = false → ∀ r, s.births.lookup p.key = some r →
    r = p.found

/-- The lookups are no more than before, and so are the births. -/
theorem Tracked.mono {s s' : System} (h : Tracked s)
    (hlookups : ∀ id p, s'.lookups id = some p → ∃ q, s.lookups id = some q ∧ q.key = p.key ∧
      q.found = p.found ∧ (p.overtaken = false → q.overtaken = false))
    (hbirths : ∀ k r, s'.births.lookup k = some r → s.births.lookup k = some r) : Tracked s' := by
  intro id p hp hnot r hr
  obtain ⟨q, hq, hkey, hfound, hover⟩ := hlookups id p hp
  rw [← hfound]
  refine h id q hq (hover hnot) r ?_
  rw [hkey]
  exact hbirths p.key r hr

/-- A lookup after one was set is that one, or was there before. -/
theorem update_eq_some {lookups : ℕ → Option Pending} {id id' : ℕ} {v : Option Pending} {p : Pending}
    (h : Function.update lookups id v id' = some p) : id' = id ∧ v = some p ∨ lookups id' = some p := by
  by_cases hid : id' = id
  · rw [hid, Function.update_self] at h
    exact .inl ⟨hid, h⟩
  · rw [Function.update_of_ne hid] at h
    exact .inr h

/-- A search finds what the cache holds. -/
theorem System.searched_eq_some {s : System} {flow : Connection} {nowMs : Int} {p : Pending}
    (h : s.searched flow nowMs = some p) : s.births.lookup p.key = some p.found := by
  unfold System.searched at h
  split at h
  · split at h
    · next rec hfind =>
        split at h
        · cases h
          exact (BirthCache.find_eq_some_iff.mp hfind).1
        · cases h
    · cases h
  · cases h

theorem Tracked.birth {s : System} (h : Tracked s) (key : BirthKey) (rec : BirthRecord) (nowMs : Int) :
    Tracked (s.step (.birth key rec nowMs)) := by
  intro id p hp hnot r hr
  obtain ⟨q, hq, rfl⟩ := Option.map_eq_some_iff.mp hp
  rw [System.births, System.step, BpfBirthResolver.onBirth, BirthCache.lookup_insert] at hr
  unfold Pending.overtake at hnot hr ⊢
  by_cases hkey : q.key = key
  · rw [if_pos hkey] at hnot
    cases hnot
  · rw [if_neg hkey] at hnot hr ⊢
    rw [if_neg hkey] at hr
    split at hr
    · cases hr
    · exact h id q hq hnot r hr

theorem Tracked.prune {s : System} (h : Tracked s) (nowMs : Int) : Tracked (s.step (.prune nowMs)) := by
  refine h.mono (fun id p hp => ⟨p, hp, rfl, rfl, fun hnot => hnot⟩) fun k r hr => ?_
  rw [System.births, System.step, BpfBirthResolver.prune, BirthCache.lookup_prune,
    Option.bind_eq_some_iff] at hr
  obtain ⟨r', hr', hlive⟩ := hr
  split at hlive
  · cases hlive
  · rwa [Option.some.inj hlive] at hr'

theorem Tracked.search {s : System} (h : Tracked s) (id : ℕ) (flow : Connection) (nowMs : Int) :
    Tracked (s.step (.search id flow nowMs)) := by
  rcases s.step_search id flow nowMs with hs | hs
  · rw [hs]
    exact h
  · rw [hs]
    intro id' p hp hnot r hr
    rcases update_eq_some hp with ⟨-, hnew⟩ | hold
    · exact Option.some.inj (hr.symm.trans (System.searched_eq_some hnew))
    · exact h id' p hold hnot r hr

theorem Tracked.probe {s : System} (h : Tracked s) (id : ℕ) (live : UInt64) :
    Tracked (s.step (.probe id live)) := by
  rcases s.step_probe id live with hs | ⟨p, hp, hs⟩
  · rw [hs]
    exact h
  · rw [hs]
    refine h.mono (fun id' q hq => ?_) fun k r hr => hr
    rcases update_eq_some hq with ⟨rfl, hprobe⟩ | hold
    · unfold Pending.probe at hprobe
      split at hprobe
      · cases hprobe
        exact ⟨p, hp, rfl, rfl, fun hnot => hnot⟩
      · cases hprobe
    · exact ⟨q, hold, rfl, rfl, fun hnot => hnot⟩

theorem Tracked.remove {s : System} (h : Tracked s) (id : ℕ) : Tracked (s.step (.remove id)) := by
  rcases s.step_remove id with hs | ⟨p, hp, -, hs⟩
  · rw [hs]
    exact h
  · rw [hs]
    refine h.mono (fun id' q hq => ?_) fun k r hr => ?_
    · rcases update_eq_some hq with ⟨-, hnone⟩ | hold
      · cases hnone
      · exact ⟨q, hold, rfl, rfl, fun hnot => hnot⟩
    · rw [System.births, BpfBirthResolver.removeBirth, BirthCache.lookup_remove] at hr
      split at hr
      · cases hr
      · exact hr

theorem Tracked.step {s : System} (h : Tracked s) (e : Event) : Tracked (s.step e) := by
  cases e with
  | setLoaded loaded => exact h
  | birth key rec nowMs => exact h.birth key rec nowMs
  | prune nowMs => exact h.prune nowMs
  | search id flow nowMs => exact h.search id flow nowMs
  | probe id live => exact h.probe id live
  | remove id => exact h.remove id

/-- Under a key whose lookup was not overtaken there is what it found. -/
theorem Tracked.not_overtaken {s : System} (h : Tracked s) {id : ℕ} {p : Pending}
    (hp : s.lookups id = some p) (hundisturbed : p.overtaken = true → p.key ∉ s.births) {r : BirthRecord}
    (hr : s.births.lookup p.key = some r) : r = p.found ∧ p.overtaken = false := by
  have hnot : p.overtaken = false := by
    by_contra hover
    exact hundisturbed (Bool.eq_true_of_not_eq_false hover) (Hash.mem_of_lookup hr)
  exact ⟨h id p hp hnot r hr, hnot⟩

/-- A birth that nothing ends is still there after the step, if the step is not the removal of a lookup
it has overtaken. -/
theorem lookup_step_of_not_ends {s : System} (htracked : Tracked s) {k : BirthKey} {r : BirthRecord}
    (hr : s.births.lookup k = some r) {e : Event} (hstays : ¬ Ends s k r e)
    (hundisturbed : ∀ id p, e = .remove id → s.lookups id = some p → p.rejected = true →
      p.overtaken = true → p.key ∉ s.births) : (s.step e).births.lookup k = some r := by
  cases e with
  | setLoaded loaded => exact hr
  | birth key rec nowMs =>
      rw [System.births, System.step, BpfBirthResolver.onBirth, BirthCache.lookup_insert, if_neg, if_neg]
      · exact hr
      · exact fun hfull => hstays (.overflows hfull rec nowMs)
      · rintro rfl
        exact hstays (.replaced rec nowMs)
  | prune nowMs =>
      rw [System.births, System.step, BpfBirthResolver.prune, BirthCache.lookup_prune, ← System.births, hr,
        Option.bind_some, if_neg]
      exact fun hexpired => hstays (.expires hexpired)
  | search id flow nowMs =>
      rcases s.step_search id flow nowMs with hs | hs
      · rwa [hs]
      · rw [hs]
        exact hr
  | probe id live =>
      rcases s.step_probe id live with hs | ⟨p, -, hs⟩
      · rwa [hs]
      · rw [hs]
        exact hr
  | remove id =>
      rcases s.step_remove id with hs | ⟨p, hp, hrejected, hs⟩
      · rwa [hs]
      · rw [hs, System.births, BpfBirthResolver.removeBirth, BirthCache.lookup_remove, if_neg]
        · exact hr
        · -- a removal takes the key, whichever birth stands there by now
          rintro rfl
          obtain ⟨hfound, hnot⟩ :=
            htracked.not_overtaken hp (hundisturbed id p rfl hp hrejected) hr
          exact hstays (.rejected hp hrejected rfl hfound.symm hnot)

/-! ### Whole runs -/

section Runs
variable (maxEntries ttlMs : Int)

theorem tracked_after (events : List Event) : Tracked (after maxEntries ttlMs events) :=
  foldl_invariant (fun _ e h => h.step e) (fun _ _ hp => nomatch hp) events

theorem lookup_after_birth (pre : List Event) (k : BirthKey) (rec : BirthRecord) (nowMs : Int) :
    (after maxEntries ttlMs (pre ++ [.birth k rec nowMs])).births.lookup k =
      some { rec with insertedMonoMs := nowMs } := by
  rw [after_concat, System.births, System.step, BpfBirthResolver.onBirth, BirthCache.lookup_insert,
    if_pos rfl]

/-- In an undisturbed run a birth stays until something ends it. -/
theorem Undisturbed.stays {maxEntries ttlMs : Int} {pre : List Event} {k : BirthKey}
    {rec : BirthRecord} {nowMs : Int} {mid post : List Event}
    (h : Undisturbed maxEntries ttlMs (pre ++ .birth k rec nowMs :: (mid ++ post)))
    (hends : ∀ mid₁ e mid₂, mid = mid₁ ++ e :: mid₂ → ¬ Ends
      (after maxEntries ttlMs (pre ++ .birth k rec nowMs :: mid₁)) k
      { rec with insertedMonoMs := nowMs } e) :
    (after maxEntries ttlMs (pre ++ .birth k rec nowMs :: mid)).births.lookup k =
      some { rec with insertedMonoMs := nowMs } := by
  induction mid using List.reverseRecOn generalizing post with
  | nil => exact lookup_after_birth maxEntries ttlMs pre k rec nowMs
  | append_singleton mid e ih =>
      rw [List.append_assoc] at h
      have hkept := ih h fun mid₁ e' mid₂ hmid =>
        hends mid₁ e' (mid₂ ++ [e]) (by rw [hmid, List.append_assoc, List.cons_append])
      rw [← List.cons_append, ← List.append_assoc, after_concat]
      refine lookup_step_of_not_ends (tracked_after maxEntries ttlMs _) hkept (hends mid e [] rfl) ?_
      rintro id p rfl hp hrejected hover
      refine h (pre ++ .birth k rec nowMs :: mid) id post ?_ p hp hrejected hover
      rw [List.append_assoc]
      rfl

/-- **When a lookup spares the births it did not find.**  For every run of births, prunings and parts of
lookups, in any order: removals take out only what their own lookups rejected, and births stay until
something ends them, exactly when no lookup comes to its removal after a birth of its flow has overtaken
it and is still there. -/
theorem spared_iff_undisturbed (events : List Event) :
    Spared maxEntries ttlMs events ↔ Undisturbed maxEntries ttlMs events := by
  constructor
  · intro h pre id post hevents p hp hrejected hover hmem
    obtain ⟨r, hr⟩ := Option.isSome_iff_exists.mp (AList.lookup_isSome.mpr hmem)
    have hnot := (h.removes_own pre id post hevents p hp hrejected r hr).2
    rw [hover] at hnot
    cases hnot
  · intro h
    constructor
    · intro pre id post hevents p hp hrejected r hr
      exact (tracked_after maxEntries ttlMs pre).not_overtaken hp
        (h pre id post hevents p hp hrejected) hr
    · rintro pre k rec nowMs mid post rfl hends
      exact h.stays hends

end Runs

/-- A flow is born, found and rejected; before the removal it is born again, and the removal takes out
the new birth. -/
theorem newer_birth_removed :
    ¬ ∀ events, Spared 0 0 events := by
  intro h
  have hown := (h [.setLoaded true, .birth {} { pid := 7, startTime := 1 } 0, .search 0 {} 1,
    .probe 0 2, .birth {} { pid := 7, startTime := 2 } 2, .remove 0]).removes_own
      [.setLoaded true, .birth {} { pid := 7, startTime := 1 } 0, .search 0 {} 1, .probe 0 2,
        .birth {} { pid := 7, startTime := 2 } 2] 0 [] rfl
      { key := {}, found := { pid := 7, startTime := 1 }, rejected := true, overtaken := true } rfl rfl
      { pid := 7, startTime := 2, insertedMonoMs := 2 } rfl
  exact absurd hown.1 (by decide)

end BirthRaces

end Qiftop.Backend
