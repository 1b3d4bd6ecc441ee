import Qiftop.Backend.Attribution
import Qiftop.Lib.Run

/-!
# Backend — the birth cache

`backend/BirthCache.h` and `backend/BpfBirthResolver.h`.  A probe in the kernel reports each socket with
its process at the moment it is opened.  The cache keeps these births for a while, one for each pair of
endpoints and at most so many, and is cleared when a new one finds it full.  The resolver answers a flow
from the cache, after comparing the recorded start time with the process that holds the pid now, and
keeps what it was told about processes in a second table by pid alone.

The bound is a field of the cache, so a cache above it cannot be built.  The clock and the start-time
probe are arguments; `none` stands for a resolver without a probe.
-/

namespace Qiftop.Backend
open Qt Lib

/-- A flow without its direction and interface. -/
structure BirthKey where
  proto : L4Proto := .Unknown
  localAddress : QHostAddress := .null
  localPort : UInt16 := 0
  remoteAddress : QHostAddress := .null
  remotePort : UInt16 := 0
  deriving DecidableEq, Repr

def birthKeyOf (c : Connection) : BirthKey :=
  { proto := c.proto, localAddress := c.local.address, localPort := c.local.port
    remoteAddress := c.remote.address, remotePort := c.remote.port }

/-- One captured birth. -/
structure BirthRecord where
  pid : Int32 := 0
  uid : UInt32 := 0
  comm : QString := []
  direction : Direction := .Unknown
  startTime : UInt64 := 0
  firstSeenMonoMs : Int := 0
  insertedMonoMs : Int := 0
  deriving DecidableEq, Repr

def BirthRecord.valid (r : BirthRecord) : Bool := decide (0 < r.pid)

/-! ### The cache -/

structure BirthCache where
  map : Hash BirthKey BirthRecord := ∅
  maxEntries : ℕ
  ttlMs : Int
  pos : 0 < maxEntries
  bounded : map.keys.length ≤ maxEntries

namespace BirthCache

def kDefaultMaxEntries : Int := 65536
def kDefaultTtlMs : Int := 30000

/-- The constructor; sizes and times that are not positive mean the defaults. -/
def create (maxEntries ttlMs : Int) : BirthCache where
  maxEntries := (if maxEntries > 0 then maxEntries else kDefaultMaxEntries).toNat
  ttlMs := if ttlMs > 0 then ttlMs else kDefaultTtlMs
  pos := by
    split
    · omega
    · decide
  bounded := Nat.zero_le _

def size (c : BirthCache) : ℕ := c.map.keys.length

/-- A new key finds no room. -/
def Overflows (c : BirthCache) (key : BirthKey) : Prop := key ∉ c.map ∧ c.size ≥ c.maxEntries

instance (c : BirthCache) (key : BirthKey) : Decidable (c.Overflows key) :=
  inferInstanceAs (Decidable (_ ∧ _))

/-- The entries an insertion starts from. -/
def room (c : BirthCache) (key : BirthKey) : Hash BirthKey BirthRecord :=
  if c.Overflows key then ∅ else c.map

/-- `insert`, with whether the cache was cleared. -/
def insert (c : BirthCache) (key : BirthKey) (rec : BirthRecord) (nowMs : Int) : BirthCache × Bool :=
  ({ c with
      map := (c.room key).insert key { rec with insertedMonoMs := nowMs }
      bounded := by
        have hpos := c.pos
        have hbounded := c.bounded
        rw [Hash.length_keys_insert, room]
        by_cases hfull : c.Overflows key
        · rw [if_pos hfull, if_neg (AList.notMem_empty key)]
          exact hpos
        · rw [if_neg hfull]
          split
          · exact hbounded
          · next hkey =>
              have hroom : ¬ c.size ≥ c.maxEntries := fun hge => hfull ⟨hkey, hge⟩
              rw [size] at hroom
              omega },
    decide (c.Overflows key))

/-- A birth that has aged out. -/
def expired (c : BirthCache) (r : BirthRecord) (nowMs : Int) : Bool :=
  decide (nowMs - r.insertedMonoMs > c.ttlMs)

def find (c : BirthCache) (key : BirthKey) (nowMs : Int) : Option BirthRecord :=
  match c.map.lookup key with
  | none => none
  | some r => if c.expired r nowMs then none else some r

def remove (c : BirthCache) (key : BirthKey) : BirthCache :=
  { c with
    map := c.map.erase key
    bounded := by
      rw [AList.keys_erase]
      exact List.erase_sublist.length_le.trans c.bounded }

/-- `prune`; the number of births pruned is not used. -/
def prune (c : BirthCache) (nowMs : Int) : BirthCache :=
  { c with
    map := Hash.filterMap (fun _ r => if c.expired r nowMs then none else some r) c.map
    bounded := by
      refine le_trans ?_ c.bounded
      simp only [AList.keys, List.keys, List.length_map]
      exact List.length_filterMap_le _ _ }

end BirthCache

/-! ### The resolver -/

theorem BirthCache.bounded_create (maxEntries ttlMs : Int) :
    (∅ : Hash Int32 ProcessInfo).keys.length ≤ (create maxEntries ttlMs).maxEntries :=
  Nat.zero_le _

structure BpfBirthResolver where
  cache : BirthCache
  enrichByPid : Hash Int32 ProcessInfo := ∅
  loaded : Bool := false
  bounded : enrichByPid.keys.length ≤ cache.maxEntries := by exact BirthCache.bounded_create _ _

/-- What a birth tells about its process. -/
def BirthRecord.info (r : BirthRecord) : ProcessInfo :=
  { pid := r.pid, comm := r.comm, uid := r.uid }

namespace BpfBirthResolver

/-- The table of processes after a birth; cleared when it has become too large. -/
def enrolled (s : BpfBirthResolver) (rec : BirthRecord) : Hash Int32 ProcessInfo :=
  if rec.valid then
    let t := s.enrichByPid.insert rec.pid rec.info
    if t.keys.length > s.cache.maxEntries then ∅ else t
  else s.enrichByPid

def onBirth (s : BpfBirthResolver) (key : BirthKey) (rec : BirthRecord) (nowMs : Int) :
    BpfBirthResolver where
  cache := (s.cache.insert key rec nowMs).1
  enrichByPid := s.enrolled rec
  loaded := s.loaded
  bounded := by
    change (s.enrolled rec).keys.length ≤ s.cache.maxEntries
    unfold enrolled
    dsimp only
    split
    · split
      · exact Nat.zero_le _
      · next hle => exact not_lt.mp hle
    · exact s.bounded

def setLoaded (s : BpfBirthResolver) (loaded : Bool) : BpfBirthResolver := { s with loaded }

/-- The cache without a birth. -/
def removeBirth (s : BpfBirthResolver) (key : BirthKey) : BpfBirthResolver :=
  { s with cache := s.cache.remove key, bounded := s.bounded }

/-- The live start time denies that the recorded process holds the pid. -/
def rejects (rec : BirthRecord) (live : UInt64) : Bool :=
  decide (live = 0) || decide (live ≠ rec.startTime)

/-- `resolvePid`, alone. -/
def resolvePid (s : BpfBirthResolver) (startTimeProbe : Option (Int32 → UInt64)) (flow : Connection)
    (nowMs : Int) : BpfBirthResolver × Int32 :=
  if !s.loaded then (s, 0)
  else
    match s.cache.find (birthKeyOf flow) nowMs with
    | none => (s, 0)
    | some rec =>
        if !rec.valid then (s, 0)
        else
          match startTimeProbe with
          | none => (s, rec.pid)
          | some probe =>
              if rejects rec (probe rec.pid) then
                (s.removeBirth (birthKeyOf flow), 0)
              else (s, rec.pid)

def enrichPid (s : BpfBirthResolver) (pid : Int32) : Option ProcessInfo :=
  if !s.loaded || decide (pid ≤ 0) then none else s.enrichByPid.lookup pid

def prune (s : BpfBirthResolver) (nowMs : Int) : BpfBirthResolver :=
  { s with cache := s.cache.prune nowMs, bounded := s.bounded }

/-- A call of the resolver. -/
inductive Call where
  | onBirth (key : BirthKey) (rec : BirthRecord) (nowMs : Int)
  | resolvePid (startTimeProbe : Option (Int32 → UInt64)) (flow : Connection) (nowMs : Int)
  | enrichPid (pid : Int32)
  | prune (nowMs : Int)
  | setLoaded (loaded : Bool)

def step (s : BpfBirthResolver) : Call → BpfBirthResolver
  | .onBirth key rec nowMs => s.onBirth key rec nowMs
  | .resolvePid probe flow nowMs => (s.resolvePid probe flow nowMs).1
  | .enrichPid _ => s
  | .prune nowMs => s.prune nowMs
  | .setLoaded loaded => s.setLoaded loaded

/-- The resolver after a history of calls. -/
def after (maxEntries ttlMs : Int) (history : List Call) : BpfBirthResolver :=
  history.foldl step { cache := .create maxEntries ttlMs }

end BpfBirthResolver

/-! ### What the cache holds -/

namespace BirthCache

@[simp] theorem lookup_insert (c : BirthCache) (key k : BirthKey) (rec : BirthRecord) (nowMs : Int) :
    (c.insert key rec nowMs).1.map.lookup k =
      if k = key then some { rec with insertedMonoMs := nowMs }
      else if c.Overflows key then none else c.map.lookup k := by
  rw [insert, Hash.lookup_insert_ite, room]
  split
  · rfl
  · split <;> rfl

@[simp] theorem lookup_remove (c : BirthCache) (key k : BirthKey) :
    (c.remove key).map.lookup k = if k = key then none else c.map.lookup k := by
  rw [remove]
  split
  · next hk => rw [hk, AList.lookup_erase]
  · next hk => exact AList.lookup_erase_ne hk

@[simp] theorem lookup_prune (c : BirthCache) (nowMs : Int) (k : BirthKey) :
    (c.prune nowMs).map.lookup k =
      (c.map.lookup k).bind fun r => if c.expired r nowMs then none else some r := by
  rw [prune, Hash.lookup_filterMap]

theorem find_eq_some_iff {c : BirthCache} {key : BirthKey} {nowMs : Int} {r : BirthRecord} :
    c.find key nowMs = some r ↔ c.map.lookup key = some r ∧ c.expired r nowMs = false := by
  unfold find
  cases c.map.lookup key with
  | none => simp
  | some r' =>
      simp only [Option.ite_none_left_eq_some, Option.some.injEq, Bool.not_eq_true]
      constructor
      · rintro ⟨hlive, rfl⟩
        exact ⟨rfl, hlive⟩
      · rintro ⟨rfl, hlive⟩
        exact ⟨hlive, rfl⟩

end BirthCache

/-- A lookup may take the birth it rejects out of the cache, and changes nothing else. -/
theorem BpfBirthResolver.resolvePid_state (s : BpfBirthResolver) (probe : Option (Int32 → UInt64))
    (flow : Connection) (nowMs : Int) :
    (s.resolvePid probe flow nowMs).1 = s ∨
      (s.resolvePid probe flow nowMs).1 = s.removeBirth (birthKeyOf flow) := by
  unfold resolvePid
  split
  · exact .inl rfl
  · split
    · exact .inl rfl
    · split
      · exact .inl rfl
      · split
        · exact .inl rfl
        · split
          · exact .inr rfl
          · exact .inl rfl

/-! ### What the table by pid holds -/

namespace BpfBirthResolver

/-- A birth is entered, unless a new pid makes the table too large; then the table is empty. -/
theorem lookup_enrolled {s : BpfBirthResolver} {rec : BirthRecord} (hvalid : rec.valid = true)
    (pid : Int32) :
    (s.enrolled rec).lookup pid =
      if rec.pid ∈ s.enrichByPid ∨ s.enrichByPid.keys.length < s.cache.maxEntries then
        if pid = rec.pid then some rec.info else s.enrichByPid.lookup pid
      else none := by
  have hbounded := s.bounded
  rw [enrolled, if_pos hvalid]
  dsimp only
  rw [Hash.length_keys_insert]
  by_cases hpid : rec.pid ∈ s.enrichByPid
  · rw [if_pos hpid, if_neg (not_lt.mpr hbounded), if_pos (.inl hpid), Hash.lookup_insert_ite]
  · rw [if_neg hpid]
    simp only [hpid, false_or]
    by_cases hroom : s.enrichByPid.keys.length < s.cache.maxEntries
    · rw [if_neg (by omega), if_pos hroom, Hash.lookup_insert_ite]
    · rw [if_pos (by omega), if_neg hroom, AList.lookup_empty]

theorem lookup_enrolled_iff {s : BpfBirthResolver} {rec : BirthRecord} (hvalid : rec.valid = true) :
    (s.enrolled rec).lookup rec.pid = some rec.info ↔
      rec.pid ∈ s.enrichByPid ∨ s.enrichByPid.keys.length < s.cache.maxEntries := by
  rw [lookup_enrolled hvalid, if_pos rfl]
  exact Option.ite_none_right_eq_some.trans (and_iff_left rfl)

end BpfBirthResolver

end Qiftop.Backend
