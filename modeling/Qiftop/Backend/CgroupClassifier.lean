import Qiftop.Backend.CgroupParse
import Qiftop.Backend.ProcStat
import Qiftop.Backend.ResolverTuning
import Qiftop.Lib.Hash
import Qiftop.Lib.Run

/-!
# Backend — the cache of the container classifier

`backend/linux/CgroupClassifier.cpp`: the containers around a process are read off `/proc/<pid>/cgroup` and
remembered by pid for a while.  A pid can go to another process at any moment, between two calls and between
two reads of one call; what is remembered is therefore kept with the start time that the pid had before the
read, and used while the pid has it.

Calls come from several threads.  A call reads the start time when it comes, and the rest when it has the
lock, so calls are listed in the order of their locks while their first reads may be in any order.

* `resolve_cases`: what a call does.
* `run_answers`: every answer is what the file held, not longer ago than the configured time, for the very
  process that had the pid when the call came, or else during the call.
-/

namespace Qiftop.Backend.Cgroup
open Qt Lib

/-- What is found of a pid under `/proc`.  A file that cannot be opened is none. -/
structure ProcFiles where
  stat : Option QByteArray := none
  cgroup : Option QByteArray := none

def pidStartTime (pid : Int32) (files : ProcFiles) : Option UInt64 :=
  if pid ≤ 0 then none else files.stat.bind fun data => parseStartTime (data.take 4096)

/-! ### The classifier -/

def kCacheTtlMs : Int := 2000

def kMinCacheTtlMs : Int := 100

def kCacheMaxItems : ℕ := 8192

def safeContainerTtlMs (raw defaultMs minMs : Int) : Int :=
  if raw ≤ 0 then defaultMs else if raw ≥ minMs then raw else minMs

structure CacheEntry where
  chain : List ContainerInfo
  ts : Int
  startTime : UInt64

structure CgroupClassifier where
  ready : Bool := false
  crioPreferred : Bool := false
  cache : Hash Int32 CacheEntry := ∅
  cacheTtlMs : Int := kCacheTtlMs

namespace CgroupClassifier

def make (tuning : ResolverTuning) : CgroupClassifier where
  cacheTtlMs := safeContainerTtlMs tuning.containerCacheMs kCacheTtlMs kMinCacheTtlMs

def setTuning (s : CgroupClassifier) (tuning : ResolverTuning) : CgroupClassifier :=
  { s with cacheTtlMs := safeContainerTtlMs tuning.containerCacheMs kCacheTtlMs kMinCacheTtlMs }

/-- Whether the classifier's own cgroup can be read, and whether there is a socket of CRI-O. -/
def initialized (s : CgroupClassifier) (selfCgroup crioSocket : Bool) : CgroupClassifier × Bool :=
  if !selfCgroup then (s, false)
  else ({ s with crioPreferred := s.crioPreferred || crioSocket, ready := true }, true)

def capabilities (s : CgroupClassifier) : List QString :=
  if !s.ready then [] else ["container-attribution".toList, "container-chain".toList]

/-- The chain in a cgroup file. -/
def chainOf (fromUtf8 : QByteArray → QString) (crioPreferred : Bool) (files : ProcFiles) :
    List ContainerInfo :=
  files.cgroup.elim [] fun data =>
    classifyProcCgroupChain (fromUtf8 (data.take 4096)) (if crioPreferred then .PreferCrio else .Auto)

/-- `before` is what the call finds when it comes, `after` when it opens the cgroup file. -/
def resolveContainerChainForPid (fromUtf8 : QByteArray → QString) (s : CgroupClassifier) (pid : Int32)
    (before : ProcFiles) (now : Int) (after : ProcFiles) : CgroupClassifier × List ContainerInfo :=
  if !s.ready || pid ≤ 0 then (s, [])
  else
    match pidStartTime pid before with
    | none => (s, [])
    | some stNow =>
        let refresh :=
          let chain := chainOf fromUtf8 s.crioPreferred after
          let cache := if s.cache.keys.length ≥ kCacheMaxItems then ∅ else s.cache
          ({ s with cache := cache.insert pid ⟨chain, now, stNow⟩ }, chain)
        match s.cache.lookup pid with
        | some it => if it.startTime = stNow ∧ now - it.ts < s.cacheTtlMs then (s, it.chain) else refresh
        | none => refresh

def resolveContainerForPid (fromUtf8 : QByteArray → QString) (s : CgroupClassifier) (pid : Int32)
    (before : ProcFiles) (now : Int) (after : ProcFiles) : CgroupClassifier × Option ContainerInfo :=
  let (s, chain) := s.resolveContainerChainForPid fromUtf8 pid before now after
  (s, chain.getLast?)

end CgroupClassifier

/-! ### Calls -/

/-- The moments of a call: when it comes, when it has the lock and reads the clock, and when it opens the
cgroup file, if it does. -/
structure Call where
  pid : Int32
  came : ℕ
  locked : ℕ
  opened : ℕ
  came_le : came ≤ locked
  locked_le : locked ≤ opened

inductive Request where
  | lookup (c : Call)
  | setTuning (tuning : ResolverTuning)

def Request.call? : Request → Option Call
  | .lookup c => some c
  | .setTuning _ => none

/-- One has the lock after the other. -/
def Request.Before : Request → Request → Prop
  | .lookup c, .lookup c' => c.opened ≤ c'.locked
  | _, _ => True

/-- What a call is answered, and how old an answer could be. -/
structure Answer where
  call : Call
  ttl : Int
  chain : List ContainerInfo

section World
variable (fromUtf8 : QByteArray → QString) (W : ℕ → Int32 → ProcFiles) (clock : ℕ → Int)

def step (s : CgroupClassifier) : Request → CgroupClassifier × List Answer
  | .lookup c =>
      let r := s.resolveContainerChainForPid fromUtf8 c.pid (W c.came c.pid) (clock c.locked)
        (W c.opened c.pid)
      (r.1, [⟨c, s.cacheTtlMs, r.2⟩])
  | .setTuning tuning => (s.setTuning tuning, [])

/-- The clock is not set back. -/
def Monotonic (clock : ℕ → Int) : Prop := ∀ i j, i ≤ j → clock i ≤ clock j

/-- A pid that has a start time at two moments had one process in between. -/
def OneProcess {P : Type} (who : ℕ → Int32 → Option P) : Prop :=
  ∀ pid i j st, i ≤ j → pidStartTime pid (W i pid) = some st → pidStartTime pid (W j pid) = some st →
    ∀ k, i ≤ k → k ≤ j → who k pid = who j pid

/-- An answer is what the file held at a moment, not too long ago: during the call, or before it with the
same process. -/
def Current {P : Type} (who : ℕ → Int32 → Option P) (crioPreferred : Bool) (a : Answer) : Prop :=
  ∃ m ≤ a.call.opened,
    a.chain = CgroupClassifier.chainOf fromUtf8 crioPreferred (W m a.call.pid) ∧
      clock a.call.locked - clock m < a.ttl ∧
      (a.call.came ≤ m ∨ who m a.call.pid = who a.call.came a.call.pid)

/-- A pid without a start time when the call comes has no chain, and any other a current one. -/
structure Sound {P : Type} (who : ℕ → Int32 → Option P) (crioPreferred : Bool) (a : Answer) : Prop where
  absent : pidStartTime a.call.pid (W a.call.came a.call.pid) = none → a.chain = []
  present : ∀ st, pidStartTime a.call.pid (W a.call.came a.call.pid) = some st →
    Current fromUtf8 W clock who crioPreferred a

variable {fromUtf8 W clock} {P : Type} {who : ℕ → Int32 → Option P}

/-- A call is not for a process there is, or is answered from the cache, or reads the file. -/
theorem resolve_cases (s : CgroupClassifier) (pid : Int32) (before : ProcFiles) (now : Int)
    (after : ProcFiles) :
    let r := s.resolveContainerChainForPid fromUtf8 pid before now after
    (r = (s, []) ∧ (s.ready = false ∨ pidStartTime pid before = none)) ∨
      ∃ st, pidStartTime pid before = some st ∧
        ((∃ it, s.cache.lookup pid = some it ∧ it.startTime = st ∧ now - it.ts < s.cacheTtlMs ∧
            r = (s, it.chain)) ∨
          ∃ cache, (cache = ∅ ∨ cache = s.cache ∧ s.cache.keys.length < kCacheMaxItems) ∧
            r = ({ s with cache := cache.insert pid ⟨CgroupClassifier.chainOf fromUtf8 s.crioPreferred after,
              now, st⟩ }, CgroupClassifier.chainOf fromUtf8 s.crioPreferred after)) := by
  intro r
  have hcache : ∃ cache : Hash Int32 CacheEntry,
      (cache = ∅ ∨ cache = s.cache ∧ s.cache.keys.length < kCacheMaxItems) ∧
        (if s.cache.keys.length ≥ kCacheMaxItems then ∅ else s.cache) = cache := by
    split
    · exact ⟨∅, .inl rfl, rfl⟩
    · next hroom => exact ⟨s.cache, .inr ⟨rfl, not_le.mp hroom⟩, rfl⟩
  obtain ⟨cache, hcases, hcache⟩ := hcache
  have hr : r = s.resolveContainerChainForPid fromUtf8 pid before now after := rfl
  unfold CgroupClassifier.resolveContainerChainForPid at hr
  by_cases hready : (!s.ready || decide (pid ≤ 0)) = true
  · rw [if_pos hready] at hr
    refine .inl ⟨hr, ?_⟩
    rw [Bool.or_eq_true, Bool.not_eq_true', decide_eq_true_eq] at hready
    exact hready.imp_right fun hpid => if_pos hpid
  · rw [if_neg hready, hcache] at hr
    cases hst : pidStartTime pid before with
    | none =>
        rw [hst] at hr
        exact .inl ⟨hr, .inr rfl⟩
    | some st =>
        rw [hst] at hr
        refine .inr ⟨st, rfl, ?_⟩
        cases hit : s.cache.lookup pid with
        | none =>
            rw [hit] at hr
            exact .inr ⟨cache, hcases, hr⟩
        | some it =>
            rw [hit] at hr
            dsimp only at hr
            by_cases hfresh : it.startTime = st ∧ now - it.ts < s.cacheTtlMs
            · rw [if_pos hfresh] at hr
              exact .inl ⟨it, rfl, hfresh.1, hfresh.2, hr⟩
            · rw [if_neg hfresh] at hr
              exact .inr ⟨cache, hcases, hr⟩

/-! ### What is remembered -/

theorem safeContainerTtlMs_pos (raw : Int) : 0 < safeContainerTtlMs raw kCacheTtlMs kMinCacheTtlMs := by
  unfold safeContainerTtlMs kCacheTtlMs kMinCacheTtlMs
  split
  · decide
  · split <;> omega

/-- An entry was read by a call that had the file open by the given moment. -/
def ReadBy (fromUtf8 : QByteArray → QString) (W : ℕ → Int32 → ProcFiles) (clock : ℕ → Int)
    (crioPreferred : Bool) (moment : ℕ) (pid : Int32) (it : CacheEntry) : Prop :=
  ∃ c : Call, c.pid = pid ∧ c.opened ≤ moment ∧ it.ts = clock c.locked ∧
    pidStartTime pid (W c.came pid) = some it.startTime ∧
    it.chain = CgroupClassifier.chainOf fromUtf8 crioPreferred (W c.opened pid)

/-- The classifier at a moment. -/
structure Remembers (fromUtf8 : QByteArray → QString) (W : ℕ → Int32 → ProcFiles) (clock : ℕ → Int)
    (moment : ℕ) (s : CgroupClassifier) : Prop where
  entries : ∀ pid it, s.cache.lookup pid = some it →
    ReadBy fromUtf8 W clock s.crioPreferred moment pid it
  ttl : 0 < s.cacheTtlMs
  size : s.cache.keys.length ≤ kCacheMaxItems

theorem ReadBy.mono {crioPreferred : Bool} {moment moment' : ℕ} {pid : Int32} {it : CacheEntry}
    (h : ReadBy fromUtf8 W clock crioPreferred moment pid it) (hle : moment ≤ moment') :
    ReadBy fromUtf8 W clock crioPreferred moment' pid it := by
  obtain ⟨c, hpid, hopened, hrest⟩ := h
  exact ⟨c, hpid, hopened.trans hle, hrest⟩

theorem Remembers.mono {moment moment' : ℕ} {s : CgroupClassifier}
    (h : Remembers fromUtf8 W clock moment s) (hle : moment ≤ moment') :
    Remembers fromUtf8 W clock moment' s :=
  ⟨fun pid it hit => (h.entries pid it hit).mono hle, h.ttl, h.size⟩

/-- An entry that is used was read of the process that the call is about, or during the call. -/
theorem ReadBy.current (hclock : Monotonic clock) (hwho : OneProcess W who) {crioPreferred : Bool} {c : Call}
    {it : CacheEntry} {ttl : Int} (h : ReadBy fromUtf8 W clock crioPreferred c.locked c.pid it)
    (hst : pidStartTime c.pid (W c.came c.pid) = some it.startTime)
    (hfresh : clock c.locked - it.ts < ttl) :
    Current fromUtf8 W clock who crioPreferred ⟨c, ttl, it.chain⟩ := by
  obtain ⟨c', hpid, hopened, hts, hst', hchain⟩ := h
  refine ⟨c'.opened, hopened.trans c.locked_le, hchain, ?_, ?_⟩
  · have hlater := hclock _ _ c'.locked_le
    rw [hts] at hfresh
    show clock c.locked - clock c'.opened < ttl
    omega
  · rcases le_or_gt c.came c'.opened with hduring | hbefore
    · exact .inl hduring
    · have hcame : c'.came ≤ c'.opened := c'.came_le.trans c'.locked_le
      exact .inr (hwho c.pid c'.came c.came _ (hcame.trans hbefore.le) hst' hst c'.opened hcame hbefore.le)

/-- **One call**: its answer, and what is remembered after it. -/
theorem Remembers.lookup (hclock : Monotonic clock) (hwho : OneProcess W who) {s : CgroupClassifier}
    {c : Call} (h : Remembers fromUtf8 W clock c.locked s) (hready : s.ready = true) :
    Remembers fromUtf8 W clock c.opened (step fromUtf8 W clock s (.lookup c)).1 ∧
      (step fromUtf8 W clock s (.lookup c)).1.ready = true ∧
      (step fromUtf8 W clock s (.lookup c)).1.crioPreferred = s.crioPreferred ∧
      ∀ a ∈ (step fromUtf8 W clock s (.lookup c)).2, Sound fromUtf8 W clock who s.crioPreferred a := by
  have hkept := h.mono c.locked_le
  simp only [step, List.mem_singleton, forall_eq]
  obtain ⟨hr, hnone⟩ | ⟨st, hst, ⟨it, hit, hstart, hfresh, hr⟩ | ⟨cache, hcache, hr⟩⟩ :=
    resolve_cases s c.pid (W c.came c.pid) (clock c.locked) (W c.opened c.pid)
  · rw [hr]
    have habsent := hnone.resolve_left (by rw [hready]; exact nofun)
    exact ⟨hkept, hready, rfl, fun _ => rfl, fun st hst => absurd (habsent.symm.trans hst) nofun⟩
  · rw [hr]
    refine ⟨hkept, hready, rfl, fun hnone => absurd (hst.symm.trans hnone) nofun, fun _ _ => ?_⟩
    exact (h.entries _ it hit).current hclock hwho (hstart ▸ hst) hfresh
  · rw [hr]
    refine ⟨⟨?_, h.ttl, ?_⟩, hready, rfl, fun hnone => absurd (hst.symm.trans hnone) nofun,
      fun _ _ => ⟨c.opened, le_rfl, rfl, ?_, .inl ?_⟩⟩
    · intro pid it hit
      rw [Hash.lookup_insert_ite] at hit
      split at hit
      · next heq =>
          cases hit
          exact ⟨c, heq.symm, le_rfl, rfl, heq ▸ hst, heq ▸ rfl⟩
      · rcases hcache with rfl | ⟨rfl, -⟩
        · cases hit
        · exact hkept.entries pid it hit
    · rw [Hash.length_keys_insert]
      rcases hcache with rfl | ⟨rfl, hroom⟩
      · rw [if_neg (AList.notMem_empty _)]
        exact Nat.le_of_ble_eq_true rfl
      · split <;> omega
    · have := hclock _ _ c.locked_le
      have := h.ttl
      show clock c.locked - clock c.opened < s.cacheTtlMs
      omega
    · exact c.came_le.trans c.locked_le

/-! ### Runs -/

/-- What the classifier answers from a moment on. -/
theorem Remembers.answers (hclock : Monotonic clock) (hwho : OneProcess W who) {moment : ℕ}
    {s : CgroupClassifier} (h : Remembers fromUtf8 W clock moment s) (hready : s.ready = true)
    {rs : List Request} (hlater : ∀ c, Request.lookup c ∈ rs → moment ≤ c.locked)
    (hrs : rs.Pairwise Request.Before) :
    (∀ a ∈ (run (step fromUtf8 W clock) s rs).2, Sound fromUtf8 W clock who s.crioPreferred a) ∧
      (run (step fromUtf8 W clock) s rs).1.cache.keys.length ≤ kCacheMaxItems := by
  induction rs generalizing moment s with
  | nil => exact ⟨fun a ha => absurd ha List.not_mem_nil, h.size⟩
  | cons r rs ih =>
      rw [List.pairwise_cons] at hrs
      simp only [run]
      cases r with
      | lookup c =>
          have hcame := h.mono (hlater c List.mem_cons_self)
          obtain ⟨hnext, hready', hcrio, hanswer⟩ := hcame.lookup hclock hwho hready
          obtain ⟨hrest, hsize⟩ := ih hnext hready' (fun c' hc' => hrs.1 _ hc') hrs.2
          refine ⟨fun a ha => ?_, hsize⟩
          rcases List.mem_append.mp ha with ha | ha
          · exact hanswer a ha
          · exact hcrio ▸ hrest a ha
      | setTuning tuning =>
          have hnext : Remembers fromUtf8 W clock moment (s.setTuning tuning) :=
            ⟨h.entries, safeContainerTtlMs_pos _, h.size⟩
          exact ih hnext hready (fun c hc => hlater c (List.mem_cons_of_mem _ hc)) hrs.2

/-- Each lookup is answered, in turn. -/
theorem run_calls (s : CgroupClassifier) (rs : List Request) :
    (run (step fromUtf8 W clock) s rs).2.map Answer.call = rs.filterMap Request.call? := by
  induction rs generalizing s with
  | nil => rfl
  | cons r rs ih =>
      cases r with
      | lookup c => exact congrArg (c :: ·) (ih _)
      | setTuning tuning => exact ih _

/-- **Every answer is current**: whatever becomes of the pids, and however the calls of several threads and
new tunings follow one another, each lookup is answered; a process that is there is answered what its
cgroup file held during the call, or before the call and not longer ago than the cache may be old, when the
same process had the pid; and a pid without a start time is answered no chain.  The cache stays bounded. -/
theorem run_answers (hclock : Monotonic clock) (hwho : OneProcess W who) (tuning : ResolverTuning)
    (crioSocket : Bool) {rs : List Request} (hrs : rs.Pairwise Request.Before) :
    let r := run (step fromUtf8 W clock) ((CgroupClassifier.make tuning).initialized true crioSocket).1 rs
    r.2.map Answer.call = rs.filterMap Request.call? ∧
      (∀ a ∈ r.2, Sound fromUtf8 W clock who crioSocket a) ∧
      r.1.cache.keys.length ≤ kCacheMaxItems := by
  let s := ((CgroupClassifier.make tuning).initialized true crioSocket).1
  have hstart : Remembers fromUtf8 W clock 0 s :=
    ⟨fun pid it hit => (by cases hit), safeContainerTtlMs_pos _, Nat.zero_le _⟩
  exact ⟨run_calls s rs, hstart.answers hclock hwho rfl (fun c _ => Nat.zero_le _) hrs⟩

end World

/-! ### An example -/

/-- A process in a container, and the one that gets its pid. -/
def contained : ProcFiles where
  stat := some (toUtf8 "7 (sh) S 1 7 7 0 -1 0 0 0 0 0 0 0 0 0 20 0 1 0 100 0".toList)
  cgroup := some (toUtf8 "0::/machine.slice/lxc.payload.web".toList)

def native : ProcFiles where
  stat := some (toUtf8 "7 (cat) S 1 7 7 0 -1 0 0 0 0 0 0 0 0 0 20 0 1 0 200 0".toList)
  cgroup := some (toUtf8 "0::/".toList)

def recycledFiles (moment : ℕ) (pid : Int32) : ProcFiles :=
  if pid = 7 then if moment < 3 then contained else native else {}

theorem recycledFiles_one : OneProcess recycledFiles fun moment _ => some (decide (moment < 3)) := by
  intro pid i j st hij hi hj k hik hkj
  have hcontained : pidStartTime 7 contained = some 100 := by decide +kernel
  have hnative : pidStartTime 7 native = some 200 := by decide +kernel
  have hno : pidStartTime pid {} = none := by simp [pidStartTime]
  unfold recycledFiles at hi hj
  by_cases hpid : pid = 7
  · subst hpid
    rw [if_pos rfl] at hi hj
    by_cases hbefore : j < 3
    · simp [show k < 3 by omega, hbefore]
    · by_cases hafter : i < 3
      · rw [if_pos hafter, hcontained] at hi
        rw [if_neg hbefore, hnative, ← hi] at hj
        exact absurd (Option.some.inj hj) (by decide)
      · simp [show ¬ k < 3 by omega, hbefore]
  · rw [if_neg hpid, hno] at hi
    cases hi

/-- Two calls about pid 7, in the container and after it. -/
def recycledCalls : List Request :=
  [.lookup ⟨7, 0, 1, 2, by decide, by decide⟩, .lookup ⟨7, 4, 5, 6, by decide, by decide⟩]

theorem recycledFiles_current :
    let r := run (step (fun b => (fromUtf8 b).getD []) recycledFiles fun moment => moment)
      ((CgroupClassifier.make {}).initialized true false).1 recycledCalls
    r.2.map Answer.call = recycledCalls.filterMap Request.call? ∧
      (∀ a ∈ r.2, Sound (fun b => (fromUtf8 b).getD []) recycledFiles (fun moment => moment)
        (fun moment _ => some (decide (moment < 3))) false a) ∧
      r.1.cache.keys.length ≤ kCacheMaxItems :=
  run_answers (fun _ _ h => Int.ofNat_le.mpr h) recycledFiles_one {} false (by
    simp [recycledCalls, Request.Before])

end Qiftop.Backend.Cgroup
