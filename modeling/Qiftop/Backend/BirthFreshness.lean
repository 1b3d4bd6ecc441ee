import Qiftop.Backend.BpfBirthResolver

/-!
# Backend — what a birth is good for

Right after a birth the resolver should answer its flow with its pid, and its pid with its process.  The
cache sees to the first: a new key that finds it full clears it before it goes in, so the newest birth
is always there.  The table by pid is cleared after the entry went in, and loses the newest one with the
others: `fresh_iff`.

The bound of the cache, and that it answers with the newest birth of a key only (`Newest`), hold after
every history.
-/

namespace Qiftop.Backend
open Qt Lib
namespace BpfBirthResolver

/-! ### The newest births -/

/-- A birth as the cache keeps it. -/
def stamped (rec : BirthRecord) (nowMs : Int) : BirthRecord := { rec with insertedMonoMs := nowMs }

/-- The birth a call reports under a key. -/
def Call.birth (key : BirthKey) : Call → Option BirthRecord
  | .onBirth k rec nowMs => if k = key then some (stamped rec nowMs) else none
  | _ => none

/-- The last birth reported under a key. -/
def lastBirth (history : List Call) (key : BirthKey) : Option BirthRecord :=
  history.reverse.findSome? (Call.birth key)

theorem lastBirth_concat (history : List Call) (call : Call) (key : BirthKey) :
    lastBirth (history ++ [call]) key = (call.birth key).or (lastBirth history key) := by
  rw [lastBirth, List.reverse_append, List.reverse_singleton, List.singleton_append,
    List.findSome?_cons, lastBirth]
  cases call.birth key <;> rfl

/-- What the cache holds after a call it held before, or the call reported it. -/
theorem lookup_step {s : BpfBirthResolver} {call : Call} {k : BirthKey} {r : BirthRecord}
    (h : (s.step call).cache.map.lookup k = some r) :
    call.birth k = some r ∨ call.birth k = none ∧ s.cache.map.lookup k = some r := by
  cases call with
  | onBirth key rec nowMs =>
      rw [step, onBirth, BirthCache.lookup_insert] at h
      rw [Call.birth]
      split at h
      · next hk => exact .inl (by rw [if_pos hk.symm]; exact h)
      · next hk =>
          split at h
          · cases h
          · exact .inr ⟨if_neg fun e => hk e.symm, h⟩
  | resolvePid probe flow nowMs =>
      refine .inr ⟨rfl, ?_⟩
      rw [step] at h
      rcases s.resolvePid_state probe flow nowMs with hs | hs
      · rwa [hs] at h
      · rw [hs, removeBirth, BirthCache.lookup_remove] at h
        split at h
        · cases h
        · exact h
  | enrichPid pid => exact .inr ⟨rfl, h⟩
  | prune nowMs =>
      refine .inr ⟨rfl, ?_⟩
      rw [step, prune, BirthCache.lookup_prune, Option.bind_eq_some_iff] at h
      obtain ⟨r', hr', h⟩ := h
      split at h
      · cases h
      · rwa [Option.some.inj h] at hr'
  | setLoaded loaded => exact .inr ⟨rfl, h⟩

/-- Every birth in the cache is the last one reported under its key. -/
def Newest (history : List Call) (s : BpfBirthResolver) : Prop :=
  ∀ k r, s.cache.map.lookup k = some r → lastBirth history k = some r

theorem Newest.step {history : List Call} {s : BpfBirthResolver} (h : Newest history s) (call : Call) :
    Newest (history ++ [call]) (s.step call) := by
  intro k r hr
  rw [lastBirth_concat]
  rcases lookup_step hr with hbirth | ⟨hnone, hold⟩
  · rw [hbirth]
    rfl
  · rw [hnone]
    exact h k r hold

theorem newest_after (maxEntries ttlMs : Int) (history : List Call) :
    Newest history (after maxEntries ttlMs history) := by
  induction history using List.reverseRecOn with
  | nil =>
      intro k r hr
      cases hr
  | append_singleton history call ih =>
      rw [after, List.foldl_append]
      exact ih.step call

/-- Size and age are those of the constructor. -/
theorem step_limits (s : BpfBirthResolver) (call : Call) :
    (s.step call).cache.maxEntries = s.cache.maxEntries ∧ (s.step call).cache.ttlMs = s.cache.ttlMs := by
  cases call with
  | resolvePid probe flow nowMs =>
      rw [step]
      rcases s.resolvePid_state probe flow nowMs with hs | hs
      · rw [hs]
        exact ⟨rfl, rfl⟩
      · rw [hs]
        exact ⟨rfl, rfl⟩
  | onBirth _ _ _ | enrichPid _ | prune _ | setLoaded _ => exact ⟨rfl, rfl⟩

theorem after_limits (maxEntries ttlMs : Int) (history : List Call) :
    (after maxEntries ttlMs history).cache.maxEntries = (BirthCache.create maxEntries ttlMs).maxEntries ∧
      (after maxEntries ttlMs history).cache.ttlMs = (BirthCache.create maxEntries ttlMs).ttlMs := by
  refine foldl_invariant (I := fun s : BpfBirthResolver => s.cache.maxEntries = _ ∧ s.cache.ttlMs = _)
    (fun s call h => ?_) ⟨rfl, rfl⟩ history
  obtain ⟨hmax, httl⟩ := step_limits s call
  exact ⟨hmax.trans h.1, httl.trans h.2⟩

/-! ### Right after a birth -/

/-- What a birth promises, read right after it: its flow is answered with its pid and its pid with its
process; and on the way there the cache kept its bound and answered with the newest births that had not
aged out. -/
structure Fresh (maxEntries ttlMs : Int) (history : List Call) (rec : BirthRecord) (nowMs : Int)
    (startTimeProbe : Int32 → UInt64) (flow : Connection) (nowMs' : Int) : Prop where
  resolves : ((after maxEntries ttlMs (history ++ [.onBirth (birthKeyOf flow) rec nowMs])).resolvePid
    (some startTimeProbe) flow nowMs').2 = rec.pid
  enriches : (after maxEntries ttlMs (history ++ [.onBirth (birthKeyOf flow) rec nowMs])).enrichPid
    rec.pid = some rec.info
  bounded : ∀ pre, pre <+: history ++ [.onBirth (birthKeyOf flow) rec nowMs] →
    (after maxEntries ttlMs pre).cache.size ≤ (BirthCache.create maxEntries ttlMs).maxEntries
  newest : ∀ pre, pre <+: history ++ [.onBirth (birthKeyOf flow) rec nowMs] → ∀ key t r,
    (after maxEntries ttlMs pre).cache.find key t = some r →
      lastBirth pre key = some r ∧ t - r.insertedMonoMs ≤ (BirthCache.create maxEntries ttlMs).ttlMs

theorem after_concat (maxEntries ttlMs : Int) (history : List Call) (call : Call) :
    after maxEntries ttlMs (history ++ [call]) = (after maxEntries ttlMs history).step call :=
  List.foldl_append

theorem size_after_le (maxEntries ttlMs : Int) (history : List Call) :
    (after maxEntries ttlMs history).cache.size ≤ (BirthCache.create maxEntries ttlMs).maxEntries := by
  rw [← (after_limits maxEntries ttlMs history).1]
  exact (after maxEntries ttlMs history).cache.bounded

theorem find_after {maxEntries ttlMs : Int} {history : List Call} {key : BirthKey} {t : Int}
    {r : BirthRecord} (h : (after maxEntries ttlMs history).cache.find key t = some r) :
    lastBirth history key = some r ∧
      t - r.insertedMonoMs ≤ (BirthCache.create maxEntries ttlMs).ttlMs := by
  obtain ⟨hr, hlive⟩ := BirthCache.find_eq_some_iff.mp h
  refine ⟨newest_after maxEntries ttlMs history key r hr, ?_⟩
  rw [BirthCache.expired, decide_eq_false_iff_not, (after_limits maxEntries ttlMs history).2] at hlive
  omega

/-- A birth that has not aged out and whose process is alive answers its flow. -/
theorem resolvePid_onBirth {s : BpfBirthResolver} (hloaded : s.loaded = true) {rec : BirthRecord}
    (hvalid : rec.valid = true) {probe : Int32 → UInt64} (hprobe : probe rec.pid = rec.startTime)
    (halive : rec.startTime ≠ 0) (flow : Connection) {nowMs nowMs' : Int}
    (hage : nowMs' - nowMs ≤ s.cache.ttlMs) :
    ((s.onBirth (birthKeyOf flow) rec nowMs).resolvePid (some probe) flow nowMs').2 = rec.pid := by
  have hfind : (s.onBirth (birthKeyOf flow) rec nowMs).cache.find (birthKeyOf flow) nowMs' =
      some (stamped rec nowMs) := by
    rw [BirthCache.find_eq_some_iff, onBirth, BirthCache.lookup_insert, if_pos rfl]
    exact ⟨rfl, decide_eq_false (not_lt.mpr hage)⟩
  have hloaded' : (s.onBirth (birthKeyOf flow) rec nowMs).loaded = true := hloaded
  have hvalid' : (stamped rec nowMs).valid = true := hvalid
  have hkept : rejects (stamped rec nowMs) (probe (stamped rec nowMs).pid) = false := by
    have hlive : probe (stamped rec nowMs).pid = rec.startTime := hprobe
    rw [hlive, rejects]
    simp [halive, stamped]
  rw [resolvePid, hloaded', hfind]
  simp only [Bool.not_true, Bool.false_eq_true, if_false, hvalid', hkept]
  rfl

theorem enrichPid_onBirth {s : BpfBirthResolver} (hloaded : s.loaded = true) {rec : BirthRecord}
    (hvalid : rec.valid = true) (key : BirthKey) (nowMs : Int) :
    (s.onBirth key rec nowMs).enrichPid rec.pid = (s.enrolled rec).lookup rec.pid := by
  have hpos : ¬ rec.pid ≤ 0 := Int32.not_le.mpr (of_decide_eq_true hvalid)
  rw [enrichPid, onBirth]
  dsimp only
  rw [hloaded, decide_eq_false hpos]
  rfl

/-- **When a birth is good for what it promises.**  After every history of a loaded resolver, for a
valid birth whose process is alive with the recorded start time: exactly when its pid was in the table
by pid already or that table had room. -/
theorem fresh_iff (maxEntries ttlMs : Int) (history : List Call)
    (hloaded : (after maxEntries ttlMs history).loaded = true) (rec : BirthRecord)
    (hvalid : rec.valid = true) (startTimeProbe : Int32 → UInt64)
    (hprobe : startTimeProbe rec.pid = rec.startTime) (halive : rec.startTime ≠ 0) (flow : Connection)
    (nowMs nowMs' : Int) (hage : nowMs' - nowMs ≤ (BirthCache.create maxEntries ttlMs).ttlMs) :
    Fresh maxEntries ttlMs history rec nowMs startTimeProbe flow nowMs' ↔
      rec.pid ∈ (after maxEntries ttlMs history).enrichByPid ∨
        (after maxEntries ttlMs history).enrichByPid.keys.length <
          (BirthCache.create maxEntries ttlMs).maxEntries := by
  obtain ⟨hmax, httl⟩ := after_limits maxEntries ttlMs history
  have henriches : (after maxEntries ttlMs
      (history ++ [.onBirth (birthKeyOf flow) rec nowMs])).enrichPid rec.pid =
      ((after maxEntries ttlMs history).enrolled rec).lookup rec.pid := by
    rw [after_concat]
    exact enrichPid_onBirth hloaded hvalid _ _
  rw [← hmax, ← lookup_enrolled_iff hvalid, ← henriches]
  constructor
  · exact fun h => h.enriches
  · intro h
    refine ⟨?_, h, fun pre _ => size_after_le maxEntries ttlMs pre, fun pre _ key t r => find_after⟩
    rw [after_concat]
    exact resolvePid_onBirth hloaded hvalid hprobe halive flow (by rwa [httl])

/-- A first birth is good for what it promises. -/
theorem first_birth_fresh :
    Fresh 0 0 [.setLoaded true] { pid := 4242, comm := "curl".toList, startTime := 99 } 0
      (fun _ => 99) {} 10 :=
  (fresh_iff 0 0 [.setLoaded true] rfl { pid := 4242, comm := "curl".toList, startTime := 99 }
    (by decide) (fun _ => 99) rfl (by decide) {} 0 10 (by decide)).mpr (.inr (by decide))

/-! ### A full table -/

/-- A birth of each of these pids. -/
def birthsOf (pids : List Int32) : List Call :=
  pids.map fun pid => .onBirth {} { pid, startTime := 1 } 0

/-- A new pid in a table with room. -/
theorem enrolled_of_room {s : BpfBirthResolver} {rec : BirthRecord} (hvalid : rec.valid = true)
    (hpid : rec.pid ∉ s.enrichByPid) (hroom : s.enrichByPid.keys.length < s.cache.maxEntries) :
    s.enrolled rec = s.enrichByPid.insert rec.pid rec.info := by
  rw [enrolled, if_pos hvalid]
  dsimp only
  rw [Hash.length_keys_insert, if_neg hpid, if_neg (by omega)]

/-- The table by pid fills up. -/
theorem enrichByPid_birthsOf {pids : List Int32} (hnd : pids.Nodup) (hpos : ∀ pid ∈ pids, 0 < pid)
    (hlen : pids.length ≤ 65536) :
    (after 0 0 (.setLoaded true :: birthsOf pids)).loaded = true ∧
      (∀ pid, pid ∈ (after 0 0 (.setLoaded true :: birthsOf pids)).enrichByPid ↔ pid ∈ pids) ∧
      (after 0 0 (.setLoaded true :: birthsOf pids)).enrichByPid.keys.length = pids.length := by
  induction pids using List.reverseRecOn with
  | nil => exact ⟨rfl, fun pid => by simp [after, birthsOf, step, setLoaded], rfl⟩
  | append_singleton pids pid ih =>
      obtain ⟨hnd', -, hdis⟩ := List.nodup_append.mp hnd
      rw [List.length_append, List.length_singleton] at hlen
      obtain ⟨hloaded, hmem, hsize⟩ :=
        ih hnd' (fun p hp => hpos p (List.mem_append_left _ hp)) (by omega)
      have hnew : pid ∉ (after 0 0 (.setLoaded true :: birthsOf pids)).enrichByPid := fun hm =>
        hdis pid ((hmem pid).mp hm) pid (List.mem_singleton_self pid) rfl
      have hmax : (after 0 0 (.setLoaded true :: birthsOf pids)).cache.maxEntries = 65536 :=
        (after_limits 0 0 _).1
      have hnext : (after 0 0 (.setLoaded true :: birthsOf (pids ++ [pid]))) =
          (after 0 0 (.setLoaded true :: birthsOf pids)).onBirth {} { pid, startTime := 1 } 0 := by
        rw [birthsOf, List.map_append, ← List.cons_append]
        exact after_concat 0 0 _ _
      have htable : (after 0 0 (.setLoaded true :: birthsOf (pids ++ [pid]))).enrichByPid =
          (after 0 0 (.setLoaded true :: birthsOf pids)).enrichByPid.insert pid { pid } := by
        have hvalid : BirthRecord.valid { pid, startTime := 1 } = true :=
          decide_eq_true (hpos pid (List.mem_append_right _ (List.mem_singleton_self pid)))
        rw [hnext]
        exact enrolled_of_room hvalid hnew (by omega)
      rw [htable]
      refine ⟨by rw [hnext]; exact hloaded, fun p => ?_, ?_⟩
      · rw [AList.mem_insert, hmem, List.mem_append, List.mem_singleton]
        exact or_comm
      · rw [Hash.length_keys_insert, if_neg hnew, hsize, List.length_append, List.length_singleton]

/-- The pids from 1 to 65536. -/
def manyPids : List Int32 := (List.range 65536).map fun i => Int32.ofNat (i + 1)

theorem manyPids_spec : manyPids.Nodup ∧ (∀ pid ∈ manyPids, 0 < pid) ∧ Int32.ofNat 65537 ∉ manyPids := by
  have hval : ∀ i < 65537, (Int32.ofNat (i + 1)).toInt = i + 1 := by
    intro i hi
    exact_mod_cast Int32.toInt_ofNat_of_lt (show i + 1 < 2 ^ 31 by omega)
  refine ⟨?_, ?_, ?_⟩
  · refine List.nodup_range.map_on fun i hi j hj h => ?_
    have heq := congrArg Int32.toInt h
    rw [hval i (by have := List.mem_range.mp hi; omega),
      hval j (by have := List.mem_range.mp hj; omega)] at heq
    omega
  · intro pid hpid
    obtain ⟨i, hi, rfl⟩ := List.mem_map.mp hpid
    rw [Int32.lt_iff_toInt_lt, hval i (by have := List.mem_range.mp hi; omega)]
    change (0 : Int) < _
    omega
  · intro h
    obtain ⟨i, hi, heq⟩ := List.mem_map.mp h
    have hi := List.mem_range.mp hi
    have heq := congrArg Int32.toInt heq
    rw [hval i (by omega), hval 65536 (by omega)] at heq
    omega

/-- The birth that follows 65536 others is forgotten by the table it overflows. -/
theorem overflowing_birth_lost :
    ¬ ∀ (history : List Call), (after 0 0 history).loaded = true → ∀ (rec : BirthRecord),
      rec.valid = true → ∀ (startTimeProbe : Int32 → UInt64),
      startTimeProbe rec.pid = rec.startTime → rec.startTime ≠ 0 → ∀ (flow : Connection) (nowMs : Int),
      Fresh 0 0 history rec nowMs startTimeProbe flow nowMs := by
  intro h
  obtain ⟨hnd, hpos, hnew⟩ := manyPids_spec
  have hcount : manyPids.length = 65536 := by rw [manyPids, List.length_map, List.length_range]
  obtain ⟨hloaded, hmem, hsize⟩ := enrichByPid_birthsOf hnd hpos hcount.le
  have hvalid : BirthRecord.valid { pid := Int32.ofNat 65537, startTime := 1 } = true := by decide
  have hfresh := h (.setLoaded true :: birthsOf manyPids) hloaded
    { pid := Int32.ofNat 65537, startTime := 1 } hvalid (fun _ => 1) rfl (by decide) {} 0
  have hmax : (after 0 0 (.setLoaded true :: birthsOf manyPids)).cache.maxEntries = 65536 :=
    (after_limits 0 0 _).1
  have hkept := hfresh.enriches
  rw [after_concat] at hkept
  rcases (lookup_enrolled_iff hvalid).mp ((enrichPid_onBirth hloaded hvalid _ _).symm.trans hkept) with
    hkept | hkept
  · exact hnew ((hmem _).mp hkept)
  · omega

end BpfBirthResolver

end Qiftop.Backend
