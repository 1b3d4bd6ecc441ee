import Qiftop.Backend.CgroupChain

/-!
# Backend — what names are read as

The scopes the container engines write, and the pods.

`classifyPathChain_scopes`: a path of scopes is reported scope by scope.  The two-segment form of older
docker engines is only looked for where no segment stands for a container by itself.

`kubernetes_sound_iff`: the pattern for pods is not anchored, so a name such as podman's
`machine-libpod_pod_<id>.slice` is read as a pod's; this is exactly when the label is wrong, unless the
entry is cut.
-/

namespace Qiftop.Backend.Cgroup
open Qt Lib Lib.Pattern

/-! ### Scopes -/

/-- The id of a container: 64 hexadecimal digits. -/
structure ContainerId where
  digits : QString
  length : digits.length = 64
  hex : ∀ c ∈ digits, isHexDigit c = true

/-- A scope of a container, as its engine names it. -/
inductive Scope where
  /-- `docker/<id>` -/
  | legacy (id : ContainerId)
  /-- `docker-<id>.scope` -/
  | docker (id : ContainerId)
  /-- `cri-containerd-<id>.scope` -/
  | containerd (id : ContainerId)
  /-- `crio-<id>.scope` -/
  | crio (id : ContainerId)
  /-- `libpod-<id>.scope` -/
  | podman (id : ContainerId)

def scopeSegment (word : QString) (id : ContainerId) : QString := word ++ (id.digits ++ ".scope".toList)

def Scope.segments : Scope → List QString
  | .legacy id => ["docker".toList, id.digits]
  | .docker id => [scopeSegment "docker-".toList id]
  | .containerd id => [scopeSegment "cri-containerd-".toList id]
  | .crio id => [scopeSegment "crio-".toList id]
  | .podman id => [scopeSegment "libpod-".toList id]

/-- The runtime and the short id of a scope. -/
def Scope.info : Scope → ContainerInfo
  | .legacy id => { runtime := "docker".toList, id := id.digits.take 12 }
  | .docker id => { runtime := "docker".toList, id := id.digits.take 12 }
  | .containerd id => { runtime := "containerd".toList, id := id.digits.take 12 }
  | .crio id => { runtime := "cri-o".toList, id := id.digits.take 12 }
  | .podman id => { runtime := "podman".toList, id := id.digits.take 12 }

/-- A scope of one segment. -/
def Scope.single : Scope → Bool
  | .legacy _ => false
  | _ => true

/-- Segments as a path. -/
def joined (segs : List QString) : QString := segs.flatMap fun seg => '/' :: seg

/-- Scopes written one after another. -/
def pathOf (scopes : List Scope) : QString := joined (scopes.flatMap Scope.segments)

/-! ### Splitting a path -/

theorem splitOn_append {u : QString} (hu : '/' ∉ u) (t : QString) :
    (u ++ t).splitOn '/' = (t.splitOn '/').modifyHead (u ++ ·) := by
  induction u with
  | nil =>
      rw [List.nil_append]
      cases t.splitOn '/' <;> rfl
  | cons c u ih =>
      have hc : c ≠ '/' := fun e => hu (e ▸ List.mem_cons_self)
      rw [List.cons_append, List.splitOn_cons_eq_if_modifyHead, ih fun hm => hu (List.mem_cons_of_mem c hm)]
      simp [hc, List.modifyHead_modifyHead, Function.comp_def]

theorem splitOn_joined {segs : List QString} (h : ∀ seg ∈ segs, '/' ∉ seg) :
    (joined segs).splitOn '/' = [] :: segs := by
  induction segs with
  | nil => rfl
  | cons seg segs ih =>
      have hrest := ih fun s hs => h s (List.mem_cons_of_mem seg hs)
      rw [joined, List.flatMap_cons, List.cons_append, List.splitOn_cons_eq_if_modifyHead,
        splitOn_append (h seg List.mem_cons_self)]
      rw [joined] at hrest
      simp [hrest]

theorem segments_joined {segs : List QString} (h : ∀ seg ∈ segs, '/' ∉ seg) (hne : ∀ seg ∈ segs, seg ≠ []) :
    segments (joined segs) = segs := by
  rw [segments, splitOn_joined h, List.filter_cons_of_neg (by simp), List.filter_eq_self]
  intro seg hseg
  simpa using hne seg hseg

theorem ContainerId.notMem {id : ContainerId} {c : Char} (hc : isHexDigit c = false) : c ∉ id.digits := by
  intro hm
  rw [id.hex c hm] at hc
  cases hc

theorem ContainerId.ne_nil (id : ContainerId) : id.digits ≠ [] := by
  intro e
  have hlength := id.length
  rw [e] at hlength
  cases hlength

theorem scope_segments (s : Scope) : ∀ seg ∈ s.segments, '/' ∉ seg ∧ seg ≠ [] := by
  have hid : ∀ id : ContainerId, '/' ∉ id.digits := fun id => id.notMem (by decide)
  have hscope : ∀ (word : QString) (id : ContainerId), '/' ∉ word → word ≠ [] →
      '/' ∉ scopeSegment word id ∧ scopeSegment word id ≠ [] := by
    intro word id hword hne
    refine ⟨?_, List.append_ne_nil_of_left_ne_nil hne _⟩
    simp only [scopeSegment, List.mem_append, not_or]
    exact ⟨hword, hid id, by decide⟩
  cases s with
  | legacy id =>
      intro seg hseg
      rcases List.mem_pair.mp hseg with rfl | rfl
      · exact ⟨by decide, by decide⟩
      · exact ⟨hid id, id.ne_nil⟩
  | docker id | containerd id | crio id | podman id =>
      intro seg hseg
      rw [List.mem_singleton.mp hseg]
      exact hscope _ id (by decide) (by decide)

theorem segments_pathOf (scopes : List Scope) :
    segments (pathOf scopes) = scopes.flatMap Scope.segments := by
  have hall : ∀ seg ∈ scopes.flatMap Scope.segments, '/' ∉ seg ∧ seg ≠ [] := by
    intro seg hseg
    obtain ⟨s, -, hseg⟩ := List.mem_flatMap.mp hseg
    exact scope_segments s seg hseg
  exact segments_joined (fun seg hseg => (hall seg hseg).1) fun seg hseg => (hall seg hseg).2

/-! ### Reading a scope -/

/-- A scope is matched, and its id captured. -/
theorem exec_scopeOf (word : QString) (id : ContainerId) :
    ∃ m, (scopeOf word).exec (scopeSegment word id) = some m ∧ m.captured = id.digits := by
  have hid : greedy isHexDigit 64 (some 64) (id.digits ++ ".scope".toList) =
      [(id.digits, ".scope".toList)] := by
    have h := greedy_exact id.hex ".scope".toList
    rwa [id.length] at h
  have hend : ∀ start, (lit ".scope".toList last).run start ".scope".toList =
      [{ text := ".scope".toList, rest := [] }] := by
    intro start
    have h := run_lit_append ".scope".toList last start []
    rw [List.append_nil] at h
    rw [h]
    rfl
  rw [scopeOf, exec_first, scopeSegment, run_lit_append]
  simp only [Pattern.run, exactly, hid, List.map_cons, List.map_nil, List.flatMap_cons, List.flatMap_nil, hend]
  exact ⟨_, rfl, rfl⟩

/-- A rule whose word is not there does not apply. -/
theorem classify_absent {w seg : QString} (h : ¬ w <+: seg) (r : Pattern) (runtime : QString)
    (short : Bool) : SegmentRule.classify ⟨seq first (lit w r), runtime, short⟩ seg = none := by
  rw [SegmentRule.classify, exec_first_lit_absent h]
  rfl

theorem classify_scope (word runtime : QString) (id : ContainerId) :
    SegmentRule.classify ⟨scopeOf word, runtime, true⟩ (scopeSegment word id) =
      some { runtime, id := id.digits.take 12 } := by
  obtain ⟨m, hm, hid⟩ := exec_scopeOf word id
  rw [SegmentRule.classify, hm, ← hid]
  rfl

/-- A scope of one segment is reported as what it is. -/
theorem classifySegment_single {s : Scope} (hs : s.single = true) :
    ∃ seg, s.segments = [seg] ∧ classifySegment seg = some s.info := by
  cases s with
  | legacy id => cases hs
  | containerd id =>
      refine ⟨_, rfl, ?_⟩
      rw [classifySegment, namedRules, List.cons_append, List.findSome?_cons, rxCriContainerd,
        classify_scope]
      rfl
  | crio id =>
      refine ⟨_, rfl, ?_⟩
      rw [classifySegment, namedRules]
      simp only [List.cons_append, List.findSome?_cons]
      rw [rxCriContainerd, scopeOf, classify_absent (by simp [scopeSegment]), rxCrio, classify_scope]
      rfl
  | docker id =>
      refine ⟨_, rfl, ?_⟩
      rw [classifySegment, namedRules]
      simp only [List.cons_append, List.findSome?_cons]
      rw [rxCriContainerd, scopeOf, classify_absent (by simp [scopeSegment]), rxCrio, scopeOf,
        classify_absent (by simp [scopeSegment]), rxDockerScope, classify_scope]
      rfl
  | podman id =>
      refine ⟨_, rfl, ?_⟩
      rw [classifySegment, namedRules]
      simp only [List.cons_append, List.findSome?_cons]
      rw [rxCriContainerd, scopeOf, classify_absent (by simp [scopeSegment]), rxCrio, scopeOf,
        classify_absent (by simp [scopeSegment]), rxDockerScope, scopeOf,
        classify_absent (by simp [scopeSegment]), rxPodman, classify_scope]
      rfl

theorem classifySegment_docker : classifySegment "docker".toList = none := by decide

/-- A bare id is not a name by itself. -/
theorem classifySegment_id (id : ContainerId) : classifySegment id.digits = none := by
  have hword : ∀ {w : QString}, w.all isHexDigit = false → ¬ w <+: id.digits := by
    intro w hall hw
    rw [List.all_eq_false] at hall
    obtain ⟨c, hc, hhex⟩ := hall
    exact hhex (id.hex c (hw.subset hc))
  have hpod : rxKubepodsPod.exec id.digits = none := by
    refine search_lit_of_not_infix (fun h => ?_) _ _
    exact id.notMem (c := 'p') (by decide) (h.subset (by decide))
  rw [classifySegment, List.findSome?_eq_none_iff]
  intro rule hrule
  simp only [namedRules, podRules, List.cons_append, List.nil_append, List.mem_cons, List.not_mem_nil,
    or_false] at hrule
  -- every rule is anchored at a word that is not hexadecimal, except the last
  rcases hrule with rfl | rfl | rfl | rfl | rfl | rfl | rfl | rfl | rfl | rfl
  case inr.inr.inr.inr.inr.inr.inr.inr.inr =>
    rw [SegmentRule.classify, hpod]
    rfl
  all_goals exact classify_absent (hword rfl) _ _ _

theorem Scope.runtime_ne (s : Scope) : s.info.runtime ≠ "kubernetes".toList := by
  cases s with
  | legacy id | docker id =>
      change "docker".toList ≠ "kubernetes".toList
      decide
  | containerd id =>
      change "containerd".toList ≠ "kubernetes".toList
      decide
  | crio id =>
      change "cri-o".toList ≠ "kubernetes".toList
      decide
  | podman id =>
      change "podman".toList ≠ "kubernetes".toList
      decide

/-- The walk reports the scopes of one segment. -/
theorem walkSegments_scopes (hint : CgroupHint) (scopes : List Scope) {prevRuntime : QString}
    (h : prevRuntime ≠ "kubernetes".toList) :
    walkSegments hint prevRuntime (scopes.flatMap Scope.segments) =
      (scopes.filter Scope.single).map Scope.info := by
  induction scopes generalizing prevRuntime with
  | nil => rfl
  | cons s scopes ih =>
      cases hs : s.single with
      | true =>
          obtain ⟨seg, hseg, hclass⟩ := classifySegment_single hs
          rw [List.flatMap_cons, hseg, List.singleton_append, walkSegments, hclass,
            List.filter_cons_of_pos hs, List.map_cons]
          exact congrArg (s.info :: ·) (ih s.runtime_ne)
      | false =>
          obtain ⟨id, rfl⟩ : ∃ id, s = .legacy id := by
            cases s with
            | legacy id => exact ⟨id, rfl⟩
            | docker id | containerd id | crio id | podman id => cases hs
          -- neither of its two segments is named, and no pod stands before the second
          rw [List.flatMap_cons, List.filter_cons_of_neg (by rw [hs]; exact Bool.false_ne_true)]
          change walkSegments hint prevRuntime ("docker".toList :: id.digits :: _) = _
          have hnone : ([] : QString) ≠ "kubernetes".toList := by decide
          rw [walkSegments, classifySegment_docker]
          dsimp only
          rw [if_neg h, walkSegments, classifySegment_id]
          dsimp only
          rw [if_neg hnone]
          exact ih hnone

/-- A path of scopes is no host's. -/
theorem not_isHost_pathOf {scopes : List Scope} (h : scopes ≠ []) : ¬ isHost (pathOf scopes) := by
  intro hhost
  have hsegments := segments_pathOf scopes
  obtain ⟨s, scopes, rfl⟩ := List.exists_cons_of_ne_nil h
  have hhosts : ∀ path, isHost path → segments path = [] ∨ segments path = ["init.scope".toList] := by
    rintro path (rfl | rfl | rfl)
    · exact .inl rfl
    · exact .inl (by decide)
    · exact .inr (by decide)
  rw [List.flatMap_cons] at hsegments
  rcases hhosts _ hhost with e | e
  · rw [e] at hsegments
    cases s <;> cases hsegments
  · rw [e] at hsegments
    cases s <;> simp [Scope.segments, scopeSegment] at hsegments

/-- The scopes that are reported: those of one segment, if there are any. -/
def reportedScopes (scopes : List Scope) : List Scope :=
  if scopes.any Scope.single then scopes.filter Scope.single else scopes

/-- A scope of one segment is there, or the path is one older scope alone. -/
def Direct (scopes : List Scope) : Prop := scopes.any Scope.single = true ∨ ∃ id, scopes = [.legacy id]

/-- One older scope is found in the path. -/
theorem dockerLegacy_pathOf (id : ContainerId) :
    dockerLegacy (pathOf [.legacy id]) = [Scope.info (.legacy id)] := by
  have hpath : pathOf [.legacy id] = "/docker/".toList ++ id.digits := by
    simp [pathOf, joined, Scope.segments]
  have hid : greedy isHexDigit 64 (some 64) id.digits = [(id.digits, [])] := by
    have h := greedy_exact id.hex []
    rwa [id.length, List.append_nil] at h
  have hrun : rxDockerLegacy.run true (pathOf [.legacy id]) =
      [{ text := "/docker/".toList ++ id.digits, group := some id.digits, rest := [] }] := by
    rw [hpath, rxDockerLegacy, run_lit_append]
    simp [Pattern.run, exactly, hid, Match.behind]
  have hend : ∀ n, rxDockerLegacy.allFrom n false [] = [] := by
    intro n
    cases n <;> rfl
  rw [dockerLegacy, globalMatch, allFrom, search_of_run hrun]
  dsimp only
  rw [if_neg (List.append_ne_nil_of_left_ne_nil (by decide) _), hend]
  rfl

theorem uncappedChain_pathOf {scopes : List Scope} (h : Direct scopes) (hint : CgroupHint) :
    uncappedChain (pathOf scopes) hint = (reportedScopes scopes).map Scope.info := by
  have hne : scopes ≠ [] := by
    rintro rfl
    rcases h with h | ⟨id, h⟩
    · cases h
    · cases h
  have hwalk : walkSegments hint [] (scopes.flatMap Scope.segments) =
      (scopes.filter Scope.single).map Scope.info := walkSegments_scopes hint scopes (by decide)
  rw [uncappedChain]
  refine (if_neg (not_isHost_pathOf hne)).trans ?_
  dsimp only
  rw [segments_pathOf, hwalk, reportedScopes]
  by_cases hsingle : scopes.any Scope.single = true
  · rw [if_pos hsingle]
    have hfound : ((scopes.filter Scope.single).map Scope.info).isEmpty = false := by
      obtain ⟨s, hs, hs'⟩ := List.any_eq_true.mp hsingle
      rw [List.isEmpty_map, ← Bool.not_eq_true, List.isEmpty_iff]
      exact List.ne_nil_of_mem (List.mem_filter.mpr ⟨hs, hs'⟩)
    -- the walk found something, so no other pattern is tried
    have horelse : ∀ other, orIfEmpty ((scopes.filter Scope.single).map Scope.info) other =
        (scopes.filter Scope.single).map Scope.info := by
      intro other
      rw [orIfEmpty, hfound]
      rfl
    rw [horelse, horelse, horelse]
  · obtain ⟨id, rfl⟩ := h.resolve_left hsingle
    rw [dockerLegacy_pathOf]
    rfl

theorem getLast?_innermost {α : Type} (l : List α) : (innermost l).getLast? = l.getLast? := by
  rw [innermost, List.getLast?_drop, kMaxContainerChainDepth]
  split
  · next h =>
      have hnil : l = [] := List.length_eq_zero_iff.mp (by omega)
      rw [hnil]
      rfl
  · rfl

/-- **A path of scopes is reported scope by scope**: the scopes of one segment if there are any, or one
older scope alone. -/
theorem classifyPathChain_scopes (hint : CgroupHint) {scopes : List Scope} (h : Direct scopes) :
    classifyPathChain (pathOf scopes) hint = innermost ((reportedScopes scopes).map Scope.info) ∧
      classifyPath (pathOf scopes) hint = (reportedScopes scopes).getLast?.map Scope.info := by
  have hchain : classifyPathChain (pathOf scopes) hint =
      innermost ((reportedScopes scopes).map Scope.info) := by
    rw [classifyPathChain_eq, uncappedChain_pathOf h]
  refine ⟨hchain, ?_⟩
  rw [classifyPath, hchain, getLast?_innermost, List.getLast?_map]

/-- An id of one repeated digit. -/
def repeatedId (c : Char) (hc : isHexDigit c = true) : ContainerId where
  digits := List.replicate 64 c
  length := List.length_replicate
  hex d hd := by rwa [List.eq_of_mem_replicate hd]

def outerId : ContainerId := repeatedId 'a' rfl

def innerId : ContainerId := repeatedId 'b' rfl

theorem classifyPathChain_scopes_nested :
    classifyPathChain (pathOf [.docker outerId, .containerd innerId]) .Auto =
        innermost ((reportedScopes [.docker outerId, .containerd innerId]).map Scope.info) ∧
      classifyPath (pathOf [.docker outerId, .containerd innerId]) .Auto =
        (reportedScopes [.docker outerId, .containerd innerId]).getLast?.map Scope.info :=
  classifyPathChain_scopes .Auto (.inl rfl)

/-- An older scope inside another is not reported. -/
theorem legacy_scope_unreported :
    ¬ ∀ scopes : List Scope, scopes ≠ [] →
      classifyPathChain (pathOf scopes) = innermost (scopes.map Scope.info) ∧
        classifyPath (pathOf scopes) = scopes.getLast?.map Scope.info := by
  intro h
  have hchain := (h [.docker outerId, .legacy innerId] (List.cons_ne_nil _ _)).1
  rw [classifyPathChain_eq, uncappedChain_pathOf (.inl rfl)] at hchain
  exact absurd (congrArg List.length hchain) (by decide)

/-! ### Pods -/

/-- The uid of a pod, in either driver's spelling. -/
structure PodUid (uid : QString) : Prop where
  chars : ∀ c ∈ uid, isUidChar c = true
  atLeast : 32 ≤ uid.length
  atMost : uid.length ≤ 72

/-- A segment that names a pod: a slice of the systemd driver's, or the cgroupfs driver's `pod<uid>`. -/
def NamesPod (seg : QString) : Prop :=
  "kubepods".toList <:+: seg ∨ ∃ uid, PodUid uid ∧ seg = "pod".toList ++ uid

/-- `pod` and the beginning of a uid, anywhere. -/
def HasPod (seg : QString) : Prop :=
  ∃ uid : QString, (∀ c ∈ uid, isUidChar c = true) ∧ uid.length = 32 ∧ "pod".toList ++ uid <:+: seg

/-- A segment that no rule before the pods' takes and that is taken for a pod without naming one. -/
structure Misread (seg : QString) : Prop where
  unnamed : ∀ rule ∈ namedRules, rule.rx.exec seg = none
  hasPod : HasPod seg
  notPod : ¬ NamesPod seg

theorem hasPod_of_many {u t : QString} {v r : QString}
    (h : (v, r) ∈ greedy isUidChar 32 (some 72) t) : HasPod (u ++ ("pod".toList ++ t)) := by
  obtain ⟨rfl, hchars, hwithin⟩ := mem_greedy.mp h
  refine ⟨v.take 32, fun c hc => hchars c (List.mem_of_mem_take hc), by simp [hwithin.atLeast], u,
    v.drop 32 ++ r, ?_⟩
  conv_rhs => rw [← List.take_append_drop 32 v]
  simp only [List.append_assoc]

/-- The pattern finds a pod exactly where there is one to be found. -/
theorem rxKubepodsPod_exec (seg : QString) : rxKubepodsPod.exec seg ≠ none ↔ HasPod seg := by
  constructor
  · intro h
    obtain ⟨m, hm⟩ := Option.ne_none_iff_exists'.mp h
    obtain ⟨u, hseg, hrun⟩ := search_some hm
    obtain ⟨t, m', ht, hm', -⟩ := mem_run_lit hrun
    obtain ⟨m₁, hm₁, -⟩ := List.mem_map.mp hm'
    obtain ⟨⟨v, r⟩, hgreedy, -⟩ := List.mem_map.mp hm₁
    rw [hseg, ht]
    exact hasPod_of_many hgreedy
  · -- a search that fails has failed at the place of the pod too
    rintro ⟨uid, hchars, hlength, u, w, rfl⟩ hnone
    have hrun := search_eq_none_iff.mp hnone u ("pod".toList ++ (uid ++ w)) (by simp)
    have hmem : (uid, w) ∈ greedy isUidChar 32 (some 72) (uid ++ w) :=
      mem_greedy.mpr ⟨rfl, hchars, hlength.ge, fun h hh => by cases hh; omega⟩
    rw [rxKubepodsPod, run_lit_append] at hrun
    simp only [Pattern.run, List.map_eq_nil_iff] at hrun
    rw [hrun] at hmem
    cases hmem

theorem rxKubepodsPodCgfs_exec {seg : QString} (h : rxKubepodsPodCgfs.exec seg ≠ none) : HasPod seg := by
  obtain ⟨m, hm⟩ := Option.ne_none_iff_exists'.mp h
  rw [rxKubepodsPodCgfs, exec_first] at hm
  obtain ⟨t, m', rfl, hm', -⟩ := mem_run_lit (List.mem_of_head? hm)
  obtain ⟨m₁, hm₁, -⟩ := List.mem_flatMap.mp hm'
  obtain ⟨m₂, hm₂, -⟩ := List.mem_map.mp hm₁
  obtain ⟨⟨v, r⟩, hgreedy, -⟩ := List.mem_map.mp hm₂
  exact hasPod_of_many (u := []) hgreedy

theorem any_podRules (seg : QString) :
    (podRules.findSome? fun rule => rule.classify seg).any (fun ci => ci.runtime == "kubernetes".toList) =
      true ↔ HasPod seg := by
  have hrules : ∀ rule ∈ podRules, (rule.runtime == "kubernetes".toList) = true := by decide
  rw [Option.any_eq_true]
  constructor
  · rintro ⟨ci, hci, -⟩
    obtain ⟨rule, hrule, hci⟩ := List.exists_of_findSome?_eq_some hci
    have hexec : rule.rx.exec seg ≠ none := by
      intro hnone
      rw [SegmentRule.classify, hnone] at hci
      cases hci
    rcases List.mem_pair.mp hrule with rfl | rfl
    · exact rxKubepodsPodCgfs_exec hexec
    · exact (rxKubepodsPod_exec seg).mp hexec
  · intro hpod
    obtain ⟨ci, hci⟩ : ∃ ci, (podRules.findSome? fun rule => rule.classify seg) = some ci := by
      rw [← Option.ne_none_iff_exists']
      intro hnone
      rw [List.findSome?_eq_none_iff] at hnone
      have hlast := hnone ⟨rxKubepodsPod, _, true⟩ (List.mem_cons_of_mem _ List.mem_cons_self)
      exact (rxKubepodsPod_exec seg).mpr hpod (Option.map_eq_none_iff.mp hlast)
    obtain ⟨rule, hrule, hclass⟩ := List.exists_of_findSome?_eq_some hci
    obtain ⟨m, -, rfl⟩ := Option.map_eq_some_iff.mp hclass
    exact ⟨_, hci, hrules rule hrule⟩

/-- Which segments are classified as pods. -/
theorem isPod_iff (seg : QString) :
    isPod seg = true ↔ (∀ rule ∈ namedRules, rule.rx.exec seg = none) ∧ HasPod seg := by
  have hnamed : (namedRules.findSome? fun rule => rule.classify seg) = none ↔
      ∀ rule ∈ namedRules, rule.rx.exec seg = none := by
    simp [List.findSome?_eq_none_iff, SegmentRule.classify]
  rw [isPod, classifySegment, List.findSome?_append, ← hnamed]
  cases hn : namedRules.findSome? fun rule => rule.classify seg with
  | some ci =>
      obtain ⟨rule, hrule, hci⟩ := List.exists_of_findSome?_eq_some hn
      obtain ⟨m, -, rfl⟩ := Option.map_eq_some_iff.mp hci
      have hrules : ∀ rule ∈ namedRules, (rule.runtime == "kubernetes".toList) = false := by decide
      rw [Option.some_or, Option.any_some, hrules rule hrule]
      exact iff_of_false Bool.false_ne_true fun h => Option.some_ne_none _ h.1
  | none =>
      rw [Option.none_or, and_iff_right rfl]
      exact any_podRules seg

/-- An entry says kubernetes for a segment classified as a pod, and conversely. -/
theorem entryOf_kubernetes_iff (hint : CgroupHint) (prev : Option QString) (seg : QString) :
    (∃ ci, entryOf hint prev seg = some ci ∧ ci.runtime = "kubernetes".toList) ↔ isPod seg = true := by
  rw [entryOf]
  cases hci : classifySegment seg with
  | some ci =>
      rw [isPod_of_some hci]
      constructor
      · rintro ⟨ci', h, hruntime⟩
        cases h
        exact hruntime
      · exact fun hruntime => ⟨ci, rfl, hruntime⟩
  | none =>
      rw [isPod_of_none hci, Option.none_or]
      refine iff_of_false ?_ Bool.false_ne_true
      rintro ⟨ci, h, hruntime⟩
      split at h
      · obtain ⟨m, -, rfl⟩ := Option.map_eq_some_iff.mp h
        exact leafRuntime_ne hint hruntime
      · cases h

/-- What is found elsewhere is no pod. -/
theorem fallback_not_kubernetes {path : QString} {ci : ContainerInfo} (h : ci ∈ fallback path) :
    ci.runtime ≠ "kubernetes".toList := by
  have hother : ∀ {a b : List ContainerInfo}, ci ∈ orIfEmpty a b → ci ∈ a ∨ ci ∈ b := by
    intro a b h
    rw [orIfEmpty] at h
    split at h
    · exact .inr h
    · exact .inl h
  rcases hother h with h | h
  · rcases hother h with h | h
    · obtain ⟨m, -, rfl⟩ := List.mem_map.mp h
      change "docker".toList ≠ "kubernetes".toList
      decide
    · rw [lxcOf, Option.mem_toList] at h
      obtain ⟨m, -, rfl⟩ := Option.map_eq_some_iff.mp h
      change "lxc".toList ≠ "kubernetes".toList
      decide
  · rw [systemdUnit] at h
    split at h
    · cases h
    · rw [Option.mem_toList] at h
      obtain ⟨seg, -, h⟩ := List.exists_of_findSome?_eq_some h
      obtain ⟨m, -, rfl⟩ := Option.map_eq_some_iff.mp h
      change "systemd".toList ≠ "kubernetes".toList
      decide

/-- What is among the innermost: fewer than sixteen come after it. -/
theorem mem_innermost_iff {α : Type} {l : List α} {x : α} :
    x ∈ innermost l ↔ ∃ pre post, l = pre ++ x :: post ∧ post.length < kMaxContainerChainDepth := by
  constructor
  · intro h
    obtain ⟨a, b, hab⟩ := List.append_of_mem h
    refine ⟨l.take (l.length - kMaxContainerChainDepth) ++ a, b, ?_, ?_⟩
    · rw [List.append_assoc, ← hab, innermost, List.take_append_drop]
    · have hlength := congrArg List.length hab
      rw [innermost, List.length_drop, List.length_append, List.length_cons] at hlength
      omega
  · rintro ⟨pre, post, rfl, hlt⟩
    rw [innermost, List.drop_append_of_le_length (by simp; omega)]
    exact List.mem_append_right _ List.mem_cons_self

/-- An entry of the walk that is not cut, by its place. -/
theorem mem_innermost_found {hint : CgroupHint} {segs : List QString} {e : Entry} :
    e ∈ innermost (found hint none segs) ↔
      ∃ pre place post, behind none segs = pre ++ place :: post ∧ e.place = some place ∧
        entryOf hint place.1 place.2 = some e.info ∧
        (post.countP fun p => (entryOf hint p.1 p.2).isSome) < kMaxContainerChainDepth := by
  have hcount : ∀ post : List (Option QString × QString), (post.filterMap (entryAt hint)).length =
      post.countP fun p => (entryOf hint p.1 p.2).isSome := by
    intro post
    rw [List.length_filterMap_eq_countP]
    simp [entryAt]
  rw [mem_innermost_iff]
  constructor
  · rintro ⟨before, after, hfound, hlt⟩
    obtain ⟨l₁, l₂, hbehind, -, hrest⟩ := List.filterMap_eq_append_iff.mp hfound
    obtain ⟨l₃, place, post, rfl, -, hplace, rfl⟩ := List.filterMap_eq_cons_iff.mp hrest
    obtain ⟨ci, hci, rfl⟩ := Option.map_eq_some_iff.mp hplace
    rw [hcount] at hlt
    exact ⟨l₁ ++ l₃, place, post, by rw [hbehind, List.append_assoc], rfl, hci, hlt⟩
  · rintro ⟨pre, place, post, hbehind, hplace, hci, hlt⟩
    have hentry : entryAt hint place = some e := by
      rw [entryAt, hci, ← hplace]
      rfl
    refine ⟨pre.filterMap (entryAt hint), post.filterMap (entryAt hint), ?_, (hcount post).trans_lt hlt⟩
    rw [found, hbehind, List.filterMap_append, List.filterMap_cons, hentry]

/-! ### The label -/

/-- Every entry that says kubernetes is the entry of a segment that names a pod. -/
def KubernetesSound (path : QString) (hint : CgroupHint) : Prop :=
  ∀ e ∈ innermost (entries path hint), e.info.runtime = "kubernetes".toList →
    ∃ place, e.place = some place ∧ NamesPod place.2

/-- Every segment that is misread has at least sixteen reported segments after it. -/
def MisreadCut (path : QString) (hint : CgroupHint) : Prop :=
  ∀ pre place post, behind none (segments path) = pre ++ place :: post → Misread place.2 →
    kMaxContainerChainDepth ≤ post.countP fun p => (entryOf hint p.1 p.2).isSome

theorem HasPod.length_le {seg : QString} (h : HasPod seg) : 35 ≤ seg.length := by
  obtain ⟨uid, -, hlength, hinfix⟩ := h
  have hle := hinfix.length_le
  rw [List.length_append, hlength] at hle
  exact hle

/-- The host's paths name nothing. -/
theorem not_misread_of_isHost {path : QString} (h : isHost path) {seg : QString}
    (hseg : seg ∈ segments path) : ¬ Misread seg := by
  intro hmisread
  have hlong := hmisread.hasPod.length_le
  have hshort : ∀ s ∈ segments path, s.length ≤ 10 := by
    rcases h with rfl | rfl | rfl <;> decide
  have hle := hshort seg hseg
  omega

theorem mem_innermost_entries {path : QString} (hhost : ¬ isHost path) {hint : CgroupHint} {e : Entry}
    (hkub : e.info.runtime = "kubernetes".toList) :
    e ∈ innermost (entries path hint) ↔ e ∈ innermost (found hint none (segments path)) := by
  rw [entries, if_neg hhost]
  split
  · next hempty =>
      rw [List.isEmpty_iff.mp hempty]
      refine iff_of_false (fun h => ?_) List.not_mem_nil
      obtain ⟨ci, hci, rfl⟩ := List.mem_map.mp ((innermost_suffix _).subset h)
      exact fallback_not_kubernetes hci hkub
  · rfl

theorem kubernetesSound_iff_misreadCut (path : QString) (hint : CgroupHint) :
    KubernetesSound path hint ↔ MisreadCut path hint := by
  constructor
  · intro hsound pre place post hbehind hmisread
    by_contra hlt
    have hmem : place.2 ∈ segments path := by
      rw [← map_snd_behind none (segments path), hbehind]
      exact List.mem_map_of_mem (List.mem_append_right _ List.mem_cons_self)
    -- a misread segment not cut off gives an entry of its own
    have hhost : ¬ isHost path := fun hhost => not_misread_of_isHost hhost hmem hmisread
    have hpod := (isPod_iff place.2).mpr ⟨hmisread.unnamed, hmisread.hasPod⟩
    obtain ⟨ci, hci, hkub⟩ := (entryOf_kubernetes_iff hint place.1 place.2).mpr hpod
    have hentry : (⟨some place, ci⟩ : Entry) ∈ innermost (entries path hint) :=
      (mem_innermost_entries hhost hkub).mpr
        (mem_innermost_found.mpr ⟨pre, place, post, hbehind, rfl, hci, not_le.mp hlt⟩)
    obtain ⟨place', hplace, hnames⟩ := hsound _ hentry hkub
    cases hplace
    exact hmisread.notPod hnames
  · intro hcut e he hkub
    by_cases hhost : isHost path
    · rw [entries, if_pos hhost] at he
      cases he
    · rw [mem_innermost_entries hhost hkub, mem_innermost_found] at he
      obtain ⟨pre, place, post, hbehind, hplace, hci, hlt⟩ := he
      refine ⟨place, hplace, ?_⟩
      by_contra hnot
      obtain ⟨hunnamed, hpod⟩ := (isPod_iff place.2).mp
        ((entryOf_kubernetes_iff hint place.1 place.2).mp ⟨_, hci, hkub⟩)
      have hle := hcut pre place post hbehind ⟨hunnamed, hpod, hnot⟩
      omega

/-- **When the label is sound**: exactly when every misread segment is followed by as many reported ones as
a chain can hold. -/
theorem kubernetes_sound_iff (path : QString) (hint : CgroupHint) :
    (innermost (entries path hint)).map Entry.info = classifyPathChain path hint ∧
      (KubernetesSound path hint ↔ MisreadCut path hint) :=
  ⟨map_info_innermost path hint, kubernetesSound_iff_misreadCut path hint⟩

/-- The slice of a podman pod. -/
def podmanPod : QString := "machine-libpod_pod_".toList ++ List.replicate 64 'a' ++ ".slice".toList

theorem misread_podmanPod : Misread podmanPod where
  unnamed := by decide +kernel
  hasPod := by
    refine ⟨'_' :: List.replicate 31 'a', List.all_eq_true.mp rfl, rfl, ?_⟩
    exact ⟨"machine-libpod_".toList, List.replicate 33 'a' ++ ".slice".toList, by decide⟩
  notPod := by
    rintro (h | ⟨uid, -, h⟩)
    · exact absurd h (by decide +kernel)
    · injection h with h
      exact absurd h (by decide)

/-- A podman pod is reported as a kubernetes pod. -/
theorem podman_pod_mislabelled : ¬ ∀ path hint, KubernetesSound path hint := by
  intro h
  have hcut := (kubernetesSound_iff_misreadCut _ _).mp (h (joined [podmanPod]) .Auto)
  have hsegments : segments (joined [podmanPod]) = [podmanPod] := by
    refine segments_joined ?_ ?_ <;> (intro seg hseg; rw [List.mem_singleton.mp hseg]; decide)
  have hle := hcut [] (none, podmanPod) [] (by rw [hsegments]; rfl) misread_podmanPod
  exact absurd hle (by decide)

end Qiftop.Backend.Cgroup
