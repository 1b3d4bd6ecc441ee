import Qiftop.Backend.CgroupParse

/-!
# Backend — the shape of a chain

The walk over the segments carries the runtime of the segment before.  What a segment is reported as
depends on it and on the segment before it, nothing else (`walkSegments_eq`), so every entry of the walk has a
place in the path.

`chainLaw`: of every path, how long its chain is, in which order its entries come, when one of them
is a systemd unit, and what the hint can change.
-/

namespace Qiftop.Backend.Cgroup
open Qt Lib

/-! ### Entries with their places -/

/-- A segment classified as a pod. -/
def isPod (seg : QString) : Bool := (classifySegment seg).any fun ci => ci.runtime == "kubernetes".toList

/-- What a segment is reported as. -/
def entryOf (hint : CgroupHint) (prev : Option QString) (seg : QString) : Option ContainerInfo :=
  (classifySegment seg).or (if prev.any isPod then (rxBareHex64.exec seg).map fun m =>
    { runtime := hint.leafRuntime, id := m.captured.take 12 } else none)

/-- The segments, each with the one before it. -/
def behind : Option QString → List QString → List (Option QString × QString)
  | _, [] => []
  | prev, seg :: segs => (prev, seg) :: behind (some seg) segs

/-- An entry, and its place if the walk found it. -/
structure Entry where
  place : Option (Option QString × QString)
  info : ContainerInfo

/-- The entry of a place. -/
def entryAt (hint : CgroupHint) (place : Option QString × QString) : Option Entry :=
  (entryOf hint place.1 place.2).map fun ci => ⟨some place, ci⟩

/-- What the walk finds, with the places. -/
def found (hint : CgroupHint) (prev : Option QString) (segs : List QString) : List Entry :=
  (behind prev segs).filterMap (entryAt hint)

/-- What is tried where the walk finds nothing. -/
def fallback (path : QString) : List ContainerInfo :=
  orIfEmpty (orIfEmpty (dockerLegacy path) (lxcOf path)) (systemdUnit (segments path))

/-- A path that stands for the host. -/
def isHost (path : QString) : Prop := path = [] ∨ path = "/".toList ∨ path = "/init.scope".toList

instance (path : QString) : Decidable (isHost path) := inferInstanceAs (Decidable (_ ∨ _))

/-- The chain with the places of its entries, before it is cut. -/
def entries (path : QString) (hint : CgroupHint) : List Entry :=
  if isHost path then []
  else if (found hint none (segments path)).isEmpty then (fallback path).map fun ci => ⟨none, ci⟩
  else found hint none (segments path)

/-! ### The walk, place by place -/

theorem leafRuntime_ne (hint : CgroupHint) : hint.leafRuntime ≠ "kubernetes".toList := by
  cases hint <;> decide

theorem isPod_of_none {seg : QString} (h : classifySegment seg = none) : isPod seg = false := by
  rw [isPod, h]
  rfl

theorem isPod_of_some {seg : QString} {ci : ContainerInfo} (h : classifySegment seg = some ci) :
    isPod seg = true ↔ ci.runtime = "kubernetes".toList := by
  rw [isPod, h]
  simp

theorem found_cons (hint : CgroupHint) (prev : Option QString) (seg : QString) (segs : List QString) :
    found hint prev (seg :: segs) =
      ((entryOf hint prev seg).map fun ci => ⟨some (prev, seg), ci⟩).toList ++
        found hint (some seg) segs := by
  rw [found, behind, List.filterMap_cons, entryAt]
  cases entryOf hint prev seg <;> rfl

/-- The runtime carried along says no more than whether the segment before is a pod. -/
theorem walkSegments_eq (hint : CgroupHint) (segs : List QString) {prevRuntime : QString}
    {prev : Option QString} (h : prevRuntime = "kubernetes".toList ↔ prev.any isPod = true) :
    walkSegments hint prevRuntime segs = (found hint prev segs).map Entry.info := by
  -- `h` is what the loop keeps: every branch leaves a runtime that says whether `seg` is a pod
  induction segs generalizing prevRuntime prev with
  | nil => rfl
  | cons seg segs ih =>
      rw [found_cons, List.map_append, walkSegments]
      cases hci : classifySegment seg with
      | some ci =>
          have hentry : entryOf hint prev seg = some ci := by
            rw [entryOf, hci]
            rfl
          have hnext : ci.runtime = "kubernetes".toList ↔ (some seg).any isPod = true :=
            (isPod_of_some hci).symm
          rw [hentry, ← ih hnext]
          rfl
      | none =>
          have hseg : (some seg).any isPod = false := isPod_of_none hci
          have hnext : ∀ {r : QString}, r ≠ "kubernetes".toList →
              (r = "kubernetes".toList ↔ (some seg).any isPod = true) := fun hr =>
            iff_of_false hr (by rw [hseg]; exact Bool.false_ne_true)
          rw [entryOf, hci, Option.none_or]
          dsimp only
          by_cases hpod : prev.any isPod = true
          · rw [if_pos (h.mpr hpod), if_pos hpod]
            cases rxBareHex64.exec seg with
            | some m =>
                dsimp only
                rw [ih (hnext (leafRuntime_ne hint))]
                rfl
            | none =>
                dsimp only
                rw [ih (hnext (by decide))]
                rfl
          · rw [if_neg fun e => hpod (h.mp e), if_neg hpod, ih (hnext (by decide))]
            rfl

theorem walkSegments_start (hint : CgroupHint) (segs : List QString) :
    walkSegments hint [] segs = (found hint none segs).map Entry.info :=
  walkSegments_eq hint segs (iff_of_false (by decide) Bool.false_ne_true)

theorem orIfEmpty_assoc (a b c : List ContainerInfo) :
    orIfEmpty (orIfEmpty a b) c = orIfEmpty a (orIfEmpty b c) := by
  cases a <;> rfl

/-- The entries are those of the chain. -/
theorem map_info_entries (path : QString) (hint : CgroupHint) :
    (entries path hint).map Entry.info = uncappedChain path hint := by
  rw [entries, uncappedChain]
  by_cases hhost : isHost path
  · rw [if_pos hhost]
    exact (if_pos hhost).symm
  · rw [if_neg hhost]
    refine Eq.trans ?_ (if_neg hhost).symm
    simp only [orIfEmpty_assoc, walkSegments_start]
    rw [← orIfEmpty_assoc (dockerLegacy path)]
    change _ = orIfEmpty _ (fallback path)
    rw [orIfEmpty, List.isEmpty_map]
    split
    · rw [List.map_map]
      exact List.map_id _
    · rfl

theorem map_innermost {α β : Type} (f : α → β) (l : List α) :
    (innermost l).map f = innermost (l.map f) := by
  rw [innermost, innermost, List.map_drop, List.length_map]

theorem map_info_innermost (path : QString) (hint : CgroupHint) :
    (innermost (entries path hint)).map Entry.info = classifyPathChain path hint := by
  rw [map_innermost, map_info_entries, classifyPathChain_eq]

theorem innermost_suffix {α : Type} (l : List α) : innermost l <:+ l := List.drop_suffix _ _

/-! ### Order -/

theorem found_sublist (hint : CgroupHint) (prev : Option QString) (segs : List QString) :
    ((found hint prev segs).filterMap Entry.place).Sublist (behind prev segs) := by
  induction segs generalizing prev with
  | nil => exact .slnil
  | cons seg segs ih =>
      rw [found_cons, List.filterMap_append, behind]
      cases entryOf hint prev seg with
      | none => exact (ih (some seg)).cons _
      | some ci => exact (ih (some seg)).cons_cons _

theorem entries_sublist (path : QString) (hint : CgroupHint) :
    ((entries path hint).filterMap Entry.place).Sublist (behind none (segments path)) := by
  rw [entries]
  split
  · exact List.nil_sublist _
  · split
    · simp [List.filterMap_map]
    · exact found_sublist hint none (segments path)

/-! ### Systemd units -/

/-- Nothing in the path has the shape of a container. -/
structure NoContainer (path : QString) : Prop where
  segment : ∀ seg ∈ segments path, classifySegment seg = none
  docker : rxDockerLegacy.globalMatch path = []
  lxc : rxLxc.exec path = none

theorem runtime_of_classifySegment {seg : QString} {ci : ContainerInfo}
    (h : classifySegment seg = some ci) : ∃ rule ∈ namedRules ++ podRules, ci.runtime = rule.runtime := by
  obtain ⟨rule, hrule, hci⟩ := List.exists_of_findSome?_eq_some h
  obtain ⟨m, -, rfl⟩ := Option.map_eq_some_iff.mp hci
  exact ⟨rule, hrule, rfl⟩

theorem runtime_ne_systemd {hint : CgroupHint} {prev : Option QString} {seg : QString}
    {ci : ContainerInfo} (h : entryOf hint prev seg = some ci) : ci.runtime ≠ "systemd".toList := by
  rw [entryOf, Option.or_eq_some_iff] at h
  rcases h with h | ⟨-, h⟩
  · obtain ⟨rule, hrule, hruntime⟩ := runtime_of_classifySegment h
    have hrules : ∀ rule ∈ namedRules ++ podRules, rule.runtime ≠ "systemd".toList := by decide
    rw [hruntime]
    exact hrules rule hrule
  · split at h
    · obtain ⟨m, -, rfl⟩ := Option.map_eq_some_iff.mp h
      change hint.leafRuntime ≠ "systemd".toList
      cases hint <;> decide
    · cases h

theorem mem_found {hint : CgroupHint} {prev : Option QString} {segs : List QString} {e : Entry}
    (h : e ∈ found hint prev segs) :
    ∃ place ∈ behind prev segs, e.place = some place ∧ entryOf hint place.1 place.2 = some e.info := by
  obtain ⟨place, hplace, he⟩ := List.mem_filterMap.mp h
  obtain ⟨ci, hci, rfl⟩ := Option.map_eq_some_iff.mp he
  exact ⟨place, hplace, rfl, hci⟩

theorem map_snd_behind (prev : Option QString) (segs : List QString) :
    (behind prev segs).map Prod.snd = segs := by
  induction segs generalizing prev with
  | nil => rfl
  | cons seg segs ih => rw [behind, List.map_cons, ih]

/-- Where the walk finds nothing, no segment is classified. -/
theorem classifySegment_of_found_nil {hint : CgroupHint} {prev : Option QString} {segs : List QString}
    (h : found hint prev segs = []) : ∀ seg ∈ segs, classifySegment seg = none := by
  intro seg hseg
  rw [← map_snd_behind prev segs] at hseg
  obtain ⟨place, hplace, rfl⟩ := List.mem_map.mp hseg
  have hnone := List.filterMap_eq_nil_iff.mp h place hplace
  rw [entryAt, Option.map_eq_none_iff, entryOf, Option.or_eq_none_iff] at hnone
  exact hnone.1

/-- A unit is what is left when everything else found nothing. -/
theorem systemd_of_fallback {path : QString} {ci : ContainerInfo} (h : ci ∈ fallback path)
    (hci : ci.runtime = "systemd".toList) :
    fallback path = [ci] ∧ rxDockerLegacy.globalMatch path = [] ∧ rxLxc.exec path = none ∧
      "user.slice".toList ∉ segments path := by
  -- the other patterns report runtimes of their own
  rw [fallback, orIfEmpty_assoc, orIfEmpty] at h ⊢
  split at h
  · next hdocker =>
      rw [if_pos hdocker]
      rw [orIfEmpty] at h ⊢
      split at h
      · next hlxc =>
          rw [if_pos hlxc]
          have hdocker : rxDockerLegacy.globalMatch path = [] := by
            simpa [dockerLegacy] using hdocker
          have hlxc : rxLxc.exec path = none := by
            cases hexec : rxLxc.exec path with
            | none => rfl
            | some m =>
                rw [lxcOf, hexec] at hlxc
                cases hlxc
          rw [systemdUnit] at h ⊢
          split at h
          · cases h
          · next huser =>
              rw [if_neg huser]
              rw [Option.mem_toList] at h
              rw [h]
              exact ⟨rfl, hdocker, hlxc, by simpa using huser⟩
      · rw [lxcOf, Option.mem_toList, Option.map_eq_some_iff] at h
        obtain ⟨m, -, rfl⟩ := h
        change "lxc".toList = "systemd".toList at hci
        exact absurd hci (by decide)
  · obtain ⟨m, -, rfl⟩ := List.mem_map.mp h
    change "docker".toList = "systemd".toList at hci
    exact absurd hci (by decide)

theorem systemd_sole {path : QString} {hint : CgroupHint} {ci : ContainerInfo}
    (h : ci ∈ uncappedChain path hint) (hci : ci.runtime = "systemd".toList) :
    uncappedChain path hint = [ci] ∧ NoContainer path ∧ "user.slice".toList ∉ segments path := by
  rw [← map_info_entries] at h ⊢
  obtain ⟨e, he, rfl⟩ := List.mem_map.mp h
  rw [entries] at he ⊢
  split at he
  · cases he
  · next hhost =>
      rw [if_neg hhost]
      split at he
      · next hempty =>
          rw [if_pos hempty]
          obtain ⟨ci, hmem, rfl⟩ := List.mem_map.mp he
          obtain ⟨hsole, hdocker, hlxc, huser⟩ := systemd_of_fallback hmem hci
          refine ⟨by rw [hsole]; rfl, ⟨?_, hdocker, hlxc⟩, huser⟩
          exact classifySegment_of_found_nil (List.isEmpty_iff.mp hempty)
      · obtain ⟨place, -, -, hentry⟩ := mem_found he
        exact absurd hci (runtime_ne_systemd hentry)

/-! ### The hint -/

/-- Two entries of one place, with one id, that differ at most in the runtime of a bare leaf. -/
structure SameButLeaf (a b : Entry) : Prop where
  place : a.place = b.place
  id : a.info.id = b.info.id
  name : a.info.name = b.info.name
  runtime : a.info.runtime = b.info.runtime ∨
    ∃ prev seg, a.place = some (some prev, seg) ∧ isPod prev = true ∧ (rxBareHex64.exec seg).isSome

theorem SameButLeaf.refl (a : Entry) : SameButLeaf a a := ⟨rfl, rfl, rfl, .inl rfl⟩

theorem found_sameButLeaf (prev : Option QString) (segs : List QString) :
    List.Forall₂ SameButLeaf (found .Auto prev segs) (found .PreferCrio prev segs) := by
  induction segs generalizing prev with
  | nil => exact .nil
  | cons seg segs ih =>
      rw [found_cons, found_cons]
      refine List.rel_append ?_ (ih (some seg))
      rw [entryOf, entryOf]
      cases hci : classifySegment seg with
      | some ci => exact .cons (.refl _) .nil
      | none =>
          rw [Option.none_or, Option.none_or]
          by_cases hpod : prev.any isPod = true
          · rw [if_pos hpod, if_pos hpod]
            cases hleaf : rxBareHex64.exec seg with
            | none => exact .nil
            | some m =>
                obtain ⟨q, rfl, hq⟩ : ∃ q, prev = some q ∧ isPod q = true := by
                  cases prev with
                  | none => cases hpod
                  | some q => exact ⟨q, rfl, hpod⟩
                exact .cons ⟨rfl, rfl, rfl, .inr ⟨q, seg, rfl, hq, by rw [hleaf]; rfl⟩⟩ .nil
          · rw [if_neg hpod, if_neg hpod]
            exact .nil

theorem entries_sameButLeaf (path : QString) :
    List.Forall₂ SameButLeaf (entries path .Auto) (entries path .PreferCrio) := by
  -- the two walks find as many entries, so they fall back together
  have hfound := found_sameButLeaf none (segments path)
  rw [entries, entries]
  split
  · exact .nil
  · by_cases hempty : (found .Auto none (segments path)).isEmpty = true
    · have hempty' : (found .PreferCrio none (segments path)).isEmpty = true := by
        rw [List.isEmpty_iff_length_eq_zero] at hempty ⊢
        rw [← hfound.length_eq, hempty]
      rw [if_pos hempty, if_pos hempty']
      exact List.forall₂_same.mpr fun e _ => .refl e
    · have hempty' : ¬ (found .PreferCrio none (segments path)).isEmpty = true := by
        rw [List.isEmpty_iff_length_eq_zero] at hempty ⊢
        rwa [← hfound.length_eq]
      rw [if_neg hempty, if_neg hempty']
      exact hfound

theorem innermost_forall₂ {α : Type} {R : α → α → Prop} {l l' : List α} (h : List.Forall₂ R l l') :
    List.Forall₂ R (innermost l) (innermost l') := by
  rw [innermost, innermost, h.length_eq]
  exact List.forall₂_drop _ h

/-! ### The law -/

/-- What holds of a path's chain.  The entries of the chain are given with their places, the cut ones left
out. -/
structure ChainLaw (path : QString) : Prop where
  length : ∀ hint, (classifyPathChain path hint).length ≤ kMaxContainerChainDepth
  suffix : ∀ hint, classifyPathChain path hint <:+ uncappedChain path hint
  chain : ∀ hint, (innermost (entries path hint)).map Entry.info = classifyPathChain path hint
  /-- An entry of the walk is what its segment, behind the segment before, is reported as. -/
  entry : ∀ hint, ∀ e ∈ innermost (entries path hint), ∀ place, e.place = some place →
    entryOf hint place.1 place.2 = some e.info
  /-- The places of the walk's entries are in path order. -/
  order : ∀ hint, ((innermost (entries path hint)).filterMap Entry.place).Sublist
    (behind none (segments path))
  systemd : ∀ hint, ∀ ci ∈ classifyPathChain path hint, ci.runtime = "systemd".toList →
    classifyPathChain path hint = [ci] ∧ NoContainer path ∧ "user.slice".toList ∉ segments path
  hint : List.Forall₂ SameButLeaf (innermost (entries path .Auto)) (innermost (entries path .PreferCrio))

/-- **The law of chains**, for every path. -/
theorem chainLaw (path : QString) : ChainLaw path where
  length hint := by
    rw [classifyPathChain_eq, innermost, List.length_drop]
    omega
  suffix hint := by
    rw [classifyPathChain_eq]
    exact innermost_suffix _
  chain hint := map_info_innermost path hint
  entry hint e he place hplace := by
    have he := (innermost_suffix _).subset he
    rw [entries] at he
    split at he
    · cases he
    · split at he
      · obtain ⟨ci, -, rfl⟩ := List.mem_map.mp he
        cases hplace
      · obtain ⟨place', -, hplace', hentry⟩ := mem_found he
        rw [hplace] at hplace'
        rwa [Option.some.inj hplace']
  order hint := ((innermost_suffix _).sublist.filterMap _).trans (entries_sublist path hint)
  systemd hint ci hci hruntime := by
    rw [classifyPathChain_eq] at hci ⊢
    obtain ⟨hsole, hnone, huser⟩ := systemd_sole ((innermost_suffix _).subset hci) hruntime
    rw [hsole]
    exact ⟨rfl, hnone, huser⟩
  hint := innermost_forall₂ (entries_sameButLeaf path)

end Qiftop.Backend.Cgroup
