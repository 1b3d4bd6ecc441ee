import Qiftop.Lib.Partition
import Qiftop.Ui.ConnectionGroupProxy

/-!
# Ui — single steps of the grouping proxy

The handlers edit the groups one row at a time.  Each edit keeps the groups a partition of the rows
dealt with so far (`Split`, `IsPartition` while a removal leaves groups empty):

* placing a row (`split_placeSourceRow`), taking one out (`removeSourceRow_spec`,
  `split_takeOut`), erasing the emptied groups (`split_foldl_removeGroup`);
* regrouping a row whose key may have changed (`split_regroupSourceRow`);
* sorting both levels (`split_sortGroups`), and the loop of a rebuild (`split_foldl_rebuildRow`).

`SameSource` says that an edit leaves the source and the settings alone.
-/

namespace Qiftop.Ui
open Qt Lib Backend

/-! ### Partitions without empty groups -/

/-- The groups split the rows `all` by `of`, and none is empty. -/
structure Split (of : Nat → QString) (all : List Nat) (groups : List Group) : Prop where
  isPartition : IsPartition Group.key Group.srcRows of all groups
  nonempty : ∀ g ∈ groups, g.srcRows ≠ []

namespace Split
variable {of of' : Nat → QString} {all all' : List Nat} {groups groups' : List Group}

theorem empty (of : Nat → QString) : Split of [] [] :=
  ⟨.empty of, fun _ hg => absurd hg List.not_mem_nil⟩

theorem congr (h : Split of all groups) (e : ∀ r ∈ all, of' r = of r) : Split of' all groups :=
  ⟨h.isPartition.congr e, h.nonempty⟩

theorem permAll (h : Split of all groups) (p : all.Perm all') : Split of all' groups :=
  ⟨h.isPartition.permAll p, h.nonempty⟩

theorem permGroups (h : Split of all groups) (p : groups'.Perm groups) : Split of all groups' :=
  ⟨h.isPartition.permGroups p, fun g hg => h.nonempty g (p.mem_iff.mp hg)⟩

/-- A change of every group that keeps keys and renames rows. -/
theorem map (h : Split of all groups) {f : Group → Group} {φ : Nat → Nat}
    (hkey : ∀ g, (f g).key = g.key) (hrows : ∀ g, (f g).srcRows.Perm (g.srcRows.map φ))
    (hof : ∀ r ∈ all, of' (φ r) = of r) : Split of' (all.map φ) (groups.map f) := by
  refine ⟨h.isPartition.map hkey hrows hof, fun g' hg' hnil => ?_⟩
  obtain ⟨g, hg, rfl⟩ := List.mem_map.mp hg'
  have hp := hrows g
  rw [hnil] at hp
  exact h.nonempty g hg (List.map_eq_nil_iff.mp hp.symm.eq_nil)

/-- A row joins the group of its key. -/
theorem add (h : Split of all groups) {gi r : Nat} {g : Group} (hg : groups[gi]? = some g)
    (hr : of r = g.key) :
    Split of (all ++ [r]) (groups.modify gi fun g => { g with srcRows := g.srcRows ++ [r] }) := by
  refine ⟨h.isPartition.add hg rfl rfl hr, fun g' hg' => ?_⟩
  obtain ⟨pre, post, rfl, hlen⟩ := exists_split hg
  rw [modify_split hlen] at hg'
  rcases List.mem_append.mp hg' with hm | hm
  · exact h.nonempty g' (by simp [hm])
  rcases List.mem_cons.mp hm with rfl | hm
  · exact List.append_ne_nil_of_right_ne_nil _ (List.cons_ne_nil _ _)
  · exact h.nonempty g' (by simp [hm])

/-- A row starts the group of its key. -/
theorem create (h : Split of all groups) {g : Group} {r : Nat}
    (hnew : ∀ g' ∈ groups, g'.key ≠ g.key) (hrows : g.srcRows = [r]) (hr : of r = g.key) :
    Split of (all ++ [r]) (groups ++ [g]) := by
  refine ⟨h.isPartition.create hnew hrows hr, fun g' hg' => ?_⟩
  rcases List.mem_append.mp hg' with hg' | hg'
  · exact h.nonempty g' hg'
  · rw [List.mem_singleton.mp hg', hrows]
    exact List.cons_ne_nil _ _

/-- Every group has the key of one of the rows. -/
theorem exists_row (h : Split of all groups) {g : Group} (hg : g ∈ groups) :
    ∃ r ∈ all, of r = g.key := by
  obtain ⟨r, hr⟩ := List.exists_mem_of_ne_nil _ (h.nonempty g hg)
  exact ⟨r, h.isPartition.mem_all hg hr, h.isPartition.key_eq g hg r hr⟩

/-- The groups' keys are the rows' keys. -/
theorem key_mem_iff (h : Split of all groups) (k : QString) :
    k ∈ groups.map Group.key ↔ ∃ r ∈ all, of r = k := by
  constructor
  · intro hk
    obtain ⟨g, hg, rfl⟩ := List.mem_map.mp hk
    exact h.exists_row hg
  · rintro ⟨r, hr, rfl⟩
    obtain ⟨g, hg, hrg⟩ := h.isPartition.exists_group hr
    rw [h.isPartition.key_eq g hg r hrg]
    exact List.mem_map_of_mem hg

end Split

/-! ### The reverse index -/

/-- The index `refreshSrcIndex` builds. -/
def indexOf (groups : List Group) : Hash Nat (Nat × Nat) :=
  Hash.insertAll Prod.fst Prod.snd (GroupProxy.places groups) ∅

theorem mem_places {groups : List Group} {r gi i : Nat} :
    (r, gi, i) ∈ GroupProxy.places groups ↔
      ∃ g, groups[gi]? = some g ∧ g.srcRows[i]? = some r := by
  simp only [GroupProxy.places, List.mem_flatMap, List.mem_map, Prod.mk.injEq, Prod.exists,
    List.mk_mem_zipIdx_iff_getElem?]
  constructor
  · rintro ⟨g, gi', hg, r', i', hr, rfl, rfl, rfl⟩
    exact ⟨g, hg, hr⟩
  · rintro ⟨g, hg, hr⟩
    exact ⟨g, gi, hg, r, i, hr, rfl, rfl, rfl⟩

theorem map_fst_places (groups : List Group) :
    (GroupProxy.places groups).map Prod.fst = groups.flatMap Group.srcRows := by
  have e : ∀ g : Group × Nat, (g.1.srcRows.zipIdx.map fun r => (r.1, g.2, r.2)).map Prod.fst =
      g.1.srcRows := fun g => by
    rw [List.map_map]
    exact List.zipIdx_map_fst 0 g.1.srcRows
  rw [GroupProxy.places, List.map_flatMap]
  simp only [e]
  rw [← List.flatMap_map (f := Prod.fst) (g := Group.srcRows), List.zipIdx_map_fst]

/-- The index depends on the rows of the groups only. -/
theorem indexOf_congr {groups groups' : List Group}
    (e : groups.map Group.srcRows = groups'.map Group.srcRows) : indexOf groups = indexOf groups' := by
  have h : ∀ l : List Group, GroupProxy.places l = (l.map Group.srcRows).zipIdx.flatMap
      fun g => g.1.zipIdx.map fun r => (r.1, g.2, r.2) := fun l => by
    rw [GroupProxy.places, List.zipIdx_map, List.flatMap_map]
    rfl
  rw [indexOf, indexOf, h, h, e]

/-- **The index is exact.** -/
theorem Split.lookup_indexOf {of : Nat → QString} {all : List Nat} {groups : List Group}
    (h : Split of all groups) (hnd : all.Nodup) (r gi i : Nat) :
    (indexOf groups).lookup r = some (gi, i) ↔
      ∃ g, groups[gi]? = some g ∧ g.srcRows[i]? = some r := by
  have hfst : ((GroupProxy.places groups).map Prod.fst).Nodup := by
    rw [map_fst_places]
    exact h.isPartition.perm.nodup_iff.mpr hnd
  rw [← mem_places]
  constructor
  · intro hl
    by_cases hr : r ∈ (GroupProxy.places groups).map Prod.fst
    · obtain ⟨⟨r', gi', i'⟩, hm, rfl⟩ := List.mem_map.mp hr
      have hl' := Hash.lookup_insertAll_of_mem (v := Prod.snd) (h := ∅) hfst hm
      rw [indexOf, hl'] at hl
      rw [← Option.some.inj hl]
      exact hm
    · rw [indexOf, Hash.lookup_insertAll_of_notMem hr] at hl
      cases hl
  · exact fun hm => Hash.lookup_insertAll_of_mem (v := Prod.snd) (h := ∅) hfst hm

/-- Every row has a place, and only one. -/
theorem Split.exists_place {of : Nat → QString} {all : List Nat} {groups : List Group}
    (h : Split of all groups) {r : Nat} (hr : r ∈ all) :
    ∃ (gi i : Nat) (g : Group), groups[gi]? = some g ∧ g.srcRows[i]? = some r := by
  obtain ⟨g, hg, hrg⟩ := h.isPartition.exists_group hr
  obtain ⟨gi, hgi⟩ := List.mem_iff_getElem?.mp hg
  obtain ⟨i, hi⟩ := List.mem_iff_getElem?.mp hrg
  exact ⟨gi, i, g, hgi, hi⟩

/-! ### Single steps -/

/-- A change to one group that leaves what `f` reads of it. -/
theorem map_modify {β : Type} (f : Group → β) {change : Group → Group} (hf : ∀ g, f (change g) = f g)
    (groups : List Group) (gi : Nat) : (groups.modify gi change).map f = groups.map f := by
  apply List.ext_getElem?
  intro j
  rw [List.getElem?_map, List.getElem?_map, List.getElem?_modify]
  cases groups[j]? with
  | none => rfl
  | some g =>
      refine congrArg some ?_
      split
      · exact hf g
      · rfl

/-- A change to a group that is there. -/
theorem getElem?_modify_of_some {groups : List Group} {gi : Nat} {g : Group} (hg : groups[gi]? = some g)
    (change : Group → Group) (j : Nat) :
    (groups.modify gi change)[j]? = if gi = j then some (change g) else groups[j]? := by
  by_cases hij : gi = j
  · rw [if_pos hij, ← hij, List.getElem?_modify_eq, hg]
    rfl
  · rw [if_neg hij, List.getElem?_modify_ne change groups hij]

namespace GroupProxy

section
variable {F : Type} (s : GroupProxy F)

/-- Nothing but the groups, their index and the persistent indexes changed. -/
def SameSource (t : GroupProxy F) : Prop :=
  t.src = s.src ∧ t.mode = s.mode ∧ t.sortColumn = s.sortColumn ∧ t.sortOrder = s.sortOrder ∧
    t.sortWithinGroups = s.sortWithinGroups

variable {s}

theorem SameSource.refl : SameSource s s := ⟨rfl, rfl, rfl, rfl, rfl⟩

theorem SameSource.trans {t u : GroupProxy F} (h : SameSource s t) (h' : SameSource t u) :
    SameSource s u :=
  ⟨h'.1.trans h.1, h'.2.1.trans h.2.1, h'.2.2.1.trans h.2.2.1, h'.2.2.2.1.trans h.2.2.2.1,
    h'.2.2.2.2.trans h.2.2.2.2⟩

theorem SameSource.rowKey {t : GroupProxy F} (h : SameSource s t) : t.rowKey = s.rowKey := by
  funext r
  simp only [GroupProxy.rowKey, connectionAt, h.1, h.2.1]

theorem SameSource.rowCount {t : GroupProxy F} (h : SameSource s t) : t.rowCount = s.rowCount := by
  simp only [GroupProxy.rowCount, h.1]

variable (s)

@[simp] theorem groups_refreshSrcIndex : s.refreshSrcIndex.groups = s.groups := rfl

@[simp] theorem mode_refreshSrcIndex : s.refreshSrcIndex.mode = s.mode := rfl

theorem srcIndex_refreshSrcIndex (hmode : s.mode ≠ .Flat) :
    s.refreshSrcIndex.srcIndex = indexOf s.groups := by
  rw [refreshSrcIndex]
  exact if_neg hmode

theorem sameSource_refreshSrcIndex : SameSource s s.refreshSrcIndex := ⟨rfl, rfl, rfl, rfl, rfl⟩

theorem sameSource_placeSourceRow (r : Nat) : SameSource s (s.placeSourceRow r) := by
  unfold placeSourceRow
  split <;> exact ⟨rfl, rfl, rfl, rfl, rfl⟩

theorem sameSource_removeChild (gi i : Nat) : SameSource s (s.removeChild gi i) :=
  ⟨rfl, rfl, rfl, rfl, rfl⟩

theorem sameSource_removeGroup (gi : Nat) : SameSource s (s.removeGroup gi) :=
  ⟨rfl, rfl, rfl, rfl, rfl⟩

variable {s}

theorem findGroup_some {key : QString} {gi : Nat} (h : s.findGroup key = some gi) :
    ∃ g, s.groups[gi]? = some g ∧ g.key = key := by
  obtain ⟨hlt, hkey, -⟩ := List.findIdx?_eq_some_iff_getElem.mp h
  exact ⟨s.groups[gi], List.getElem?_eq_getElem hlt, by simpa using hkey⟩

theorem findGroup_none {key : QString} (h : s.findGroup key = none) :
    ∀ g ∈ s.groups, g.key ≠ key := fun g hg => by
  simpa using List.findIdx?_eq_none_iff.mp h g hg

/-- **Placing a row.** -/
theorem split_placeSourceRow {of : Nat → QString} {all : List Nat} (h : Split of all s.groups)
    {r : Nat} (hr : of r = s.rowKey r) : Split of (all ++ [r]) (s.placeSourceRow r).groups := by
  unfold placeSourceRow
  split
  · next gi hgi =>
    obtain ⟨g, hg, hkey⟩ := findGroup_some hgi
    exact h.add hg (hr.trans hkey.symm)
  · next hnone => exact h.create (findGroup_none hnone) rfl hr

/-- Placing rows one after the other. -/
theorem split_foldl_placeSourceRow {of : Nat → QString} (rs : List Nat) {all : List Nat}
    (h : Split of all s.groups) (hrs : ∀ r ∈ rs, of r = s.rowKey r) :
    Split of (all ++ rs) (rs.foldl placeSourceRow s).groups := by
  induction rs generalizing s all with
  | nil => simpa using h
  | cons r rs ih =>
      have hstep := split_placeSourceRow h (hrs r List.mem_cons_self)
      rw [List.foldl_cons, List.append_cons]
      refine ih hstep fun r' hr' => ?_
      rw [(s.sameSource_placeSourceRow r).rowKey]
      exact hrs r' (List.mem_cons_of_mem _ hr')

/-! ### Rebuilding -/

variable (s) in
/-- The rebuild's loop: the groups so far, and where each key is. -/
theorem split_foldl_rebuildRow (n : Nat) :
    let st := (List.range n).foldl s.rebuildRow ([], ∅)
    Split s.rowKey (List.range n) st.1 ∧ st.2 = Hash.positions Group.key st.1 := by
  induction n with
  | zero => exact ⟨.empty _, rfl⟩
  | succ n ih =>
      intro st
      obtain ⟨hsplit, hpos⟩ := ih
      have e : st = s.rebuildRow ((List.range n).foldl s.rebuildRow ([], ∅)) n := by
        simp only [st, List.range_succ, List.foldl_append, List.foldl_cons, List.foldl_nil]
      rw [e]
      generalize (List.range n).foldl s.rebuildRow ([], ∅) = st' at hsplit hpos
      rw [List.range_succ]
      have hlookup := Hash.lookup_positions hsplit.isPartition.keys_nodup (s.rowKey n)
      rw [← hpos] at hlookup
      unfold rebuildRow
      split
      · next idx hidx =>
        obtain ⟨g, hg, hkey⟩ := (hlookup idx).mp hidx
        refine ⟨hsplit.add hg hkey.symm, hpos.trans (Hash.positions_congr ?_)⟩
        obtain ⟨pre, post, hl, hlen⟩ := exists_split hg
        rw [hl, modify_split hlen]
        simp
      · next hnone =>
        have hnew : ∀ g ∈ st'.1, g.key ≠ s.rowKey n := fun g hg e => by
          obtain ⟨j, hj⟩ := List.mem_iff_getElem?.mp hg
          rw [(hlookup j).mpr ⟨g, hj, e⟩] at hnone
          cases hnone
        refine ⟨hsplit.create hnew rfl rfl, ?_⟩
        rw [Hash.positions_concat, ← hpos]

/-! ### Taking rows out -/

/-- The positions of the empty groups. -/
def EmptiedAre (idxs : List Nat) (groups : List Group) : Prop :=
  idxs.Nodup ∧ ∀ gi, gi ∈ idxs ↔ ∃ g, groups[gi]? = some g ∧ g.srcRows = []

/-- A split has none. -/
theorem emptiedAre_nil {of : Nat → QString} {all : List Nat} {groups : List Group}
    (h : Split of all groups) : EmptiedAre [] groups := by
  refine ⟨List.nodup_nil, fun gi => ⟨fun hm => absurd hm List.not_mem_nil, ?_⟩⟩
  rintro ⟨g, hg, hnil⟩
  exact absurd hnil (h.nonempty g (List.mem_of_getElem? hg))

/-- Erasing the last of them leaves the others. -/
theorem EmptiedAre.erase {gi : Nat} {idxs : List Nat} {groups : List Group}
    (h : EmptiedAre (gi :: idxs) groups) (hlt : ∀ j ∈ idxs, gi > j) :
    EmptiedAre idxs (groups.eraseIdx gi) := by
  refine ⟨(List.nodup_cons.mp h.1).2, fun j => ?_⟩
  rw [List.getElem?_eraseIdx]
  by_cases hj : j < gi
  · rw [if_pos hj, ← h.2 j, List.mem_cons]
    exact ⟨.inr, fun h' => h'.resolve_left (by omega)⟩
  · rw [if_neg hj, ← h.2 (j + 1), List.mem_cons]
    constructor
    · exact fun h' => absurd (hlt j h') hj
    · rintro (h' | h')
      · omega
      · have := hlt _ h'
        omega

theorem EmptiedAre.shift {idxs : List Nat} {groups : List Group} (h : EmptiedAre idxs groups)
    (f : Nat → Nat) :
    EmptiedAre idxs (groups.map fun g => { g with srcRows := g.srcRows.map f }) := by
  refine ⟨h.1, fun gi => (h.2 gi).trans ?_⟩
  rw [List.getElem?_map]
  cases groups[gi]? <;> simp

theorem groups_removeChild {gi i : Nat} {g : Group} (hg : s.groups[gi]? = some g) (j : Nat) :
    (s.removeChild gi i).groups[j]? =
      if gi = j then some { g with srcRows := g.srcRows.eraseIdx i } else s.groups[j]? :=
  getElem?_modify_of_some hg _ j

/-- What taking out a row does: it leaves its place, and its group is noted if that was the last. -/
theorem removeSourceRow_eq {of : Nat → QString} {all : List Nat}
    {st : GroupProxy F × List Nat} (hp : IsPartition Group.key Group.srcRows of all st.1.groups)
    (he : EmptiedAre st.2 st.1.groups) {r : Nat} (hr : r ∈ all) :
    ∃ gi i g, st.1.groups[gi]? = some g ∧ g.srcRows[i]? = some r ∧
      removeSourceRow st r = (st.1.removeChild gi i,
        if g.srcRows.eraseIdx i = [] then st.2 ++ [gi] else st.2) := by
  obtain ⟨g₀, hg₀, hrg₀⟩ := hp.exists_group hr
  cases hfind : st.1.groups.findIdx? fun g => decide (r ∈ g.srcRows) with
  | none =>
      have hno := List.findIdx?_eq_none_iff.mp hfind g₀ hg₀
      exact absurd hrg₀ (by simpa using hno)
  | some gi =>
      obtain ⟨hlt, hmem, -⟩ := List.findIdx?_eq_some_iff_getElem.mp hfind
      have hg : st.1.groups[gi]? = some st.1.groups[gi] := List.getElem?_eq_getElem hlt
      have hrg : r ∈ st.1.groups[gi].srcRows := of_decide_eq_true hmem
      generalize st.1.groups[gi] = g at hg hrg
      have hi : g.srcRows[g.srcRows.idxOf r]? = some r := by
        rw [List.getElem?_eq_getElem (List.idxOf_lt_length_iff.mpr hrg), List.getElem_idxOf]
      have hnot : gi ∉ st.2 := fun hmem' => by
        obtain ⟨g', hg', hnil⟩ := (he.2 gi).mp hmem'
        rw [hg] at hg'
        rw [Option.some.inj hg', hnil] at hrg
        cases hrg
      refine ⟨gi, g.srcRows.idxOf r, g, hg, hi, ?_⟩
      unfold removeSourceRow
      simp only [hfind, hg, Option.elim_some, groups_removeChild hg, if_true, hnot,
        not_false_eq_true, and_true, List.isEmpty_iff]
      split <;> rfl

/-- **Taking out a row.** -/
theorem removeSourceRow_spec {of : Nat → QString} {all : List Nat}
    {st : GroupProxy F × List Nat} (hp : IsPartition Group.key Group.srcRows of all st.1.groups)
    (he : EmptiedAre st.2 st.1.groups) {r : Nat} (hr : r ∈ all) :
    IsPartition Group.key Group.srcRows of (all.erase r) (removeSourceRow st r).1.groups ∧
      EmptiedAre (removeSourceRow st r).2 (removeSourceRow st r).1.groups ∧
      SameSource st.1 (removeSourceRow st r).1 := by
  obtain ⟨gi, i, g, hg, hi, e⟩ := removeSourceRow_eq hp he hr
  rw [e]
  refine ⟨hp.remove hg hi rfl rfl, ?_, st.1.sameSource_removeChild gi i⟩
  have hnot : gi ∉ st.2 := fun hmem => by
    obtain ⟨g', hg', hnil⟩ := (he.2 gi).mp hmem
    rw [hg] at hg'
    rw [Option.some.inj hg', hnil] at hi
    cases hi
  by_cases hnil : g.srcRows.eraseIdx i = []
  · rw [if_pos hnil]
    refine ⟨?_, fun j => ?_⟩
    · rw [List.nodup_append]
      refine ⟨he.1, List.nodup_singleton _, fun a ha b hb e => hnot ?_⟩
      rwa [← List.mem_singleton.mp hb, ← e]
    · rw [List.mem_append, List.mem_singleton, groups_removeChild hg]
      by_cases hj : gi = j
      · simp [hj, hnil]
      · simp [hj, Ne.symm hj, he.2 j]
  · rw [if_neg hnil]
    refine ⟨he.1, fun j => ?_⟩
    rw [groups_removeChild hg]
    by_cases hj : gi = j
    · subst hj
      simp [hnot, hnil]
    · simp [hj, he.2 j]

/-- Taking out rows one after the other. -/
theorem foldl_removeSourceRow_spec {of : Nat → QString} (rs : List Nat) {all : List Nat}
    (st : GroupProxy F × List Nat) (hp : IsPartition Group.key Group.srcRows of all st.1.groups)
    (he : EmptiedAre st.2 st.1.groups) (hrs : ∀ r ∈ rs, r ∈ all) (hnd : rs.Nodup) :
    IsPartition Group.key Group.srcRows of (all.diff rs) (rs.foldl removeSourceRow st).1.groups ∧
      EmptiedAre (rs.foldl removeSourceRow st).2 (rs.foldl removeSourceRow st).1.groups ∧
      SameSource st.1 (rs.foldl removeSourceRow st).1 := by
  induction rs generalizing all st with
  | nil => exact ⟨hp, he, .refl⟩
  | cons r rs ih =>
      obtain ⟨hp', he', hsame⟩ := removeSourceRow_spec hp he (hrs r List.mem_cons_self)
      obtain ⟨hr, hnd⟩ := List.nodup_cons.mp hnd
      obtain ⟨hp'', he'', hsame'⟩ := ih _ hp' he' (fun r' hr' => by
        have hne : r' ≠ r := fun e => hr (e ▸ hr')
        exact (List.mem_erase_of_ne hne).mpr (hrs r' (List.mem_cons_of_mem _ hr'))) hnd
      rw [List.foldl_cons, List.diff_cons]
      exact ⟨hp'', he'', hsame.trans hsame'⟩

/-- **Erasing the emptied groups**, from the last to the first. -/
theorem split_foldl_removeGroup {of : Nat → QString} {all : List Nat} {idxs : List Nat}
    (hp : IsPartition Group.key Group.srcRows of all s.groups) (hdesc : idxs.Pairwise (· > ·))
    (he : EmptiedAre idxs s.groups) :
    Split of all (idxs.foldl removeGroup s).groups ∧ SameSource s (idxs.foldl removeGroup s) := by
  induction idxs generalizing s with
  | nil =>
      refine ⟨⟨hp, fun g hg hnil => ?_⟩, .refl⟩
      obtain ⟨j, hj⟩ := List.mem_iff_getElem?.mp hg
      exact absurd ((he.2 j).mpr ⟨g, hj, hnil⟩) List.not_mem_nil
  | cons gi idxs ih =>
      obtain ⟨g, hg, hnil⟩ := (he.2 gi).mp List.mem_cons_self
      obtain ⟨hlt, hdesc⟩ := List.pairwise_cons.mp hdesc
      have he' : EmptiedAre idxs (s.removeGroup gi).groups := he.erase hlt
      obtain ⟨hsplit, hsame⟩ := ih (s := s.removeGroup gi) (hp.drop hg hnil) hdesc he'
      exact ⟨hsplit, (s.sameSource_removeGroup gi).trans hsame⟩

/-- The noted positions, sorted from the last to the first. -/
theorem sort_desc (S : StdSort) {idxs : List Nat} {groups : List Group}
    (h : EmptiedAre idxs groups) :
    (S.sort (fun a b => decide (a > b)) idxs).Pairwise (· > ·) ∧
      EmptiedAre (S.sort (fun a b => decide (a > b)) idxs) groups := by
  have hperm := S.perm (fun a b => decide (a > b)) idxs
  have hnd : (S.sort (fun a b => decide (a > b)) idxs).Nodup := hperm.nodup_iff.mpr h.1
  have hstrict : StrictWeak fun a b : Nat => decide (a > b) := .greater id
  refine ⟨((S.ordered idxs hstrict).and hnd).imp fun {a b} hab => ?_, hnd,
    fun gi => hperm.mem_iff.trans (h.2 gi)⟩
  have := of_decide_eq_false hab.1
  have := hab.2
  omega

/-! ### Regrouping -/

theorem takeOut_eq {gi i : Nat} {g : Group} (hg : s.groups[gi]? = some g) :
    s.takeOut gi i = if g.srcRows.eraseIdx i = [] then (s.removeChild gi i).removeGroup gi
      else s.removeChild gi i := by
  simp only [takeOut, groups_removeChild hg, if_true, Option.elim_some, List.isEmpty_iff]

/-- **Taking a flow out of its group.** -/
theorem split_takeOut {of : Nat → QString} {all : List Nat} (h : Split of all s.groups)
    {gi i r : Nat} {g : Group} (hg : s.groups[gi]? = some g) (hi : g.srcRows[i]? = some r) :
    Split of (all.erase r) (s.takeOut gi i).groups ∧ SameSource s (s.takeOut gi i) := by
  have hrem : IsPartition Group.key Group.srcRows of (all.erase r) (s.removeChild gi i).groups :=
    h.isPartition.remove hg hi rfl rfl
  have hother : ∀ j g', j ≠ gi → (s.removeChild gi i).groups[j]? = some g' → g'.srcRows ≠ [] := by
    intro j g' hj hg'
    rw [groups_removeChild hg, if_neg (Ne.symm hj)] at hg'
    exact h.nonempty g' (List.mem_of_getElem? hg')
  have hself : (s.removeChild gi i).groups[gi]? =
      some { g with srcRows := g.srcRows.eraseIdx i } := by
    rw [groups_removeChild hg, if_pos rfl]
  rw [takeOut_eq hg]
  by_cases hnil : g.srcRows.eraseIdx i = []
  · rw [if_pos hnil]
    refine ⟨⟨hrem.drop hself hnil, fun g' hg' => ?_⟩, ⟨rfl, rfl, rfl, rfl, rfl⟩⟩
    obtain ⟨j, hj⟩ := List.mem_iff_getElem?.mp hg'
    simp only [removeGroup, removeRows, List.getElem?_eraseIdx] at hj
    by_cases hlt : j < gi
    · exact hother j g' (by omega) (by simpa [hlt] using hj)
    · exact hother (j + 1) g' (by omega) (by simpa [hlt] using hj)
  · rw [if_neg hnil]
    refine ⟨⟨hrem, fun g' hg' => ?_⟩, s.sameSource_removeChild gi i⟩
    obtain ⟨j, hj⟩ := List.mem_iff_getElem?.mp hg'
    by_cases hji : j = gi
    · subst hji
      rw [hself] at hj
      rw [← Option.some.inj hj]
      exact hnil
    · exact hother j g' hji hj

/-- What regrouping a row does: a new label, or a move. -/
theorem regroupSourceRow_cases {of : Nat → QString} {all : List Nat} (h : Split of all s.groups)
    (hnd : all.Nodup) (hidx : s.srcIndex = indexOf s.groups) {r : Nat} (hr : r ∈ all) :
    ∃ gi i g, s.groups[gi]? = some g ∧ g.srcRows[i]? = some r ∧
      ((g.key = s.rowKey r ∧ s.regroupSourceRow r =
        ({ s with groups := s.groups.modify gi fun g => { g with label := s.rowLabel r } }, false)) ∨
      (g.key ≠ s.rowKey r ∧ s.regroupSourceRow r =
        (((s.takeOut gi i).placeSourceRow r).refreshSrcIndex, true))) := by
  obtain ⟨gi, i, g, hg, hi⟩ := h.exists_place hr
  have hl : s.srcIndex.lookup r = some (gi, i) := by
    rw [hidx]
    exact (h.lookup_indexOf hnd r gi i).mpr ⟨g, hg, hi⟩
  refine ⟨gi, i, g, hg, hi, ?_⟩
  by_cases hkey : g.key = s.rowKey r
  · refine .inl ⟨hkey, ?_⟩
    simp only [regroupSourceRow, hl, Option.bind_eq_bind, Option.bind_some, hg, hkey, if_true]
  · refine .inr ⟨hkey, ?_⟩
    simp only [regroupSourceRow, hl, Option.bind_eq_bind, Option.bind_some, hg, hkey, if_false]

/-- A new label changes no partition and no index. -/
theorem split_label {of : Nat → QString} {all : List Nat} {groups : List Group}
    (h : Split of all groups) (gi : Nat) (label : QString) :
    Split of all (groups.modify gi fun g => { g with label }) ∧
      indexOf (groups.modify gi fun g => { g with label }) = indexOf groups := by
  have hrows : (groups.modify gi fun g => { g with label }).map Group.srcRows =
      groups.map Group.srcRows := by
    refine map_modify Group.srcRows ?_ groups gi
    intro g
    rfl
  refine ⟨?_, indexOf_congr hrows⟩
  cases hg : groups[gi]? with
  | none =>
      rw [List.modify_eq_self (List.getElem?_eq_none_iff.mp hg)]
      exact h
  | some g =>
      refine ⟨h.isPartition.modify hg rfl ?_ (h.isPartition.key_eq g (List.mem_of_getElem? hg)), ?_⟩
      · rw [List.flatMap_def, hrows, ← List.flatMap_def]
        exact h.isPartition.perm
      · intro g' hg' hnil
        have hmem := List.mem_map_of_mem (f := Group.srcRows) hg'
        rw [hrows, hnil] at hmem
        obtain ⟨g'', hg'', e⟩ := List.mem_map.mp hmem
        exact h.nonempty g'' hg'' e

/-- **Regrouping a row** puts it under its present key and leaves the others where they are. -/
theorem split_regroupSourceRow {of : Nat → QString} (of' : Nat → QString) {all : List Nat}
    (h : Split of all s.groups) (hnd : all.Nodup) (hidx : s.srcIndex = indexOf s.groups)
    (hmode : s.mode ≠ .Flat) {r : Nat} (hr : r ∈ all) (hof : of' r = s.rowKey r)
    (hother : ∀ x ∈ all, x ≠ r → of' x = of x) :
    Split of' all (s.regroupSourceRow r).1.groups ∧
      (s.regroupSourceRow r).1.srcIndex = indexOf (s.regroupSourceRow r).1.groups ∧
      SameSource s (s.regroupSourceRow r).1 := by
  obtain ⟨gi, i, g, hg, hi, ⟨hkey, e⟩ | ⟨hkey, e⟩⟩ := regroupSourceRow_cases h hnd hidx hr
  · rw [e]
    have hofr : of r = s.rowKey r := by
      rw [h.isPartition.key_eq g (List.mem_of_getElem? hg) r (List.mem_of_getElem? hi), hkey]
    obtain ⟨hsplit, hindex⟩ := split_label h gi (s.rowLabel r)
    refine ⟨hsplit.congr fun x hx => ?_, hidx.trans hindex.symm, ⟨rfl, rfl, rfl, rfl, rfl⟩⟩
    by_cases hxr : x = r
    · rw [hxr, hof, hofr]
    · exact hother x hx hxr
  · rw [e]
    obtain ⟨hout, hsame⟩ := split_takeOut h hg hi
    have hout' : Split of' (all.erase r) (s.takeOut gi i).groups := hout.congr fun x hx =>
      hother x (List.mem_of_mem_erase hx) fun e => (hnd.not_mem_erase) (e ▸ hx)
    have hplace := split_placeSourceRow hout' (r := r) (by rw [hsame.rowKey, hof])
    have hsame' := hsame.trans ((s.takeOut gi i).sameSource_placeSourceRow r)
    refine ⟨hplace.permAll ?_, srcIndex_refreshSrcIndex _ (hsame'.2.1 ▸ hmode),
      hsame'.trans (sameSource_refreshSrcIndex _)⟩
    exact List.perm_append_comm.trans (List.perm_cons_erase hr).symm

/-- The keys while a change is being worked off: rows before `t` have their new key. -/
def keysAt (old new : Nat → QString) (t x : Nat) : QString := if x < t then new x else old x

/-- Regrouping row `t`: it is the one row whose key changes. -/
theorem split_regroupStep {old : Nat → QString} {all : List Nat} {st : GroupProxy F × Bool}
    {t : Nat} (hnd : all.Nodup) (hmode : s.mode ≠ .Flat) (hsame : SameSource s st.1) (ht : t ∈ all)
    (hsplit : Split (keysAt old s.rowKey t) all st.1.groups)
    (hidx : st.1.srcIndex = indexOf st.1.groups) :
    Split (keysAt old s.rowKey (t + 1)) all (regroupStep st t).1.groups ∧
      (regroupStep st t).1.srcIndex = indexOf (regroupStep st t).1.groups ∧
      SameSource s (regroupStep st t).1 := by
  obtain ⟨hsplit', hidx', hsame'⟩ := split_regroupSourceRow (keysAt old s.rowKey (t + 1)) hsplit
    hnd hidx (hsame.2.1 ▸ hmode) ht (by rw [keysAt, if_pos (by omega), hsame.rowKey])
    fun x _ hxt => by
      unfold keysAt
      by_cases hlt : x < t
      · rw [if_pos hlt, if_pos (by omega)]
      · rw [if_neg hlt, if_neg (by omega)]
  exact ⟨hsplit', hidx', hsame.trans hsame'⟩

/-- Regrouping rows one after the other, from row `t` on. -/
theorem split_foldl_regroupStep {old : Nat → QString} {all : List Nat} (hnd : all.Nodup)
    (hmode : s.mode ≠ .Flat) (k : Nat) :
    ∀ (t : Nat) (st : GroupProxy F × Bool), SameSource s st.1 →
      (∀ r, t ≤ r → r < t + k → r ∈ all) → Split (keysAt old s.rowKey t) all st.1.groups →
      st.1.srcIndex = indexOf st.1.groups →
      let st' := (List.range' t k).foldl regroupStep st
      Split (keysAt old s.rowKey (t + k)) all st'.1.groups ∧
        st'.1.srcIndex = indexOf st'.1.groups ∧ SameSource s st'.1 := by
  induction k with
  | zero => exact fun t st hsame _ hsplit hidx => ⟨hsplit, hidx, hsame⟩
  | succ k ih =>
      intro t st hsame hall hsplit hidx st'
      obtain ⟨hsplit', hidx', hsame'⟩ :=
        split_regroupStep hnd hmode hsame (hall t le_rfl (by omega)) hsplit hidx
      have hrest := ih (t + 1) (regroupStep st t) hsame'
        (fun r h₁ h₂ => hall r (by omega) (by omega)) hsplit' hidx'
      rw [show t + (k + 1) = t + 1 + k by omega]
      exact hrest

/-! ### Sorting -/

variable [Double F] {S : StdSort} {compare : QVariant F → QVariant F → PartialOrdering}

variable (s) in
theorem sortGroups_perm (groups : List Group) :
    (s.sortGroups S compare groups).Perm (groups.map (s.sortChildren S compare)) := by
  simp only [sortGroups]
  split
  · exact .refl _
  · exact S.perm _ _

/-- **Sorting keeps the partition.** -/
theorem split_sortGroups {of : Nat → QString} {all : List Nat} {groups : List Group}
    (h : Split of all groups) : Split of all (s.sortGroups S compare groups) := by
  refine Split.permGroups ?_ (s.sortGroups_perm groups)
  have hmap : Split of (all.map id) (groups.map (s.sortChildren S compare)) := h.map
    (fun _ => rfl) (fun g => by rw [List.map_id]; exact S.perm _ _) fun _ _ => rfl
  rwa [List.map_id] at hmap

end

end GroupProxy

end Qiftop.Ui
