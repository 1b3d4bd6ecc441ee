import Qiftop.Ui.GroupIndexes

/-!
# Ui — persistent indexes over runs

A name survives an event unless its key or its flow is gone, its flow changed group, or the model was
reset; a flow's row number moves as the source's rows move (`Anchor.after`).

Indexes follow their names as long as no event erases a group in front of the group of a flow that
stays put and is held by an index, and no group held by an index is erased and made again within one
change (`Safe`).  `indexes_follow` says so for every run of the proxy, and `index_left_behind` is a
run where an index does not follow.
-/

namespace Qiftop.Ui
open Qt Lib Backend

/-! ### Names after an event -/

section
variable {F : Type}

/-- The source as the event leaves it. -/
def Event.onSource (s : GroupProxy F) : Event F → GroupProxy F
  | .rowsInserted first rows => s.sourceInserted first rows
  | .rowsRemoved first last => s.sourceRemoved first last
  | .dataChanged _ _ _ rows => s.sourceChanged rows
  | _ => s

/-- Where a source row goes. -/
def Event.move : Event F → Nat → Nat
  | .rowsInserted first rows => shiftInserted first rows.length
  | .rowsRemoved first last => shiftRemoved first last
  | _ => id

/-- Whether what the name stands for outlasts the event: the key is still some row's, the flow is
still there and in the same group. -/
def Anchor.survives (s : GroupProxy F) (e : Event F) (a : Anchor) : Bool :=
  !e.resets s &&
    match a with
    | .group k => decide (k ∈ (List.range (e.onSource s).rowCount).map (e.onSource s).rowKey)
    | .flow r =>
        match e with
        | .rowsRemoved first last => decide (¬ (first ≤ r ∧ r ≤ last))
        | .dataChanged _ _ _ rows => decide ((s.sourceChanged rows).rowKey r = s.rowKey r)
        | _ => true

/-- The name after the event. -/
def Anchor.after (s : GroupProxy F) (e : Event F) (a : Anchor) : Option Anchor :=
  if a.survives s e then some (a.shift e.move) else none

/-- The event leaves the group of key `k` without rows at some moment. -/
def Event.Vacates (s : GroupProxy F) (k : QString) : Event F → Prop
  | .rowsRemoved first last => ∀ r < s.rowCount, s.rowKey r = k → first ≤ r ∧ r ≤ last
  | .dataChanged first last _ rows =>
      ∃ t, first ≤ t ∧ t ≤ last ∧ s.rowKey t = k ∧ (s.sourceChanged rows).rowKey t ≠ k ∧
        ∀ r < s.rowCount, r ≠ t →
          GroupProxy.keysAt s.rowKey (s.sourceChanged rows).rowKey t r ≠ k
  | _ => False

/-- No group in front of a held flow's group is vacated, and no held group is; both only where what
is held outlasts the event. -/
def Safe (s : GroupProxy F) (as : List (Option Anchor)) (e : Event F) : Prop :=
  (∀ r, some (.flow r) ∈ as → (Anchor.flow r).survives s e →
    ∀ k, [k, s.rowKey r].Sublist (s.groups.map Group.key) → ¬ e.Vacates s k) ∧
  ∀ k, some (.group k) ∈ as → (Anchor.group k).survives s e → ¬ e.Vacates s k

/-- The names that survive. -/
def surviving (s : GroupProxy F) (e : Event F) (as : List (Option Anchor)) : List (Option Anchor) :=
  as.map fun a => a.filter (·.survives s e)

theorem map_after (s : GroupProxy F) (e : Event F) (as : List (Option Anchor)) :
    as.map (fun a => a.bind (Anchor.after s e)) =
      (surviving s e as).map (Option.map (·.shift e.move)) := by
  rw [surviving, List.map_map]
  refine List.map_congr_left fun a _ => ?_
  cases a with
  | none => rfl
  | some x =>
      by_cases hx : x.survives s e
      · simp [Anchor.after, hx]
      · simp [Anchor.after, hx]

theorem mem_surviving {s : GroupProxy F} {e : Event F} {as : List (Option Anchor)} {x : Anchor}
    (hx : some x ∈ surviving s e as) : some x ∈ as ∧ x.survives s e = true := by
  obtain ⟨a, ha, e⟩ := List.mem_map.mp hx
  obtain ⟨rfl, hs⟩ := Option.filter_eq_some_iff.mp e
  exact ⟨ha, hs⟩

theorem Tracks.surviving {groups : List Group} {ps : List (Option ModelIndex)}
    {as : List (Option Anchor)} (h : Tracks groups ps as) (s : GroupProxy F) (e : Event F) :
    Tracks groups ps (surviving s e as) :=
  h.mapNames (fun p x x' _ hpx e => by
    obtain ⟨e, -⟩ := Option.filter_eq_some_iff.mp e
    cases e
    exact hpx) rfl

end

theorem sublist_pair_of_concat {α : Type} {a b c : α} {l : List α} (hne : b ≠ c)
    (h : [a, b].Sublist (l ++ [c])) : [a, b].Sublist l := by
  obtain ⟨l₁, l₂, e, h₁, h₂⟩ := List.sublist_append_iff.mp h
  rcases List.sublist_singleton.mp h₂ with rfl | rfl
  · rw [List.append_nil] at e
    rwa [e]
  · have hlast := congrArg List.getLast? e
    simp at hlast
    exact absurd hlast hne

/-! ### Rows inserted -/

namespace GroupProxy

section
variable {F : Type} {s : GroupProxy F} {as : List (Option Anchor)}

theorem tracks_foldl_placeSourceRow (rs : List Nat) (h : Tracks s.groups s.persistent as) :
    Tracks (rs.foldl placeSourceRow s).groups (rs.foldl placeSourceRow s).persistent as := by
  induction rs generalizing s with
  | nil => exact h
  | cons r rs ih => exact ih (tracks_placeSourceRow h r)

/-! ### Rows removed -/

theorem keys_removeChild (s : GroupProxy F) (gi i : Nat) :
    (s.removeChild gi i).groups.map Group.key = s.groups.map Group.key := by
  refine map_modify Group.key ?_ s.groups gi
  intro g
  rfl

theorem tracks_foldl_removeSourceRow {of : Nat → QString} (rs : List Nat) {all : List Nat}
    (st : GroupProxy F × List Nat) (hp : IsPartition Group.key Group.srcRows of all st.1.groups)
    (he : EmptiedAre st.2 st.1.groups) (hrs : ∀ r ∈ rs, r ∈ all) (hnd : rs.Nodup)
    (h : Tracks st.1.groups st.1.persistent as) (hfree : ∀ r ∈ rs, some (.flow r) ∉ as) :
    Tracks (rs.foldl removeSourceRow st).1.groups (rs.foldl removeSourceRow st).1.persistent as ∧
      (rs.foldl removeSourceRow st).1.groups.map Group.key = st.1.groups.map Group.key := by
  induction rs generalizing all st with
  | nil => exact ⟨h, rfl⟩
  | cons r rs ih =>
      have hr := hrs r List.mem_cons_self
      obtain ⟨hp', he', -⟩ := removeSourceRow_spec hp he hr
      obtain ⟨hnot, hnd⟩ := List.nodup_cons.mp hnd
      obtain ⟨gi, i, g, hg, hi, e⟩ := removeSourceRow_eq hp he hr
      have hstep : Tracks (removeSourceRow st r).1.groups (removeSourceRow st r).1.persistent as := by
        rw [e]
        exact tracks_removeChild h hg hi (hfree r List.mem_cons_self)
      have hkeys : (removeSourceRow st r).1.groups.map Group.key = st.1.groups.map Group.key := by
        rw [e]
        exact keys_removeChild _ _ _
      obtain ⟨htracks, hkeys'⟩ := ih _ hp' he' (fun r' hr' => by
        have hne : r' ≠ r := fun e => hnot (e ▸ hr')
        exact (List.mem_erase_of_ne hne).mpr (hrs r' (List.mem_cons_of_mem _ hr'))) hnd hstep
        fun r' hr' => hfree r' (List.mem_cons_of_mem _ hr')
      exact ⟨htracks, hkeys'.trans hkeys⟩

/-- Shifting row numbers and erasing groups commute. -/
theorem foldl_removeGroup_shiftRows (idxs : List Nat) (f : Nat → Nat) :
    idxs.foldl removeGroup (s.shiftRows f) = (idxs.foldl removeGroup s).shiftRows f := by
  induction idxs generalizing s with
  | nil => rfl
  | cons gi idxs ih =>
      have e : (s.shiftRows f).removeGroup gi = (s.removeGroup gi).shiftRows f := by
        simp only [removeGroup, removeRows, shiftRows, List.eraseIdx_map]
      rw [List.foldl_cons, e, ih, List.foldl_cons]

/-- A group in front of another stands before it in the list of keys. -/
theorem sublist_keys {groups : List Group} {gi gj : Nat} {g g' : Group} (hlt : gi < gj)
    (hg : groups[gi]? = some g) (hg' : groups[gj]? = some g') :
    [g.key, g'.key].Sublist (groups.map Group.key) := by
  obtain ⟨pre, post, rfl, hlen⟩ := exists_split hg
  have hmem : g' ∈ post := by
    rw [List.getElem?_append_right (by omega)] at hg'
    rw [show gj - pre.length = (gj - pre.length - 1) + 1 by omega, List.getElem?_cons_succ] at hg'
    exact List.mem_of_getElem? hg'
  rw [List.map_append, List.map_cons]
  refine List.Sublist.trans ?_ (List.sublist_append_right _ _)
  exact List.Sublist.cons_cons _ (List.singleton_sublist.mpr (List.mem_map_of_mem hmem))

/-- Placing a row puts no group in front of one that was there. -/
theorem sublist_of_placeSourceRow {r : Nat} {k K : QString} (hK : K ∈ s.groups.map Group.key)
    (h : [k, K].Sublist ((s.placeSourceRow r).groups.map Group.key)) :
    [k, K].Sublist (s.groups.map Group.key) := by
  unfold placeSourceRow at h
  split at h
  · next gi _ =>
    have hkeys : (s.insertChild gi r).groups.map Group.key = s.groups.map Group.key := by
      refine map_modify Group.key ?_ s.groups gi
      intro g
      rfl
    rwa [hkeys] at h
  · next hnone =>
    have hnew : K ≠ s.rowKey r := fun e => by
      obtain ⟨g, hg, rfl⟩ := List.mem_map.mp hK
      exact findGroup_none hnone g hg e
    simp only [insertGroup, insertRows, List.map_append, List.map_singleton] at h
    exact sublist_pair_of_concat hnew h

/-- A group that the removal leaves empty was vacated by it. -/
theorem vacates_of_emptied {groups : List Group} {g : Group} {first last : Nat} (hle : first ≤ last)
    (hp : IsPartition Group.key Group.srcRows s.rowKey
      ((List.range s.rowCount).diff (List.range' first (last - first + 1))) groups)
    (hg : g ∈ groups) (hnil : g.srcRows = []) :
    (Event.rowsRemoved first last : Event F).Vacates s g.key := by
  intro r hr hk
  by_contra hout
  have hdiff := (mem_range_diff (n := s.rowCount) (r := r) hle).mpr ⟨hr, by omega⟩
  obtain ⟨g', hg', hk', hrg⟩ := (hp.mem_group_iff g.key r).mpr ⟨hdiff, hk⟩
  rw [hp.group_unique hg' hg hk', hnil] at hrg
  cases hrg

/-- Taking the removed rows and the emptied groups out. -/
theorem tracks_takeRemoved (S : StdSort) (hs : Grouped s) {first last : Nat} (hle : first ≤ last)
    (hlast : last < s.rowCount) (h : Tracks s.groups s.persistent as)
    (hflow : ∀ r, some (.flow r) ∈ as → ¬ (first ≤ r ∧ r ≤ last))
    (hgroup : ∀ k, some (.group k) ∈ as → ¬ (Event.rowsRemoved first last).Vacates s k)
    (hfront : ∀ r, some (.flow r) ∈ as → ∀ k, [k, s.rowKey r].Sublist (s.groups.map Group.key) →
      ¬ (Event.rowsRemoved first last).Vacates s k) :
    Tracks ((s.sourceRemoved first last).takeRemoved S first last).groups
      ((s.sourceRemoved first last).takeRemoved S first last).persistent
      (as.map (Option.map (·.shift (shiftRemoved first last)))) := by
  have hspan : ∀ r ∈ List.range' first (last - first + 1), r ∈ List.range s.rowCount := fun r hr =>
    List.mem_range.mpr (by have := List.mem_range'_1.mp hr; omega)
  obtain ⟨hp, he, -⟩ := foldl_removeSourceRow_spec
    (List.range' first (last - first + 1)) (s.sourceRemoved first last, []) hs.split.isPartition
    (emptiedAre_nil hs.split) hspan List.nodup_range'
  obtain ⟨htracks, hkeys⟩ := tracks_foldl_removeSourceRow
    (List.range' first (last - first + 1)) (s.sourceRemoved first last, []) hs.split.isPartition
    (emptiedAre_nil hs.split) hspan List.nodup_range' h
    fun r hr hm => hflow r hm (by have := List.mem_range'_1.mp hr; omega)
  obtain ⟨hdesc, he'⟩ := sort_desc S he
  simp only [takeRemoved]
  rw [foldl_removeGroup_shiftRows]
  refine tracks_shiftRows ?_ _
  generalize (List.range' first (last - first + 1)).foldl removeSourceRow
    (s.sourceRemoved first last, []) = st at hp he htracks hkeys hdesc he' ⊢
  have hvac : ∀ gi ∈ S.sort (fun a b => decide (a > b)) st.2, ∃ g, st.1.groups[gi]? = some g ∧
      g.srcRows = [] ∧ (Event.rowsRemoved first last).Vacates s g.key := by
    intro gi hgi
    obtain ⟨g, hg, hnil⟩ := (he'.2 gi).mp hgi
    exact ⟨g, hg, hnil, vacates_of_emptied hle hp (List.mem_of_getElem? hg) hnil⟩
  refine tracks_foldl_removeGroup hdesc htracks (fun gi hgi => ?_) fun gi hgi r hr gj g' hg' hrg => ?_
  · obtain ⟨g, hg, -, hv⟩ := hvac gi hgi
    exact ⟨g, hg, fun hm => hgroup g.key hm hv⟩
  · obtain ⟨g, hg, hnil, hv⟩ := hvac gi hgi
    by_contra hge
    have hne : gi ≠ gj := fun e => by
      rw [e, hg'] at hg
      rw [Option.some.inj hg, hnil] at hrg
      cases hrg
    refine hfront r hr g.key ?_ hv
    have hk : s.rowKey r = g'.key := hp.key_eq g' (List.mem_of_getElem? hg') r hrg
    have hsub := sublist_keys (by omega) hg hg'
    rw [hkeys, ← hk] at hsub
    exact hsub

/-! ### Data changed -/

/-- A row whose group is empty without it has no other of its key. -/
theorem alone_of_eraseIdx {of : Nat → QString} {all : List Nat} (hs : Split of all s.groups)
    {gi i r : Nat} {g : Group} (hg : s.groups[gi]? = some g) (hi : g.srcRows[i]? = some r)
    (hnil : g.srcRows.eraseIdx i = []) : ∀ x ∈ all, x ≠ r → of x ≠ of r := by
  intro x hx hxr hof
  have hofr : of r = g.key :=
    hs.isPartition.key_eq g (List.mem_of_getElem? hg) r (List.mem_of_getElem? hi)
  obtain ⟨g', hg', hk', hxg⟩ := (hs.isPartition.mem_group_iff g.key x).mpr ⟨hx, hof.trans hofr⟩
  rw [hs.isPartition.group_unique hg' (List.mem_of_getElem? hg) hk'] at hxg
  obtain ⟨u, v, hu, hul⟩ := exists_split hi
  rw [hu, eraseIdx_split hul] at hnil
  obtain ⟨rfl, rfl⟩ := List.append_eq_nil_iff.mp hnil
  rw [hu] at hxg
  exact hxr (by simpa using hxg)

/-- **Taking a row out.**  The indexes follow if the row is not held, and, when it is the last of its
group, neither the group nor a flow behind it is. -/
theorem tracks_takeOut {of : Nat → QString} {all : List Nat} (hs : Split of all s.groups)
    {gi i r : Nat} {g : Group} (hg : s.groups[gi]? = some g) (hi : g.srcRows[i]? = some r)
    (h : Tracks s.groups s.persistent as) (hflow : some (.flow r) ∉ as)
    (hgroup : (∀ x ∈ all, x ≠ r → of x ≠ of r) → some (.group (of r)) ∉ as)
    (hfront : (∀ x ∈ all, x ≠ r → of x ≠ of r) →
      ∀ r', some (.flow r') ∈ as → ¬ [of r, of r'].Sublist (s.groups.map Group.key)) :
    Tracks (s.takeOut gi i).groups (s.takeOut gi i).persistent as := by
  have hofr : of r = g.key :=
    hs.isPartition.key_eq g (List.mem_of_getElem? hg) r (List.mem_of_getElem? hi)
  have hchild := tracks_removeChild h hg hi hflow
  have hself : (s.removeChild gi i).groups[gi]? =
      some { g with srcRows := g.srcRows.eraseIdx i } := by
    rw [groups_removeChild hg, if_pos rfl]
  rw [takeOut_eq hg]
  split
  · next hnil =>
    have halone := alone_of_eraseIdx hs hg hi hnil
    refine tracks_removeGroup hchild hself (hofr ▸ hgroup halone) ?_
    intro r' hr' gj g' hg' hrg
    by_contra hge
    have hne : gi ≠ gj := fun e => by
      rw [← e, hself] at hg'
      rw [← Option.some.inj hg'] at hrg
      simp only [hnil] at hrg
      cases hrg
    rw [groups_removeChild hg, if_neg hne] at hg'
    have hk : of r' = g'.key := hs.isPartition.key_eq g' (List.mem_of_getElem? hg') r' hrg
    refine hfront halone r' hr' ?_
    rw [hofr, hk]
    exact sublist_keys (by omega) hg hg'
  · exact hchild

/-- Taking a row out makes no new order of keys. -/
theorem sublist_keys_takeOut {gi i : Nat} {g : Group} (hg : s.groups[gi]? = some g) :
    ((s.takeOut gi i).groups.map Group.key).Sublist (s.groups.map Group.key) := by
  rw [takeOut_eq hg, ← keys_removeChild s gi i]
  split
  · exact (List.eraseIdx_sublist _ gi).map Group.key
  · exact List.Sublist.refl _

/-- **Regrouping a row.**  The indexes follow if the row is not held, and neither the group it leaves
last nor a flow behind that group is. -/
theorem tracks_regroupSourceRow {of : Nat → QString} {all : List Nat} (hs : Split of all s.groups)
    (hnd : all.Nodup) (hidx : s.srcIndex = indexOf s.groups) {r : Nat} (hr : r ∈ all)
    (h : Tracks s.groups s.persistent as)
    (hflow : of r ≠ s.rowKey r → some (.flow r) ∉ as)
    (hgroup : of r ≠ s.rowKey r → (∀ x ∈ all, x ≠ r → of x ≠ of r) → some (.group (of r)) ∉ as)
    (hfront : of r ≠ s.rowKey r → (∀ x ∈ all, x ≠ r → of x ≠ of r) →
      ∀ r', some (.flow r') ∈ as → ¬ [of r, of r'].Sublist (s.groups.map Group.key)) :
    Tracks (s.regroupSourceRow r).1.groups (s.regroupSourceRow r).1.persistent as ∧
      ∀ k K, (of r ≠ s.rowKey r → ∃ x ∈ all, x ≠ r ∧ of x = K) →
        [k, K].Sublist ((s.regroupSourceRow r).1.groups.map Group.key) →
        [k, K].Sublist (s.groups.map Group.key) := by
  obtain ⟨gi, i, g, hg, hi, ⟨hkey, e⟩ | ⟨hkey, e⟩⟩ := regroupSourceRow_cases hs hnd hidx hr
  · -- the same group: only its label is written again
    rw [e]
    refine ⟨tracks_label h gi _, fun k K _ hsub => ?_⟩
    have hkeys : (s.groups.modify gi fun g => { g with label := s.rowLabel r }).map Group.key =
        s.groups.map Group.key := by
      refine map_modify Group.key ?_ s.groups gi
      intro g
      rfl
    rw [← hkeys]
    exact hsub
  · -- another group: out of the old one, which goes if it is empty now, and into the new one
    rw [e]
    have hofr : of r = g.key :=
      hs.isPartition.key_eq g (List.mem_of_getElem? hg) r (List.mem_of_getElem? hi)
    rw [← hofr] at hkey
    have hout := tracks_takeOut hs hg hi h (hflow hkey) (hgroup hkey) (hfront hkey)
    refine ⟨tracks_placeSourceRow hout r, fun k K hK hsub => ?_⟩
    refine List.Sublist.trans (sublist_of_placeSourceRow ?_ hsub) (sublist_keys_takeOut hg)
    obtain ⟨x, hx, hxr, rfl⟩ := hK hkey
    obtain ⟨houtSplit, -⟩ := split_takeOut hs hg hi
    exact (houtSplit.key_mem_iff _).mpr ⟨x, (List.mem_erase_of_ne hxr).mpr hx, rfl⟩

/-- A held flow's row is one of the rows. -/
theorem mem_all_of_tracks {of : Nat → QString} {all : List Nat} {groups : List Group}
    {ps : List (Option ModelIndex)} (hs : Split of all groups) (h : Tracks groups ps as) {r : Nat}
    (hr : some (.flow r) ∈ as) : r ∈ all := by
  induction h with
  | nil => cases hr
  | cons hpa _ ih =>
      rcases List.mem_cons.mp hr with rfl | hr
      · obtain ⟨p, -, gi, g, -, hg, hi⟩ := hpa _ rfl
        exact hs.isPartition.mem_all (List.mem_of_getElem? hg) (List.mem_of_getElem? hi)
      · exact ih hr

/-- Regrouping rows one after the other, from row `t` on. -/
theorem tracks_foldl_regroupStep (old : Nat → QString) {all : List Nat} {first last : Nat}
    (keys : List QString) (hnd : all.Nodup) (hmode : s.mode ≠ .Flat)
    (hflow : ∀ r, some (.flow r) ∈ as → s.rowKey r = old r)
    (hgroup : ∀ t, first ≤ t → t ≤ last → s.rowKey t ≠ old t →
      (∀ x ∈ all, x ≠ t → keysAt old s.rowKey t x ≠ old t) → some (.group (old t)) ∉ as)
    (hfront : ∀ t, first ≤ t → t ≤ last → s.rowKey t ≠ old t →
      (∀ x ∈ all, x ≠ t → keysAt old s.rowKey t x ≠ old t) →
      ∀ r, some (.flow r) ∈ as → ¬ [old t, old r].Sublist keys) (k : Nat) :
    ∀ (t : Nat) (st : GroupProxy F × Bool), SameSource s st.1 → first ≤ t → t + k ≤ last + 1 →
      (∀ r, t ≤ r → r < t + k → r ∈ all) → Split (keysAt old s.rowKey t) all st.1.groups →
      st.1.srcIndex = indexOf st.1.groups → Tracks st.1.groups st.1.persistent as →
      (∀ r, some (.flow r) ∈ as → ∀ k, [k, old r].Sublist (st.1.groups.map Group.key) →
        [k, old r].Sublist keys) →
      Tracks ((List.range' t k).foldl regroupStep st).1.groups
        ((List.range' t k).foldl regroupStep st).1.persistent as := by
  have hof : ∀ t r, some (.flow r) ∈ as → keysAt old s.rowKey t r = old r := fun t r hr => by
    unfold keysAt
    split
    · exact hflow r hr
    · rfl
  have hself : ∀ t, keysAt old s.rowKey t t = old t := fun t => if_neg (lt_irrefl t)
  induction k with
  | zero => exact fun t st _ _ _ _ _ _ h _ => h
  | succ k ih =>
      intro t st hsame hfirst hlast hall hsplit hidx h horder
      have ht := hall t le_rfl (by omega)
      obtain ⟨hsplit', hidx', hsame'⟩ := split_regroupStep hnd hmode hsame ht hsplit hidx
      have hstep := tracks_regroupSourceRow hsplit hnd hidx ht h
        (by
          rw [hself, hsame.rowKey]
          exact fun hne hm => hne (hflow t hm).symm)
        (by
          rw [hself, hsame.rowKey]
          exact fun hne halone => hgroup t hfirst (by omega) (Ne.symm hne) halone)
        (by
          rw [hself, hsame.rowKey]
          intro hne halone r hr hsub
          rw [hof t r hr] at hsub
          exact hfront t hfirst (by omega) (Ne.symm hne) halone r hr (horder r hr _ hsub))
      refine ih (t + 1) (regroupStep st t) hsame' (by omega) (by omega)
        (fun r h₁ h₂ => hall r (by omega) (by omega)) hsplit' hidx' hstep.1 fun r hr k hsub => ?_
      refine horder r hr k (hstep.2 k (old r) ?_ hsub)
      rw [hself, hsame.rowKey]
      refine fun hne => ⟨r, mem_all_of_tracks hsplit h hr, fun e => ?_, hof t r hr⟩
      subst e
      exact hne (hflow r hr).symm

/-! ### Events -/

variable [Double F] {S : StdSort} {compare : QVariant F → QVariant F → PartialOrdering}

theorem tracks_rowsInserted (hs : Grouped s) (hsrc : s.src.isSome) {first : Nat}
    (hfirst : first ≤ s.rowCount) (rows : List (SrcRow F)) (h : Tracks s.groups s.persistent as) :
    Tracks (s.onSourceRowsInserted S compare first rows).groups
      (s.onSourceRowsInserted S compare first rows).persistent
      (as.map (Option.map (·.shift (shiftInserted first rows.length)))) := by
  rw [onSourceRowsInserted,
    if_neg (show (s.sourceInserted first rows).mode ≠ .Flat from hs.mode_ne)]
  refine tracks_resort (hs.placeInserted hsrc hfirst rows) ?_
  have hshift := tracks_shiftRows (s := s.sourceInserted first rows) h
    (shiftInserted first rows.length)
  exact tracks_foldl_placeSourceRow (List.range' first rows.length) hshift

theorem tracks_rowsRemoved (hs : Grouped s) (hsrc : s.src.isSome) {first last : Nat}
    (hle : first ≤ last) (hlast : last < s.rowCount) (h : Tracks s.groups s.persistent as)
    (hflow : ∀ r, some (.flow r) ∈ as → ¬ (first ≤ r ∧ r ≤ last))
    (hgroup : ∀ k, some (.group k) ∈ as → ¬ (Event.rowsRemoved first last).Vacates s k)
    (hfront : ∀ r, some (.flow r) ∈ as → ∀ k, [k, s.rowKey r].Sublist (s.groups.map Group.key) →
      ¬ (Event.rowsRemoved first last).Vacates s k) :
    Tracks (s.onSourceRowsRemoved S compare first last).groups
      (s.onSourceRowsRemoved S compare first last).persistent
      (as.map (Option.map (·.shift (shiftRemoved first last)))) := by
  rw [onSourceRowsRemoved,
    if_neg (show (s.sourceRemoved first last).mode ≠ .Flat from hs.mode_ne)]
  exact tracks_resort (hs.takeRemoved S hsrc hle hlast)
    (tracks_takeRemoved S hs hle hlast h hflow hgroup hfront)

theorem tracks_dataChanged (hs : Grouped s) (hsrc : s.src.isSome) {first last : Nat}
    {roles : List Int} {rows : List (SrcRow F)}
    (hok : (Event.dataChanged first last roles rows).Ok s) (h : Tracks s.groups s.persistent as)
    (hflow : ∀ r, some (.flow r) ∈ as → (s.sourceChanged rows).rowKey r = s.rowKey r)
    (hgroup : ∀ k, some (.group k) ∈ as →
      ¬ (Event.dataChanged first last roles rows).Vacates s k)
    (hfront : ∀ r, some (.flow r) ∈ as → ∀ k, [k, s.rowKey r].Sublist (s.groups.map Group.key) →
      ¬ (Event.dataChanged first last roles rows).Vacates s k) :
    Tracks (s.onSourceDataChanged S compare first last roles rows).groups
      (s.onSourceDataChanged S compare first last roles rows).persistent as := by
  have hmode : (s.sourceChanged rows).mode ≠ .Flat := hs.mode_ne
  obtain ⟨hle, hlast, hlen, -⟩ := id hok
  simp only [onSourceDataChanged, hmode, if_false]
  split
  · obtain ⟨hgrouped, -⟩ := grouped_foldl_regroupStep hs hsrc hok
    have halone : ∀ t, (∀ x ∈ List.range s.rowCount, x ≠ t →
        keysAt s.rowKey (s.sourceChanged rows).rowKey t x ≠ s.rowKey t) →
        ∀ x < s.rowCount, x ≠ t →
          keysAt s.rowKey (s.sourceChanged rows).rowKey t x ≠ s.rowKey t :=
      fun t h x hx => h x (List.mem_range.mpr hx)
    have htracks := tracks_foldl_regroupStep (s := s.sourceChanged rows) s.rowKey
      (s.groups.map Group.key) List.nodup_range hmode hflow
      (fun t h₁ h₂ hne h hm => hgroup _ hm ⟨t, h₁, h₂, rfl, hne, halone t h⟩)
      (fun t h₁ h₂ hne h r hr hsub => hfront r hr _ hsub ⟨t, h₁, h₂, rfl, hne, halone t h⟩)
      (last + 1 - first) first (s.sourceChanged rows, false) .refl le_rfl (by omega)
      (fun r _ hr => List.mem_range.mpr (by omega)) (hs.split_keysAt hsrc hok) hs.index h
      fun _ _ _ hsub => hsub
    split
    · exact tracks_resort hgrouped htracks
    · exact htracks
  · exact h

omit [Double F] in
theorem map_shift_id (as : List (Option Anchor)) : as.map (Option.map (·.shift id)) = as := by
  refine (List.map_congr_left fun a _ => ?_).trans (List.map_id _)
  cases a with
  | none => rfl
  | some x => cases x <;> rfl

/-- **One event.** -/
theorem tracks_step (hs : Grouped s) {e : Event F} (hok : e.Ok s) (hreset : e.resets s = false)
    (hsafe : Safe s as e) (h : Tracks s.groups s.persistent as) :
    Tracks (s.step S compare e).groups (s.step S compare e).persistent
      (as.map fun a => a.bind (Anchor.after s e)) := by
  rw [map_after]
  have h' := h.surviving s e
  have hsurv : ∀ x, some x ∈ surviving s e as → some x ∈ as ∧ x.survives s e = true :=
    fun x hx => mem_surviving hx
  have hid := map_shift_id (surviving s e as)
  cases e with
  | setSourceModel src => cases hreset
  | modelReset rows => cases hreset
  | layoutChanged rows => cases hreset
  | setViewMode mode rows =>
      obtain rfl : mode = s.mode := by simpa [Event.resets] using hreset
      simp only [GroupProxy.step, setViewMode, if_true]
      exact hid.symm ▸ h'
  | rowsInserted first rows =>
      have hsrc : s.src.isNone = false := by simpa using hok.1
      simp only [GroupProxy.step, hsrc, Bool.false_eq_true, if_false]
      exact tracks_rowsInserted hs hok.1 hok.2 rows h'
  | rowsRemoved first last =>
      have hsrc := src_isSome_of_lt hok.2
      simp only [GroupProxy.step, Option.isNone_eq_false_iff.mpr hsrc, Bool.false_eq_true, if_false]
      refine tracks_rowsRemoved hs hsrc hok.1 hok.2 h' (fun r hr => ?_) (fun k hk => ?_)
        fun r hr => ?_
      · exact of_decide_eq_true (Bool.and_eq_true_iff.mp (hsurv _ hr).2).2
      · exact hsafe.2 k (hsurv _ hk).1 (hsurv _ hk).2
      · exact hsafe.1 r (hsurv _ hr).1 (hsurv _ hr).2
  | dataChanged first last roles rows =>
      have hsrc := src_isSome_of_lt hok.2.1
      simp only [GroupProxy.step, Option.isNone_eq_false_iff.mpr hsrc, Bool.false_eq_true, if_false]
      change Tracks _ _ ((surviving s _ as).map (Option.map (·.shift id)))
      rw [hid]
      refine tracks_dataChanged hs hsrc hok h' (fun r hr => ?_) (fun k hk => ?_) fun r hr => ?_
      · exact of_decide_eq_true (Bool.and_eq_true_iff.mp (hsurv _ hr).2).2
      · exact hsafe.2 k (hsurv _ hk).1 (hsurv _ hk).2
      · exact hsafe.1 r (hsurv _ hr).1 (hsurv _ hr).2
  | sort column order newOrder =>
      change Tracks _ _ ((surviving s _ as).map (Option.map (·.shift id)))
      rw [hid]
      simp only [GroupProxy.step, GroupProxy.sort]
      split
      · exact h'
      · simp only [hs.mode_ne, if_false]
        exact tracks_resort (s := { s with sortColumn := column, sortOrder := order })
          ⟨hs.mode_ne, hs.split, hs.index⟩ h'
  | setSortWithinGroups on =>
      change Tracks _ _ ((surviving s _ as).map (Option.map (·.shift id)))
      rw [hid]
      simp only [GroupProxy.step, GroupProxy.setSortWithinGroups]
      split
      · exact h'
      · exact tracks_resort (s := { s with sortWithinGroups := on })
          ⟨hs.mode_ne, hs.split, hs.index⟩ h'

end

theorem length_persistent_of_resets {F : Type} [Double F] {S : StdSort}
    {compare : QVariant F → QVariant F → PartialOrdering} {s : GroupProxy F} {e : Event F}
    (hreset : e.resets s = true) :
    (s.step S compare e).persistent.length = s.persistent.length := by
  have hlen : ∀ t : GroupProxy F,
      (t.onSourceReset S compare).persistent.length = t.persistent.length := fun t => by
    simp only [onSourceReset, resetIndexes, List.length_map, rebuild]
    split
    · rfl
    · simp only [refreshSrcIndex, applyCurrentSort]
      split <;> rfl
  cases e with
  | setSourceModel src => exact hlen _
  | modelReset rows =>
      simp only [GroupProxy.step]
      split
      · rfl
      · exact hlen _
  | layoutChanged rows =>
      simp only [GroupProxy.step, onSourceLayoutChanged]
      split
      · rfl
      split
      · rfl
      · exact hlen _
  | setViewMode mode rows =>
      simp only [GroupProxy.step, setViewMode]
      split
      · rfl
      · exact hlen _
  | rowsInserted | rowsRemoved | dataChanged | sort | setSortWithinGroups => cases hreset

/-- What an index refers to when it is made. -/
def anchorOf {F : Type} (s : GroupProxy F) (p : ModelIndex) : Option Anchor :=
  if s.mode = .Flat then none
  else
    match s.identity p with
    | some (k, none) => some (.group k)
    | some (_, some r) => some (.flow r)
    | none => none

/-- The index refers to the named group or flow. -/
def Refers {F : Type} (s : GroupProxy F) (p : ModelIndex) : Anchor → Prop
  | .group k => p.internalId = .topLevel ∧ ∃ g, s.groups[p.row]? = some g ∧ g.key = k
  | .flow r => s.mapToSource p = some (r, p.column)

theorem follows_anchorOf {F : Type} (s : GroupProxy F) (p : ModelIndex) :
    Follows s.groups (some p) (s.anchorOf p) := by
  intro x hx
  refine ⟨p, rfl, ?_⟩
  unfold anchorOf identity at hx
  split at hx
  · cases hx
  cases hid : p.internalId with
  | topLevel =>
      cases hg : s.groups[p.row]? with
      | none => simp [hid, hg] at hx
      | some g =>
          simp only [hid, hg, Option.map_some, Option.some.injEq] at hx
          subst hx
          exact ⟨hid, g, hg, rfl⟩
  | group gi =>
      cases hg : s.groups[gi]? with
      | none => simp [hid, hg] at hx
      | some g =>
          cases hr : g.srcRows[p.row]? with
          | none => simp [hid, hg, hr] at hx
          | some r =>
              simp only [hid, hg, hr, Option.bind_eq_bind, Option.bind_some,
                Option.some.injEq] at hx
              subst hx
              exact ⟨gi, g, hid, hg, hr⟩

/-- Standing where the name is, in a consistent proxy, is referring to it. -/
theorem Grouped.refers_of_names {F : Type} {s : GroupProxy F} (hs : Grouped s) {p : ModelIndex}
    {x : Anchor} (h : Names s.groups p x) : s.Refers p x := by
  cases x with
  | group k => exact h
  | flow r =>
      obtain ⟨gi, g, hid, hg, hr⟩ := h
      have hlt := List.mem_range.mp (hs.split.isPartition.mem_all (List.mem_of_getElem? hg)
        (List.mem_of_getElem? hr))
      obtain ⟨rows, hsrc⟩ := Option.isSome_iff_exists.mp (src_isSome_of_lt hlt)
      have hlt' : r < rows.length := by simpa [GroupProxy.rowCount, hsrc] using hlt
      simp only [Refers, mapToSource, hsrc, hs.mode_ne, if_false, hid, hg, Option.bind_eq_bind,
        Option.bind_some, hr, hlt', if_true]

end GroupProxy

/-! ### Runs -/

/-- A proxy with what its persistent indexes were made for. -/
structure Tracked (F : Type) where
  proxy : GroupProxy F := {}
  anchors : List (Option Anchor) := []

/-- A client makes a persistent index, or something happens to the proxy. -/
inductive Act (F : Type) where
  | hold (p : ModelIndex)
  | event (e : Event F)

section
variable {F : Type} [Double F] (S : StdSort) (compare : QVariant F → QVariant F → PartialOrdering)

def Tracked.step (t : Tracked F) : Act F → Tracked F
  | .hold p =>
      { proxy := { t.proxy with persistent := t.proxy.persistent ++ [some p] }
        anchors := t.anchors ++ [t.proxy.anchorOf p] }
  | .event e =>
      { proxy := t.proxy.step S compare e
        anchors := t.anchors.map fun a => a.bind (Anchor.after t.proxy e) }

/-- Every step meets a condition in the state it is taken in. -/
def RunMeets (cond : Tracked F → Event F → Prop) : Tracked F → List (Act F) → Prop
  | _, [] => True
  | t, .hold p :: acts => RunMeets cond (t.step S compare (.hold p)) acts
  | t, .event e :: acts => cond t e ∧ RunMeets cond (t.step S compare (.event e)) acts

variable {S compare}

/-- Indexes follow their names, and the flat view has none. -/
structure Tracked.Inv (t : Tracked F) : Prop where
  inv : t.proxy.Inv
  flat : t.proxy.mode = .Flat → ∀ a ∈ t.anchors, a = none
  tracks : Tracks t.proxy.groups t.proxy.persistent t.anchors

omit [Double F] in
theorem map_after_of_resets {s : GroupProxy F} {e : Event F} (hreset : e.resets s = true)
    (as : List (Option Anchor)) : ∀ a ∈ as.map (fun a => a.bind (Anchor.after s e)), a = none := by
  intro a ha
  obtain ⟨a, -, rfl⟩ := List.mem_map.mp ha
  cases a with
  | none => rfl
  | some x => simp [Anchor.after, Anchor.survives, hreset]

/-- **One step.** -/
theorem Tracked.Inv.step {t : Tracked F} (h : t.Inv) {a : Act F}
    (hok : ∀ e, a = .event e → e.Ok t.proxy ∧ Safe t.proxy t.anchors e) :
    (t.step S compare a).Inv := by
  cases a with
  | hold p =>
      refine ⟨h.inv.congr rfl rfl rfl rfl, fun hflat a ha => ?_,
        h.tracks.append (t.proxy.follows_anchorOf p)⟩
      rcases List.mem_append.mp ha with ha | ha
      · exact h.flat hflat a ha
      · rw [List.mem_singleton.mp ha]
        exact if_pos hflat
  | event e =>
      obtain ⟨hok, hsafe⟩ := hok e rfl
      have hinv : (t.proxy.step S compare e).Inv := h.inv.step hok
      by_cases hreset : e.resets t.proxy = true
      · -- a reset ends every index
        have hnone := map_after_of_resets hreset t.anchors
        refine ⟨hinv, fun _ => hnone, .of_none ?_ hnone⟩
        change (t.proxy.step S compare e).persistent.length = (t.anchors.map _).length
        rw [GroupProxy.length_persistent_of_resets hreset, List.length_map, h.tracks.length_eq]
      have hreset : e.resets t.proxy = false := by simpa using hreset
      rcases h.inv with hflat | hgrouped
      · -- in the flat view nothing is followed
        obtain ⟨hflat', hlen⟩ := GroupProxy.flat_step (S := S) compare hflat hreset
        have hnone : ∀ a ∈ t.anchors.map (fun a => a.bind (Anchor.after t.proxy e)), a = none := by
          intro a' ha'
          obtain ⟨a, ha, rfl⟩ := List.mem_map.mp ha'
          rw [h.flat hflat.1 a ha]
          rfl
        refine ⟨hinv, fun _ => hnone, .of_none ?_ hnone⟩
        change (t.proxy.step S compare e).persistent.length = (t.anchors.map _).length
        rw [hlen, List.length_map, h.tracks.length_eq]
      · have hgrouped' : GroupProxy.Grouped (t.proxy.step S compare e) := hgrouped.step hok hreset
        exact ⟨hinv, fun hflat => absurd hflat hgrouped'.mode_ne,
          GroupProxy.tracks_step hgrouped hok hreset hsafe h.tracks⟩

theorem Tracked.Inv.run {t : Tracked F} (h : t.Inv) {acts : List (Act F)}
    (hok : RunMeets S compare (fun t e => e.Ok t.proxy ∧ Safe t.proxy t.anchors e) t acts) :
    (acts.foldl (Tracked.step S compare) t).Inv := by
  induction acts generalizing t with
  | nil => exact h
  | cons a acts ih =>
      cases a with
      | hold p => exact ih (h.step fun e he => nomatch he) hok
      | event e =>
          refine ih (h.step fun e' he' => ?_) hok.2
          cases he'
          exact hok.1

end

/-- **Indexes follow what they name.**  In every run whose events come as Qt delivers them and erase
no group in front of a held flow's group, nor a held group that is made again: every index whose
group or flow is still there refers to it. -/
theorem indexes_follow {F : Type} [Double F] (S : StdSort)
    (compare : QVariant F → QVariant F → PartialOrdering) (acts : List (Act F))
    (hok : RunMeets S compare (fun t e => e.Ok t.proxy ∧ Safe t.proxy t.anchors e) {} acts) :
    let t := acts.foldl (Tracked.step S compare) {}
    ∀ (i : Nat) (a : Anchor), t.anchors[i]? = some (some a) →
      ∃ p, t.proxy.persistent[i]? = some (some p) ∧ t.proxy.Refers p a := by
  intro t i a ha
  have hinit : Tracked.Inv ({} : Tracked F) :=
    ⟨.inl ⟨rfl, rfl, rfl⟩, fun _ _ ha => absurd ha List.not_mem_nil, .nil⟩
  have h : t.Inv := hinit.run hok
  have hmem : some a ∈ t.anchors := List.mem_of_getElem? ha
  rcases h.inv with ⟨hflat, -⟩ | hgrouped
  · cases h.flat hflat _ hmem
  · obtain ⟨p, hp, hnames⟩ := h.tracks.getElem? ha
    exact ⟨p, hp, hgrouped.refers_of_names hnames⟩

/-- Two flows on one interface around one on another, the first header and its second flow held;
then the flow between them goes, and its group with it. -/
def behindActs : List (Act ℚ) :=
  [.event (.setSourceModel (some [ifaceRow "eth0", ifaceRow "wlan0", ifaceRow "eth0"])),
    .event (.setViewMode .ByInterface [ifaceRow "eth0", ifaceRow "wlan0", ifaceRow "eth0"]),
    .hold ⟨0, 0, .topLevel⟩,
    .hold ⟨1, 0, .group 0⟩,
    .event (.rowsRemoved 1 1)]

/-- The group that goes is behind the held flow's group, so the index follows the flow to row 1. -/
theorem indexes_follow_behind :
    let t := behindActs.foldl (Tracked.step .stable compareValues) {}
    ∃ p, t.proxy.persistent[1]? = some (some p) ∧ t.proxy.Refers p (.flow 1) := by
  intro t
  refine indexes_follow .stable compareValues behindActs ?_ 1 (.flow 1) (by decide +kernel)
  have hfree : ∀ {s : GroupProxy ℚ} {as : List (Option Anchor)} {e : Event ℚ},
      (∀ k, ¬ e.Vacates s k) → Safe s as e :=
    fun h => ⟨fun _ _ _ k _ => h k, fun k _ _ => h k⟩
  refine ⟨⟨trivial, hfree fun _ h => h⟩, ⟨trivial, hfree fun _ h => h⟩,
    ⟨by decide +kernel, fun r hr _ k hk _ => ?_, fun k hk _ hv => ?_⟩, trivial⟩
  · have hr' : r = 2 := by
      have e : some (Anchor.flow r) ∈ [some (.group "eth0".toList), some (.flow 2)] := hr
      simpa using e
    subst hr'
    -- the held flow's group is the first
    have htail := hk.tail
    rw [List.tail_cons] at htail
    revert htail
    decide +kernel
  · have hk' : k = "eth0".toList := by
      have e : some (Anchor.group k) ∈ [some (.group "eth0".toList), some (.flow 2)] := hk
      simpa using e
    subst hk'
    exact absurd (hv 0 (by decide +kernel) (by decide +kernel)) (by decide)

/-- **An index can be left behind**: the group in front of the held flow's group goes, and the index
keeps the old position as its internal id, where now no group is. -/
theorem index_left_behind :
    ¬ ∀ acts : List (Act ℚ),
      RunMeets .stable compareValues (fun t e => e.Ok t.proxy) {} acts →
      let t := acts.foldl (Tracked.step .stable compareValues) {}
      ∀ (i : Nat) (a : Anchor), t.anchors[i]? = some (some a) →
        ∃ p, t.proxy.persistent[i]? = some (some p) ∧ t.proxy.Refers p a := by
  intro h
  obtain ⟨p, hp, hrefers⟩ := h
    [.event (.setSourceModel (some [ifaceRow "eth0", ifaceRow "wlan0"])),
      .event (.setViewMode .ByInterface [ifaceRow "eth0", ifaceRow "wlan0"]),
      .hold ⟨0, 0, .group 1⟩,
      .event (.rowsRemoved 0 0)]
    ⟨trivial, trivial, by decide +kernel, trivial⟩ 0 (.flow 0) (by decide +kernel)
  have hstale : some (some p) = some (some ⟨0, 0, .group 1⟩) := hp.symm.trans (by decide +kernel)
  obtain rfl := Option.some.inj (Option.some.inj hstale)
  revert hrefers
  unfold GroupProxy.Refers
  decide +kernel

end Qiftop.Ui
