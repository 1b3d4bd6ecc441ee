import Qiftop.Ui.GroupSplit

/-!
# Ui — the groups partition the source

Between two events the groups of a grouped view partition the source rows by group key, none is
empty, and the reverse index says where each row is (`Grouped`); the flat view has no groups.  Every
handler ends in such a state, and so does every run (`groups_partition_source`).  A partition is
determined by the keys of the rows, so the groups hold what a rebuild would give them, whatever path
led there.
-/

namespace Qiftop.Ui
open Qt Lib Backend

namespace GroupProxy

/-- The groups partition the source by group key, and the index is exact. -/
structure Grouped {F : Type} (s : GroupProxy F) : Prop where
  mode_ne : s.mode ≠ .Flat
  split : Split s.rowKey (List.range s.rowCount) s.groups
  index : s.srcIndex = indexOf s.groups

section
variable {F : Type} [Double F] {S : StdSort}
  {compare : QVariant F → QVariant F → PartialOrdering} {s : GroupProxy F}

variable (S compare s) in
/-- What a re-sort can do: nothing, or install the sorted groups and move the indexes with them. -/
theorem resort_cases : s.resortGroupsPreservingIndexes S compare = s ∨
    s.mode ≠ .Flat ∧ s.resortGroupsPreservingIndexes S compare = { s with
      groups := s.sortGroups S compare s.groups
      srcIndex := indexOf (s.sortGroups S compare s.groups)
      persistent := s.persistent.map fun p => p.bind fun p => (s.identity p).bind
        (GroupProxy.locate { s with
          groups := s.sortGroups S compare s.groups
          srcIndex := indexOf (s.sortGroups S compare s.groups) } p.column) } := by
  unfold resortGroupsPreservingIndexes
  split
  · exact .inl rfl
  · next hguard =>
    have hmode : s.mode ≠ .Flat := fun e => hguard (.inr (.inl e))
    dsimp only
    split
    · exact .inl rfl
    · have e : refreshSrcIndex { s with groups := s.sortGroups S compare s.groups } =
          { s with
            groups := s.sortGroups S compare s.groups
            srcIndex := indexOf (s.sortGroups S compare s.groups) } := by
        rw [refreshSrcIndex]
        simp only [hmode, if_false]
        rfl
      rw [e]
      exact .inr ⟨hmode, rfl⟩

variable (S compare) in
theorem resort_of_flat {t : GroupProxy F} (ht : t.mode = .Flat) :
    t.resortGroupsPreservingIndexes S compare = t := by
  rcases t.resort_cases S compare with e | ⟨hne, -⟩
  · exact e
  · exact absurd ht hne

theorem Grouped.resort (h : Grouped s) : Grouped (s.resortGroupsPreservingIndexes S compare) := by
  rcases s.resort_cases S compare with e | ⟨-, e⟩
  · rw [e]
    exact h
  · rw [e]
    exact ⟨h.mode_ne, split_sortGroups h.split, rfl⟩

theorem sameSource_applyCurrentSort (s : GroupProxy F) :
    SameSource s (s.applyCurrentSort S compare) := by
  unfold applyCurrentSort
  split <;> exact ⟨rfl, rfl, rfl, rfl, rfl⟩

/-- **Rebuilding groups the source.** -/
theorem grouped_rebuild (hmode : s.mode ≠ .Flat) : Grouped (s.rebuild S compare) := by
  unfold rebuild
  dsimp only
  split
  · next hnone =>
    have hsrc : s.src = none := by
      rcases hnone with hnone | hflat
      · exact Option.isNone_iff_eq_none.mp hnone
      · exact absurd hflat hmode
    refine ⟨hmode, ?_, rfl⟩
    have hcount : GroupProxy.rowCount ({ s with groups := [], srcIndex := ∅ } : GroupProxy F) = 0 := by
      simp only [GroupProxy.rowCount, hsrc]
      rfl
    rw [hcount]
    exact .empty _
  · have hloop := (split_foldl_rebuildRow { s with groups := [], srcIndex := ∅ }
      (GroupProxy.rowCount ({ s with groups := [], srcIndex := ∅ } : GroupProxy F))).1
    have hsort : ∀ t : GroupProxy F, t.mode = s.mode → (t.applyCurrentSort S compare).mode ≠ .Flat :=
      fun t ht e => hmode (ht.symm.trans ((sameSource_applyCurrentSort t).2.1.symm.trans e))
    refine ⟨hsort _ rfl, ?_, srcIndex_refreshSrcIndex _ (hsort _ rfl)⟩
    unfold applyCurrentSort
    split
    · exact hloop
    · exact split_sortGroups hloop

/-! ### Rows inserted -/

omit [Double F] in
theorem rowKey_inserted {src : List (SrcRow F)} (hsrc : s.src = some src) {first : Nat}
    (hfirst : first ≤ src.length) (rows : List (SrcRow F)) (r : Nat) :
    (s.sourceInserted first rows).rowKey (shiftInserted first rows.length r) = s.rowKey r := by
  have hget : (src.take first ++ rows ++ src.drop first)[shiftInserted first rows.length r]? =
      src[r]? := by
    unfold shiftInserted
    split
    · next hle =>
      rw [List.getElem?_append_right (by simp; omega), List.getElem?_drop]
      congr 1
      simp
      omega
    · next hlt =>
      rw [List.append_assoc, List.getElem?_append_left (by simp; omega),
        List.getElem?_take_of_lt (by omega)]
  simp only [GroupProxy.rowKey, connectionAt, sourceInserted, hsrc, Option.map_some,
    Option.getD_some, hget]

theorem range_inserted_perm {n first : Nat} (hfirst : first ≤ n) (m : Nat) :
    ((List.range n).map (shiftInserted first m) ++ List.range' first m).Perm
      (List.range (n + m)) := by
  refine (List.perm_ext_iff_of_nodup ?_ List.nodup_range).mpr fun r => ?_
  · rw [List.nodup_append]
    refine ⟨List.nodup_range.map fun a b e => ?_, List.nodup_range', fun a ha b hb e => ?_⟩
    · unfold shiftInserted at e
      split at e <;> split at e <;> omega
    · obtain ⟨x, -, rfl⟩ := List.mem_map.mp ha
      have hb' := List.mem_range'_1.mp hb
      unfold shiftInserted at e
      split at e <;> omega
  · simp only [List.mem_append, List.mem_map, List.mem_range, List.mem_range'_1, shiftInserted]
    constructor
    · rintro (⟨x, hx, rfl⟩ | hr)
      · split <;> omega
      · omega
    · intro hr
      by_cases h₁ : r < first
      · exact .inl ⟨r, by omega, if_neg (by omega)⟩
      · by_cases h₂ : r < first + m
        · exact .inr ⟨by omega, h₂⟩
        · exact .inl ⟨r - m, by omega, by rw [if_pos (by omega)]; omega⟩

omit [Double F] in
theorem sameSource_placeInserted (s : GroupProxy F) (first count : Nat) :
    SameSource s (s.placeInserted first count) := by
  have hfold : ∀ (rs : List Nat) (t : GroupProxy F), SameSource t (rs.foldl placeSourceRow t) := by
    intro rs
    induction rs with
    | nil => exact fun _ => .refl
    | cons r rs ih => exact fun t => (t.sameSource_placeSourceRow r).trans (ih _)
  exact SameSource.trans (t := s.shiftRows (shiftInserted first count)) ⟨rfl, rfl, rfl, rfl, rfl⟩
    (hfold _ _)

omit [Double F] in
/-- The groups once the inserted rows are placed. -/
theorem split_placeInserted (h : Grouped s) (hsrc : s.src.isSome) {first : Nat}
    (hfirst : first ≤ s.rowCount) (rows : List (SrcRow F)) :
    Split (s.sourceInserted first rows).rowKey
      (List.range (s.sourceInserted first rows).rowCount)
      ((s.sourceInserted first rows).placeInserted first rows.length).groups := by
  obtain ⟨src, hsrc⟩ := Option.isSome_iff_exists.mp hsrc
  have hn : s.rowCount = src.length := by rw [GroupProxy.rowCount, hsrc, Option.getD_some]
  have hn' : (s.sourceInserted first rows).rowCount = s.rowCount + rows.length := by
    simp only [sourceInserted, GroupProxy.rowCount, hsrc, Option.map_some, Option.getD_some,
      List.length_append, List.length_take, List.length_drop]
    omega
  have hshift : Split (s.sourceInserted first rows).rowKey
      ((List.range s.rowCount).map (shiftInserted first rows.length))
      ((s.sourceInserted first rows).shiftRows (shiftInserted first rows.length)).groups :=
    h.split.map (fun _ => rfl) (fun _ => .refl _)
      fun r _ => rowKey_inserted hsrc (hn ▸ hfirst) rows r
  rw [hn']
  exact (split_foldl_placeSourceRow (List.range' first rows.length) hshift fun _ _ => rfl).permAll
    (range_inserted_perm hfirst _)

omit [Double F] in
/-- Refreshing the index completes a handler's edits. -/
theorem Grouped.of_split {t : GroupProxy F} (hsame : SameSource s t) (hmode : s.mode ≠ .Flat)
    (h : Split s.rowKey (List.range s.rowCount) t.groups) : Grouped t.refreshSrcIndex := by
  rw [← hsame.rowKey, ← hsame.rowCount] at h
  have hmode' : t.mode ≠ .Flat := fun e => hmode (hsame.2.1.symm.trans e)
  exact ⟨hmode', h, srcIndex_refreshSrcIndex t hmode'⟩

omit [Double F] in
theorem Grouped.placeInserted (h : Grouped s) (hsrc : s.src.isSome) {first : Nat}
    (hfirst : first ≤ s.rowCount) (rows : List (SrcRow F)) :
    Grouped ((s.sourceInserted first rows).placeInserted first rows.length).refreshSrcIndex :=
  .of_split (sameSource_placeInserted _ first rows.length) h.mode_ne
    (split_placeInserted h hsrc hfirst rows)

theorem Grouped.rowsInserted (h : Grouped s) (hsrc : s.src.isSome) {first : Nat}
    (hfirst : first ≤ s.rowCount) (rows : List (SrcRow F)) :
    Grouped (s.onSourceRowsInserted S compare first rows) := by
  rw [onSourceRowsInserted,
    if_neg (show (s.sourceInserted first rows).mode ≠ .Flat from h.mode_ne)]
  exact (h.placeInserted hsrc hfirst rows).resort

/-! ### Rows removed -/

omit [Double F] in
theorem rowKey_removed {src : List (SrcRow F)} (hsrc : s.src = some src) {first last : Nat}
    (hle : first ≤ last) (hlast : last < src.length) {r : Nat} (hr : r < first ∨ last < r) :
    (s.sourceRemoved first last).rowKey (shiftRemoved first last r) = s.rowKey r := by
  have hget : (src.take first ++ src.drop (last + 1))[shiftRemoved first last r]? = src[r]? := by
    unfold shiftRemoved
    split
    · next hlt =>
      rw [List.getElem?_append_right (by simp; omega), List.getElem?_drop]
      congr 1
      simp
      omega
    · rw [List.getElem?_append_left (by simp; omega), List.getElem?_take_of_lt (by omega)]
  simp only [GroupProxy.rowKey, connectionAt, sourceRemoved, hsrc, Option.map_some,
    Option.getD_some, hget]

theorem mem_range_diff {n first last r : Nat} (hle : first ≤ last) :
    r ∈ (List.range n).diff (List.range' first (last - first + 1)) ↔
      r < n ∧ (r < first ∨ last < r) := by
  rw [List.nodup_range.mem_sdiff_iff, List.mem_range, List.mem_range'_1]
  omega

theorem range_removed_perm {n first last : Nat} (hle : first ≤ last) (hlast : last < n) :
    (((List.range n).diff (List.range' first (last - first + 1))).map (shiftRemoved first last)).Perm
      (List.range (n - (last - first + 1))) := by
  refine (List.perm_ext_iff_of_nodup ?_ List.nodup_range).mpr fun r => ?_
  · refine List.Nodup.map_on (fun a ha b hb e => ?_) (List.nodup_range.diff)
    have ha' := (mem_range_diff hle).mp ha
    have hb' := (mem_range_diff hle).mp hb
    unfold shiftRemoved at e
    split at e <;> split at e <;> omega
  · simp only [List.mem_map, mem_range_diff hle, List.mem_range, shiftRemoved]
    constructor
    · rintro ⟨x, hx, rfl⟩
      split <;> omega
    · intro hr
      by_cases h₁ : r < first
      · exact ⟨r, by omega, if_neg (by omega)⟩
      · exact ⟨r + (last - first + 1), by omega, by rw [if_pos (by omega)]; omega⟩

omit [Double F] in
/-- The groups once the removed rows and the emptied groups are out. -/
theorem split_takeRemoved (S : StdSort) (h : Grouped s) (hsrc : s.src.isSome) {first last : Nat}
    (hle : first ≤ last) (hlast : last < s.rowCount) :
    Split (s.sourceRemoved first last).rowKey
        (List.range (s.sourceRemoved first last).rowCount)
        ((s.sourceRemoved first last).takeRemoved S first last).groups ∧
      SameSource (s.sourceRemoved first last)
        ((s.sourceRemoved first last).takeRemoved S first last) := by
  obtain ⟨src, hsrc⟩ := Option.isSome_iff_exists.mp hsrc
  have hn : s.rowCount = src.length := by rw [GroupProxy.rowCount, hsrc, Option.getD_some]
  have hn' : (s.sourceRemoved first last).rowCount = s.rowCount - (last - first + 1) := by
    simp only [sourceRemoved, GroupProxy.rowCount, hsrc, Option.map_some, Option.getD_some,
      List.length_append, List.length_take, List.length_drop] at hlast ⊢
    omega
  obtain ⟨hp, he, hsame⟩ := foldl_removeSourceRow_spec
    (List.range' first (last - first + 1)) (s.sourceRemoved first last, []) h.split.isPartition
    (emptiedAre_nil h.split)
    (fun r hr => List.mem_range.mpr (by have := List.mem_range'_1.mp hr; omega)) List.nodup_range'
  obtain ⟨hdesc, he'⟩ := sort_desc S he
  -- the rows that stay, under their new numbers
  have hshift : IsPartition Group.key Group.srcRows (s.sourceRemoved first last).rowKey _
      (List.map (fun g : Group => { g with srcRows := g.srcRows.map (shiftRemoved first last) }) _) :=
    hp.map (fun _ => rfl) (fun _ => .refl _) fun r hr =>
      rowKey_removed hsrc hle (hn ▸ hlast) ((mem_range_diff hle).mp hr).2
  have he'' := he'.shift (shiftRemoved first last)
  obtain ⟨hsplit, hsame'⟩ := split_foldl_removeGroup (s := GroupProxy.shiftRows
    ((List.range' first (last - first + 1)).foldl removeSourceRow
      (s.sourceRemoved first last, [])).1 (shiftRemoved first last)) hshift hdesc he''
  rw [hn']
  refine ⟨hsplit.permAll (range_removed_perm hle hlast), hsame.trans ?_⟩
  exact SameSource.trans ⟨rfl, rfl, rfl, rfl, rfl⟩ hsame'

omit [Double F] in
theorem Grouped.takeRemoved (S : StdSort) (h : Grouped s) (hsrc : s.src.isSome) {first last : Nat}
    (hle : first ≤ last) (hlast : last < s.rowCount) :
    Grouped ((s.sourceRemoved first last).takeRemoved S first last).refreshSrcIndex := by
  obtain ⟨hsplit, hsame⟩ := split_takeRemoved S h hsrc hle hlast
  exact .of_split hsame h.mode_ne hsplit

theorem Grouped.rowsRemoved (h : Grouped s) (hsrc : s.src.isSome) {first last : Nat}
    (hle : first ≤ last) (hlast : last < s.rowCount) :
    Grouped (s.onSourceRowsRemoved S compare first last) := by
  rw [onSourceRowsRemoved,
    if_neg (show (s.sourceRemoved first last).mode ≠ .Flat from h.mode_ne)]
  exact (h.takeRemoved S hsrc hle hlast).resort

omit [Double F] in
theorem src_isSome_of_lt {r : Nat} (h : r < s.rowCount) : s.src.isSome := by
  cases hsrc : s.src with
  | none =>
      rw [GroupProxy.rowCount, hsrc] at h
      exact absurd h (Nat.not_lt_zero r)
  | some rows => rfl

/-! ### Data changed -/

omit [Double F] in
/-- What is announced of a change: outside its rows, or without the right role, no key changes. -/
theorem rowKey_sourceChanged (hsrc : s.src.isSome) {first last : Nat} {roles : List Int}
    {rows : List (SrcRow F)} (hok : (Event.dataChanged first last roles rows).Ok s) {r : Nat}
    (hr : r < s.rowCount)
    (hout : r < first ∨ last < r ∨ ¬ (roles.isEmpty ∨ ConnectionRole ∈ roles)) :
    (s.sourceChanged rows).rowKey r = s.rowKey r := by
  obtain ⟨src, hsrc⟩ := Option.isSome_iff_exists.mp hsrc
  obtain ⟨-, -, hlen, hall⟩ := hok
  rcases hall r (hlen ▸ hr) with ⟨h₁, h₂, h₃⟩ | hconn
  · rcases hout with h | h | h
    · omega
    · omega
    · exact absurd h₃ h
  · simp only [GroupProxy.rowKey, connectionAt, sourceChanged, hsrc, Option.map_some,
      Option.getD_some] at hconn ⊢
    rw [hconn]

omit [Double F] in
theorem rowCount_sourceChanged (hsrc : s.src.isSome) (rows : List (SrcRow F)) :
    (s.sourceChanged rows).rowCount = rows.length := by
  obtain ⟨src, hsrc⟩ := Option.isSome_iff_exists.mp hsrc
  simp only [GroupProxy.rowCount, sourceChanged, hsrc, Option.map_some, Option.getD_some]

omit [Double F] in
/-- Before the first changed row is regrouped, the rows before it have kept their keys. -/
theorem Grouped.split_keysAt (h : Grouped s) (hsrc : s.src.isSome)
    {first last : Nat} {roles : List Int} {rows : List (SrcRow F)}
    (hok : (Event.dataChanged first last roles rows).Ok s) :
    Split (keysAt s.rowKey (s.sourceChanged rows).rowKey first) (List.range s.rowCount)
      (s.sourceChanged rows).groups := by
  refine h.split.congr fun r hr => ?_
  unfold keysAt
  split
  · next hlt => exact rowKey_sourceChanged hsrc hok (List.mem_range.mp hr) (.inl hlt)
  · rfl

omit [Double F] in
/-- The groups once the changed rows are regrouped. -/
theorem grouped_foldl_regroupStep (h : Grouped s) (hsrc : s.src.isSome)
    {first last : Nat} {roles : List Int} {rows : List (SrcRow F)}
    (hok : (Event.dataChanged first last roles rows).Ok s) :
    Grouped ((List.range' first (last + 1 - first)).foldl regroupStep
      (s.sourceChanged rows, false)).1 ∧
    SameSource (s.sourceChanged rows) ((List.range' first (last + 1 - first)).foldl regroupStep
      (s.sourceChanged rows, false)).1 := by
  obtain ⟨hle, hlast, hlen, -⟩ := id hok
  obtain ⟨hsplit, hidx, hsame⟩ := split_foldl_regroupStep (s := s.sourceChanged rows)
    List.nodup_range h.mode_ne (last + 1 - first) first (s.sourceChanged rows, false) .refl
    (fun r _ hr => List.mem_range.mpr (by omega)) (h.split_keysAt hsrc hok) h.index
  refine ⟨⟨hsame.2.1 ▸ h.mode_ne, ?_, hidx⟩, hsame⟩
  rw [hsame.rowKey, hsame.rowCount, rowCount_sourceChanged hsrc, hlen]
  refine hsplit.congr fun r hr => ?_
  unfold keysAt
  split
  · rfl
  · next hge =>
    exact rowKey_sourceChanged hsrc hok (List.mem_range.mp hr) (.inr (.inl (by omega)))

theorem Grouped.dataChanged (h : Grouped s) (hsrc : s.src.isSome) {first last : Nat}
    {roles : List Int} {rows : List (SrcRow F)}
    (hok : (Event.dataChanged first last roles rows).Ok s) :
    Grouped (s.onSourceDataChanged S compare first last roles rows) := by
  have hmode : (s.sourceChanged rows).mode ≠ .Flat := h.mode_ne
  simp only [onSourceDataChanged, hmode, if_false]
  split
  · obtain ⟨hgrouped, -⟩ := grouped_foldl_regroupStep h hsrc hok
    split
    · exact hgrouped.resort
    · exact hgrouped
  · next hroles =>
    refine ⟨hmode, ?_, h.index⟩
    rw [rowCount_sourceChanged hsrc, hok.2.2.1]
    exact h.split.congr fun r hr =>
      rowKey_sourceChanged hsrc hok (List.mem_range.mp hr) (.inr (.inr hroles))

/-! ### Runs -/

/-- The flat view has no groups; in the others they partition the source. -/
def Inv (s : GroupProxy F) : Prop :=
  s.mode = .Flat ∧ s.groups = [] ∧ s.srcIndex = ∅ ∨ Grouped s

theorem inv_reset (s : GroupProxy F) : Inv (s.onSourceReset S compare) := by
  by_cases hmode : s.mode = .Flat
  · refine .inl ?_
    simp only [onSourceReset, resetIndexes, rebuild, hmode, or_true, if_true, true_and]
  · have h : Grouped (s.rebuild S compare) := grouped_rebuild hmode
    exact .inr ⟨h.mode_ne, h.split, h.index⟩

omit [Double F] in
/-- The settings take no part. -/
theorem Inv.congr {t : GroupProxy F} (h : Inv s) (hsrc : t.src = s.src) (hmode : t.mode = s.mode)
    (hgroups : t.groups = s.groups) (hidx : t.srcIndex = s.srcIndex) : Inv t := by
  rcases h with ⟨hf, hg, hi⟩ | h
  · exact .inl ⟨hmode.trans hf, hgroups.trans hg, hidx.trans hi⟩
  · refine .inr ⟨hmode ▸ h.mode_ne, ?_, by rw [hidx, hgroups, h.index]⟩
    have hkey : t.rowKey = s.rowKey := by
      funext r
      simp only [GroupProxy.rowKey, connectionAt, hsrc, hmode]
    rw [hkey, hgroups, GroupProxy.rowCount, hsrc]
    exact h.split

variable (compare) in
/-- In the flat view an event that does not reset moves persistent indexes, no more. -/
theorem flat_step (h : s.mode = .Flat ∧ s.groups = [] ∧ s.srcIndex = ∅) {e : Event F}
    (hreset : e.resets s = false) :
    ((s.step S compare e).mode = .Flat ∧ (s.step S compare e).groups = [] ∧
      (s.step S compare e).srcIndex = ∅) ∧
    (s.step S compare e).persistent.length = s.persistent.length := by
  cases e with
  | setSourceModel src => cases hreset
  | modelReset rows => cases hreset
  | layoutChanged rows => cases hreset
  | setViewMode mode rows =>
      obtain rfl : mode = s.mode := by simpa [Event.resets] using hreset
      rw [GroupProxy.step, setViewMode, if_pos rfl]
      exact ⟨h, rfl⟩
  | rowsInserted first rows =>
      simp only [GroupProxy.step]
      split
      · exact ⟨h, rfl⟩
      · rw [onSourceRowsInserted, if_pos (show (s.sourceInserted first rows).mode = .Flat from h.1)]
        exact ⟨h, List.length_map _⟩
  | rowsRemoved first last =>
      simp only [GroupProxy.step]
      split
      · exact ⟨h, rfl⟩
      · rw [onSourceRowsRemoved, if_pos (show (s.sourceRemoved first last).mode = .Flat from h.1)]
        exact ⟨h, List.length_map _⟩
  | dataChanged first last roles rows =>
      simp only [GroupProxy.step]
      split
      · exact ⟨h, rfl⟩
      · rw [onSourceDataChanged, if_pos (show (s.sourceChanged rows).mode = .Flat from h.1)]
        exact ⟨h, rfl⟩
  | sort column order newOrder =>
      simp only [GroupProxy.step, GroupProxy.sort]
      split
      · exact ⟨h, rfl⟩
      · rw [if_pos h.1]
        exact ⟨h, List.length_map _⟩
  | setSortWithinGroups on =>
      simp only [GroupProxy.step, GroupProxy.setSortWithinGroups]
      split
      · exact ⟨h, rfl⟩
      · rw [resort_of_flat S compare (t := { s with sortWithinGroups := on }) h.1]
        exact ⟨h, rfl⟩

/-- **In a grouped view every event that does not reset keeps the partition.** -/
theorem Grouped.step (h : Grouped s) {e : Event F} (hok : e.Ok s) (hreset : e.resets s = false) :
    Grouped (s.step S compare e) := by
  cases e with
  | setSourceModel src => cases hreset
  | modelReset rows => cases hreset
  | layoutChanged rows => cases hreset
  | setViewMode mode rows =>
      obtain rfl : mode = s.mode := by simpa [Event.resets] using hreset
      simp only [GroupProxy.step, setViewMode, if_true]
      exact h
  | rowsInserted first rows =>
      simp only [GroupProxy.step, Option.isNone_eq_false_iff.mpr hok.1, Bool.false_eq_true, if_false]
      exact h.rowsInserted hok.1 hok.2 rows
  | rowsRemoved first last =>
      have hsrc := src_isSome_of_lt hok.2
      simp only [GroupProxy.step, Option.isNone_eq_false_iff.mpr hsrc, Bool.false_eq_true, if_false]
      exact h.rowsRemoved hsrc hok.1 hok.2
  | dataChanged first last roles rows =>
      have hsrc := src_isSome_of_lt hok.2.1
      simp only [GroupProxy.step, Option.isNone_eq_false_iff.mpr hsrc, Bool.false_eq_true, if_false]
      exact h.dataChanged hsrc hok
  | sort column order newOrder =>
      have h' : Grouped { s with sortColumn := column, sortOrder := order } :=
        ⟨h.mode_ne, h.split, h.index⟩
      simp only [GroupProxy.step, GroupProxy.sort]
      split
      · exact h'
      · rw [if_neg h.mode_ne]
        exact h'.resort
  | setSortWithinGroups on =>
      simp only [GroupProxy.step, GroupProxy.setSortWithinGroups]
      split
      · exact h
      · exact Grouped.resort ⟨h.mode_ne, h.split, h.index⟩

/-- **Every event keeps the invariant.** -/
theorem Inv.step (h : Inv s) {e : Event F} (hok : e.Ok s) : Inv (s.step S compare e) := by
  cases hreset : e.resets s with
  | false =>
      rcases h with h | h
      · exact .inl (flat_step compare h hreset).1
      · exact .inr (h.step hok hreset)
  | true =>
      cases e with
      | setSourceModel src => exact inv_reset _
      | modelReset rows =>
          simp only [GroupProxy.step]
          split
          · exact h
          · exact inv_reset _
      | layoutChanged rows =>
          simp only [GroupProxy.step, onSourceLayoutChanged]
          split
          · exact h
          split
          · next hflat =>
            rcases h with h | h
            · exact .inl h
            · exact absurd hflat h.mode_ne
          · exact inv_reset _
      | setViewMode mode rows =>
          simp only [GroupProxy.step, setViewMode]
          split
          · exact h
          · exact inv_reset _
      | rowsInserted | rowsRemoved | dataChanged | sort | setSortWithinGroups => cases hreset

/-- Every event of the run comes in a state where Qt can deliver it. -/
def RunOk (S : StdSort) (compare : QVariant F → QVariant F → PartialOrdering) :
    GroupProxy F → List (Event F) → Prop
  | _, [] => True
  | s, e :: es => e.Ok s ∧ RunOk S compare (s.step S compare e) es

theorem Inv.run {events : List (Event F)} (h : Inv s) (hok : RunOk S compare s events) :
    Inv (events.foldl (GroupProxy.step S compare) s) := by
  induction events generalizing s with
  | nil => exact h
  | cons e events ih => exact ih (h.step hok.1) hok.2

/-! ### What the invariant says -/

omit [Double F] in
theorem Grouped.lookup_srcIndex (h : Grouped s) (r gi i : Nat) :
    s.srcIndex.lookup r = some (gi, i) ↔ ∃ g, s.groups[gi]? = some g ∧ g.srcRows[i]? = some r := by
  rw [h.index]
  exact h.split.lookup_indexOf List.nodup_range r gi i

omit [Double F] in
/-- Mapping a row to the proxy and back. -/
theorem Grouped.mapToSource_mapFromSource (h : Grouped s) {r : Nat} (hr : r < s.rowCount)
    (column : Nat) : (s.mapFromSource r column).bind s.mapToSource = some (r, column) := by
  obtain ⟨gi, i, g, hg, hi⟩ := h.split.exists_place (List.mem_range.mpr hr)
  have hl := (h.lookup_srcIndex r gi i).mpr ⟨g, hg, hi⟩
  cases hsrc : s.src with
  | none =>
      rw [GroupProxy.rowCount, hsrc] at hr
      exact absurd hr (Nat.not_lt_zero r)
  | some rows =>
      have hlt : r < rows.length := by simpa [GroupProxy.rowCount, hsrc] using hr
      simp only [mapFromSource, hsrc, h.mode_ne, if_false, hl, Option.map_some, Option.bind_some,
        mapToSource, hg, Option.bind_eq_bind, hi, hlt, if_true]

/-- The groups hold what a rebuild would give them. -/
theorem Grouped.mem_group_iff_rebuild (h : Grouped s) (k : QString) (r : Nat) :
    (∃ g ∈ s.groups, g.key = k ∧ r ∈ g.srcRows) ↔
      ∃ g ∈ (s.rebuild S compare).groups, g.key = k ∧ r ∈ g.srcRows := by
  have hr : Grouped (s.rebuild S compare) := grouped_rebuild h.mode_ne
  have hsame : SameSource s (s.rebuild S compare) := by
    simp only [rebuild]
    split
    · exact ⟨rfl, rfl, rfl, rfl, rfl⟩
    · refine SameSource.trans (t := applyCurrentSort _ S compare) ?_ (sameSource_refreshSrcIndex _)
      exact SameSource.trans ⟨rfl, rfl, rfl, rfl, rfl⟩ (sameSource_applyCurrentSort _)
  have hsplit := hr.split
  rw [hsame.rowKey, hsame.rowCount] at hsplit
  rw [h.split.isPartition.mem_group_iff, hsplit.isPartition.mem_group_iff]

end

end GroupProxy

/-- **The groups partition the source.**  After every run, in a grouped view: no group is empty, keys
are distinct, the groups hold every source row once and under its own key, the reverse index and the
two mappings are exact, and a rebuild would give every key the same rows. -/
theorem groups_partition_source {F : Type} [Double F] (S : StdSort)
    (compare : QVariant F → QVariant F → PartialOrdering) (events : List (Event F))
    (hok : GroupProxy.RunOk S compare {} events) :
    let s := events.foldl (GroupProxy.step S compare) {}
    s.mode ≠ .Flat →
      (∀ g ∈ s.groups, g.srcRows ≠ []) ∧ (s.groups.map Group.key).Nodup ∧
      (s.groups.flatMap Group.srcRows).Perm (List.range s.rowCount) ∧
      (∀ g ∈ s.groups, ∀ r ∈ g.srcRows, s.rowKey r = g.key) ∧
      (∀ r gi i, s.srcIndex.lookup r = some (gi, i) ↔
        ∃ g, s.groups[gi]? = some g ∧ g.srcRows[i]? = some r) ∧
      (∀ r < s.rowCount, ∀ column,
        (s.mapFromSource r column).bind s.mapToSource = some (r, column)) ∧
      ∀ k r, (∃ g ∈ s.groups, g.key = k ∧ r ∈ g.srcRows) ↔
        ∃ g ∈ (s.rebuild S compare).groups, g.key = k ∧ r ∈ g.srcRows := by
  intro s hmode
  have hinit : GroupProxy.Inv ({} : GroupProxy F) := .inl ⟨rfl, rfl, rfl⟩
  rcases hinit.run hok with ⟨hflat, -⟩ | h
  · exact absurd hflat hmode
  · have hp := h.split.isPartition
    exact ⟨h.split.nonempty, hp.keys_nodup, hp.perm, hp.key_eq, h.lookup_srcIndex,
      fun r hr column => h.mapToSource_mapFromSource hr column, h.mem_group_iff_rebuild⟩

/-- Texts and numbers compare within their type. -/
def compareValues : QVariant ℚ → QVariant ℚ → PartialOrdering
  | .string a, .string b => if a = b then .Equivalent else if a < b then .Less else .Greater
  | .int a, .int b => if a = b then .Equivalent else if a < b then .Less else .Greater
  | .ulonglong a, .ulonglong b => if a = b then .Equivalent else if a < b then .Less else .Greater
  | .double a, .double b => if a = b then .Equivalent else if a < b then .Less else .Greater
  | _, _ => .Unordered

/-- A flow on an interface, with the interface as its sort value. -/
def ifaceRow (iface : String) : SrcRow ℚ :=
  { connection := { iface := iface.toList }, rxRate := 0, txRate := 0
    sortRole := fun _ => .string iface.toList, sortDouble := fun _ => 0 }

/-- Three flows on two interfaces, the groups sorted by size; then the first flow goes and the last
changes interface. -/
def ifaceEvents : List (Event ℚ) :=
  [.setSourceModel (some [ifaceRow "eth0", ifaceRow "wlan0"]),
    .setViewMode .ByInterface [ifaceRow "eth0", ifaceRow "wlan0"],
    .setSortWithinGroups false,
    .sort 1 .DescendingOrder [],
    .rowsInserted 2 [ifaceRow "wlan0"],
    .rowsRemoved 0 0,
    .dataChanged 1 1 [] [ifaceRow "wlan0", ifaceRow "eth0"]]

theorem groups_partition_source_ifaces :
    let s := ifaceEvents.foldl (GroupProxy.step .stable compareValues) {}
    s.groups.map Group.key = ["wlan0".toList, "eth0".toList] ∧
      (s.groups.flatMap Group.srcRows).Perm (List.range s.rowCount) ∧
      ∀ r < s.rowCount, ∀ column,
        (s.mapFromSource r column).bind s.mapToSource = some (r, column) := by
  intro s
  have hok : GroupProxy.RunOk .stable compareValues {} ifaceEvents := by
    refine ⟨trivial, trivial, trivial, trivial, ?_, ?_, ?_, trivial⟩
    all_goals decide +kernel
  have h := groups_partition_source .stable compareValues ifaceEvents hok (by decide +kernel)
  exact ⟨by decide +kernel, h.2.2.1, h.2.2.2.2.2.1⟩

end Qiftop.Ui
