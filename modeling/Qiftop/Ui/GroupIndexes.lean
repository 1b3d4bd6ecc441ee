import Qiftop.Ui.GroupPartition

/-!
# Ui — persistent indexes under single steps

What a held index names is followed beside it: a group by its key, a flow by its source row
(`Anchor`).  `Tracks` says that every index still stands where its name is.

Appending flows and groups, taking flows out and sorting keep indexes and names together.  Erasing a
group does so only for names in front of it (`tracks_removeGroup`): an index on a child holds its
group's position in its internal id, and erasing a group moves the groups behind it but leaves their
children's internal ids as they are.
-/

namespace Qiftop.Ui
open Qt Lib Backend

/-! ### Names -/

/-- What an index was made for. -/
inductive Anchor where
  | group (key : QString)
  | flow (row : Nat)
  deriving DecidableEq, Repr

/-- A name under changed row numbers. -/
def Anchor.shift (f : Nat → Nat) : Anchor → Anchor
  | .group k => .group k
  | .flow r => .flow (f r)

/-- The index stands where the named group or flow is. -/
def Names (groups : List Group) (p : ModelIndex) : Anchor → Prop
  | .group k => p.internalId = .topLevel ∧ ∃ g, groups[p.row]? = some g ∧ g.key = k
  | .flow r => ∃ gi g, p.internalId = .group gi ∧ groups[gi]? = some g ∧ g.srcRows[p.row]? = some r

/-- An index with a name stands where the name is. -/
def Follows (groups : List Group) (p : Option ModelIndex) (a : Option Anchor) : Prop :=
  ∀ x, a = some x → ∃ i, p = some i ∧ Names groups i x

/-- Every held index follows its name. -/
def Tracks (groups : List Group) (ps : List (Option ModelIndex)) (as : List (Option Anchor)) :
    Prop :=
  List.Forall₂ (Follows groups) ps as

namespace Tracks
variable {groups groups' : List Group} {ps : List (Option ModelIndex)} {as : List (Option Anchor)}

/-- A change of every index and every name that keeps them together. -/
theorem map (h : Tracks groups ps as) {f : Option ModelIndex → Option ModelIndex}
    {φ : Option Anchor → Option Anchor}
    (hf : ∀ i x x', some x ∈ as → Names groups i x → φ (some x) = some x' →
      ∃ j, f (some i) = some j ∧ Names groups' j x')
    (hφ : φ none = none) : Tracks groups' (ps.map f) (as.map φ) := by
  induction h with
  | nil => exact .nil
  | @cons p a ps as hpa _ ih =>
      refine .cons (fun x' hx' => ?_) (ih fun i x x' hx => hf i x x' (List.mem_cons_of_mem _ hx))
      cases a with
      | none =>
          rw [hφ] at hx'
          cases hx'
      | some x =>
          obtain ⟨i, rfl, hi⟩ := hpa x rfl
          exact hf i x x' List.mem_cons_self hi hx'

/-- A change of every index. -/
theorem mapIndexes (h : Tracks groups ps as) {f : Option ModelIndex → Option ModelIndex}
    (hf : ∀ i x, some x ∈ as → Names groups i x → ∃ j, f (some i) = some j ∧ Names groups' j x) :
    Tracks groups' (ps.map f) as := by
  have hmap : Tracks groups' (ps.map f) (as.map id) := h.map
    (fun i x x' hx hi e => by cases e; exact hf i x hx hi) rfl
  rwa [List.map_id] at hmap

/-- A change of the groups under the indexes. -/
theorem mapGroups (h : Tracks groups ps as)
    (hf : ∀ i x, some x ∈ as → Names groups i x → Names groups' i x) : Tracks groups' ps as := by
  have hmap : Tracks groups' (ps.map id) as := h.mapIndexes
    fun i x hx hi => ⟨i, rfl, hf i x hx hi⟩
  rwa [List.map_id] at hmap

/-- A change of every name. -/
theorem mapNames (h : Tracks groups ps as) {φ : Option Anchor → Option Anchor}
    (hf : ∀ i x x', some x ∈ as → Names groups i x → φ (some x) = some x' → Names groups' i x')
    (hφ : φ none = none) : Tracks groups' ps (as.map φ) := by
  have hmap : Tracks groups' (ps.map id) (as.map φ) := h.map
    (fun i x x' hx hi e => ⟨i, rfl, hf i x x' hx hi e⟩) hφ
  rwa [List.map_id] at hmap

/-- No names, nothing to follow. -/
theorem of_none (hlen : ps.length = as.length) (hnone : ∀ a ∈ as, a = none) :
    Tracks groups ps as := by
  induction ps generalizing as with
  | nil =>
      rw [List.length_eq_zero_iff.mp hlen.symm]
      exact .nil
  | cons p ps ih =>
      cases as with
      | nil => cases hlen
      | cons a as =>
          refine .cons (fun x hx => ?_) (ih (by simpa using hlen)
            fun a ha => hnone a (List.mem_cons_of_mem _ ha))
          rw [hnone a List.mem_cons_self] at hx
          cases hx

theorem length_eq (h : Tracks groups ps as) : ps.length = as.length := List.Forall₂.length_eq h

theorem getElem? (h : Tracks groups ps as) {i : Nat} {x : Anchor} (hx : as[i]? = some (some x)) :
    ∃ p, ps[i]? = some (some p) ∧ Names groups p x := by
  induction h generalizing i with
  | nil => cases hx
  | cons hpa _ ih =>
      cases i with
      | zero =>
          obtain ⟨p, rfl, hp⟩ := hpa x (Option.some.inj hx)
          exact ⟨p, rfl, hp⟩
      | succ i => exact ih hx

theorem append (h : Tracks groups ps as) {p : Option ModelIndex} {a : Option Anchor}
    (hpa : Follows groups p a) : Tracks groups (ps ++ [p]) (as ++ [a]) :=
  List.rel_append h (.cons hpa .nil)

end Tracks

namespace GroupProxy

section
variable {F : Type} {s : GroupProxy F} {as : List (Option Anchor)}

/-! ### Placing rows -/

theorem tracks_insertChild (h : Tracks s.groups s.persistent as) {gi r : Nat} {g : Group}
    (hg : s.groups[gi]? = some g) :
    Tracks (s.insertChild gi r).groups (s.insertChild gi r).persistent as := by
  refine h.mapIndexes fun i x _ hi => ?_
  rw [hg, Option.elim_some]
  have hget : ∀ j, (s.insertChild gi r).groups[j]? =
      if gi = j then some { g with srcRows := g.srcRows ++ [r] } else s.groups[j]? :=
    getElem?_modify_of_some hg _
  cases x with
  | group k =>
      obtain ⟨htop, g', hg', hk⟩ := hi
      refine ⟨i, ?_, htop, ?_⟩
      · simp [ModelIndex.inserted, htop]
      · rw [hget]
        by_cases hij : gi = i.row
        · rw [← hij, hg] at hg'
          rw [if_pos hij]
          exact ⟨_, rfl, by rw [← hk, ← Option.some.inj hg']⟩
        · rw [if_neg hij]
          exact ⟨g', hg', hk⟩
  | flow r' =>
      obtain ⟨gj, g', hid, hg', hr'⟩ := hi
      by_cases hij : gi = gj
      · subst hij
        rw [hg] at hg'
        obtain rfl := Option.some.inj hg'
        -- the child goes to the end, so the others keep their rows
        have hlt := (List.getElem?_eq_some_iff.mp hr').1
        refine ⟨i, ?_, gi, _, hid, by rw [hget, if_pos rfl], ?_⟩
        · simp [ModelIndex.inserted, hlt]
        · rw [List.getElem?_append_left hlt]
          exact hr'
      · refine ⟨i, ?_, gj, g', hid, by rw [hget, if_neg hij]; exact hg', hr'⟩
        simp [ModelIndex.inserted, hid, Ne.symm hij]

theorem tracks_insertGroup (h : Tracks s.groups s.persistent as) (g : Group) :
    Tracks (s.insertGroup g).groups (s.insertGroup g).persistent as := by
  refine h.mapIndexes fun i x _ hi => ?_
  cases x with
  | group k =>
      obtain ⟨htop, g', hg', hk⟩ := hi
      have hlt := (List.getElem?_eq_some_iff.mp hg').1
      refine ⟨i, ?_, htop, g', ?_, hk⟩
      · simp [ModelIndex.inserted, hlt]
      · exact (List.getElem?_append_left hlt).trans hg'
  | flow r =>
      obtain ⟨gj, g', hid, hg', hr⟩ := hi
      have hlt := (List.getElem?_eq_some_iff.mp hg').1
      refine ⟨i, ?_, gj, g', hid, ?_, hr⟩
      · simp [ModelIndex.inserted, hid]
      · exact (List.getElem?_append_left hlt).trans hg'

theorem tracks_placeSourceRow (h : Tracks s.groups s.persistent as) (r : Nat) :
    Tracks (s.placeSourceRow r).groups (s.placeSourceRow r).persistent as := by
  unfold placeSourceRow
  split
  · next gi hgi =>
    obtain ⟨g, hg, -⟩ := findGroup_some hgi
    exact tracks_insertChild h hg
  · exact tracks_insertGroup h _

/-! ### Taking rows and groups out -/

theorem tracks_removeChild (h : Tracks s.groups s.persistent as) {gi i r : Nat} {g : Group}
    (hg : s.groups[gi]? = some g) (hi : g.srcRows[i]? = some r) (hr : some (.flow r) ∉ as) :
    Tracks (s.removeChild gi i).groups (s.removeChild gi i).persistent as := by
  refine h.mapIndexes fun p x hx hpx => ?_
  rw [Option.bind_some]
  cases x with
  | group k =>
      obtain ⟨htop, g', hg', hk⟩ := hpx
      refine ⟨p, by simp [ModelIndex.removed, htop], htop, ?_⟩
      rw [groups_removeChild hg]
      by_cases hij : gi = p.row
      · rw [← hij, hg] at hg'
        rw [if_pos hij]
        exact ⟨_, rfl, by rw [← hk, ← Option.some.inj hg']⟩
      · rw [if_neg hij]
        exact ⟨g', hg', hk⟩
  | flow r' =>
      obtain ⟨gj, g', hid, hg', hr'⟩ := hpx
      have hne : r' ≠ r := fun e => hr (e ▸ hx)
      by_cases hij : gi = gj
      · subst hij
        rw [hg] at hg'
        obtain rfl := Option.some.inj hg'
        have hrow : p.row ≠ i := fun e => hne (by rw [e, hi] at hr'; exact (Option.some.inj hr').symm)
        -- a later child moves up by one, an earlier one stays
        by_cases hlt : i < p.row
        · refine ⟨{ p with row := p.row - 1 }, ?_, gi, _, hid,
            by rw [groups_removeChild hg, if_pos rfl], ?_⟩
          · simp [ModelIndex.removed, hid, hlt]
          · rw [List.getElem?_eraseIdx, if_neg (by simp; omega)]
            rw [show p.row - 1 + 1 = p.row by omega]
            exact hr'
        · refine ⟨p, ?_, gi, _, hid, by rw [groups_removeChild hg, if_pos rfl], ?_⟩
          · simp only [ModelIndex.removed, hid, if_true, hlt, if_false]
            rw [if_neg (by omega)]
          · rw [List.getElem?_eraseIdx, if_pos (by omega)]
            exact hr'
      · refine ⟨p, ?_, gj, g', hid, by rw [groups_removeChild hg, if_neg hij]; exact hg', hr'⟩
        simp [ModelIndex.removed, hid, Ne.symm hij]

/-- Every flow held by an index lies in a group before position `gi`. -/
def AllBefore (groups : List Group) (as : List (Option Anchor)) (gi : Nat) : Prop :=
  ∀ r, some (.flow r) ∈ as → ∀ gj g, groups[gj]? = some g → r ∈ g.srcRows → gj < gi

theorem tracks_removeGroup (h : Tracks s.groups s.persistent as) {gi : Nat} {g : Group}
    (hg : s.groups[gi]? = some g) (hkey : some (.group g.key) ∉ as)
    (hbefore : AllBefore s.groups as gi) :
    Tracks (s.removeGroup gi).groups (s.removeGroup gi).persistent as := by
  refine h.mapIndexes fun p x hx hpx => ?_
  rw [Option.bind_some]
  have hget : ∀ j, (s.removeGroup gi).groups[j]? = if j < gi then s.groups[j]? else s.groups[j + 1]? :=
    fun j => List.getElem?_eraseIdx
  cases x with
  | group k =>
      obtain ⟨htop, g', hg', hk⟩ := hpx
      -- the group itself is not followed
      have hrow : p.row ≠ gi := fun e => by
        rw [e, hg] at hg'
        rw [← hk, ← Option.some.inj hg'] at hx
        exact hkey hx
      by_cases hlt : gi < p.row
      · refine ⟨{ p with row := p.row - 1 }, ?_, htop, g', ?_, hk⟩
        · simp [ModelIndex.removed, htop, hlt]
        · rw [hget, if_neg (by simp; omega)]
          rw [show p.row - 1 + 1 = p.row by omega]
          exact hg'
      · refine ⟨p, ?_, htop, g', ?_, hk⟩
        · simp only [ModelIndex.removed, htop, if_true, hlt, if_false]
          rw [if_neg (by omega)]
        · rw [hget, if_pos (by omega)]
          exact hg'
  | flow r =>
      obtain ⟨gj, g', hid, hg', hr⟩ := hpx
      -- the index of a flow keeps the number of its group, which must not change
      have hlt : gj < gi := hbefore r hx gj g' hg' (List.mem_of_getElem? hr)
      refine ⟨p, ?_, gj, g', hid, ?_, hr⟩
      · simp only [ModelIndex.removed, hid]
        rw [if_neg (by simp), if_neg (by omega)]
      · rw [hget, if_pos hlt]
        exact hg'

theorem AllBefore.removeGroup {gi gi' : Nat} (h : AllBefore s.groups as gi)
    (h' : AllBefore s.groups as gi') : AllBefore (s.removeGroup gi).groups as gi' := by
  intro r hr gj g hg hrg
  have hget : (s.removeGroup gi).groups[gj]? =
      if gj < gi then s.groups[gj]? else s.groups[gj + 1]? := List.getElem?_eraseIdx
  rw [hget] at hg
  split at hg
  · exact h' r hr gj g hg hrg
  · next hge =>
    have := h r hr (gj + 1) g hg hrg
    omega

/-- Erasing several groups, from the last to the first. -/
theorem tracks_foldl_removeGroup {idxs : List Nat} (hdesc : idxs.Pairwise (· > ·))
    (h : Tracks s.groups s.persistent as)
    (hidx : ∀ gi ∈ idxs, ∃ g, s.groups[gi]? = some g ∧ some (.group g.key) ∉ as)
    (hbefore : ∀ gi ∈ idxs, AllBefore s.groups as gi) :
    Tracks (idxs.foldl removeGroup s).groups (idxs.foldl removeGroup s).persistent as := by
  induction idxs generalizing s with
  | nil => exact h
  | cons gi idxs ih =>
      obtain ⟨hlt, hdesc⟩ := List.pairwise_cons.mp hdesc
      obtain ⟨g, hg, hkey⟩ := hidx gi List.mem_cons_self
      have hgi := hbefore gi List.mem_cons_self
      refine ih hdesc (tracks_removeGroup h hg hkey hgi) (fun j hj => ?_) fun j hj =>
        hgi.removeGroup (hbefore j (List.mem_cons_of_mem _ hj))
      have hget : (s.removeGroup gi).groups[j]? =
          if j < gi then s.groups[j]? else s.groups[j + 1]? := List.getElem?_eraseIdx
      rw [hget, if_pos (hlt j hj)]
      exact hidx j (List.mem_cons_of_mem _ hj)

/-! ### Row numbers and labels -/

theorem tracks_shiftRows (h : Tracks s.groups s.persistent as) (f : Nat → Nat) :
    Tracks (s.shiftRows f).groups (s.shiftRows f).persistent (as.map (Option.map (·.shift f))) := by
  refine h.mapNames (fun p x x' _ hpx e => ?_) rfl
  obtain rfl := Option.some.inj e
  have hget : ∀ j, (s.shiftRows f).groups[j]? =
      s.groups[j]?.map fun g : Group => { g with srcRows := g.srcRows.map f } :=
    fun j => List.getElem?_map
  cases x with
  | group k =>
      obtain ⟨htop, g, hg, hk⟩ := hpx
      exact ⟨htop, { g with srcRows := g.srcRows.map f }, by rw [hget, hg]; rfl, hk⟩
  | flow r =>
      obtain ⟨gi, g, hid, hg, hr⟩ := hpx
      exact ⟨gi, { g with srcRows := g.srcRows.map f }, hid, by rw [hget, hg]; rfl,
        by rw [List.getElem?_map, hr]; rfl⟩

theorem tracks_label (h : Tracks s.groups s.persistent as) (gi : Nat) (label : QString) :
    Tracks (s.groups.modify gi fun g => { g with label }) s.persistent as := by
  have hget : ∀ (j : Nat) (g : Group), s.groups[j]? = some g → ∃ g' : Group,
      (s.groups.modify gi fun g => { g with label })[j]? = some g' ∧ g'.key = g.key ∧
        g'.srcRows = g.srcRows := by
    intro j g hg
    rw [List.getElem?_modify, hg]
    split
    · exact ⟨_, rfl, rfl, rfl⟩
    · exact ⟨_, rfl, rfl, rfl⟩
  refine h.mapGroups fun p x _ hpx => ?_
  cases x with
  | group k =>
      obtain ⟨htop, g, hg, hk⟩ := hpx
      obtain ⟨g', hg', hkey, -⟩ := hget p.row g hg
      exact ⟨htop, g', hg', hkey.trans hk⟩
  | flow r =>
      obtain ⟨gj, g, hid, hg, hr⟩ := hpx
      obtain ⟨g', hg', -, hrows⟩ := hget gj g hg
      exact ⟨gj, g', hid, hg', hrows ▸ hr⟩

/-! ### Sorting -/

/-- In a grouped view every row has a key that is not empty. -/
theorem groupKeyFor_ne_nil {mode : ViewMode} (hmode : mode ≠ .Flat) (c : Connection) :
    groupKeyFor mode c ≠ [] := by
  cases mode with
  | Flat => exact absurd rfl hmode
  | ByInterface =>
      simp only [groupKeyFor]
      split
      · decide
      · next h => simpa using h
  | ByContainer =>
      simp only [groupKeyFor, slashed]
      split
      · simp
      split
      · simp
      · decide
  | ByProcess =>
      simp only [groupKeyFor]
      split
      · have hne : ∀ n, number n ≠ [] := fun n => Nat.toDigits_ne_nil
        have hpercent : ∀ n, '%' ∉ number n := fun n hm => by
          have := Nat.isDigit_of_mem_toDigits (b := 10) (by omega) (by omega) hm
          revert this
          decide
        have e : ∀ a : QString, arg "%1/%2".toList a = a ++ "/%2".toList := fun a => by
          change a ++ _ = _
          rfl
        rw [e, arg_append (hpercent _)]
        exact List.append_ne_nil_of_left_ne_nil (hne _) _
      · decide

variable [Double F] {S : StdSort} {compare : QVariant F → QVariant F → PartialOrdering}

/-- **A re-sort takes the indexes along.** -/
theorem tracks_resort (hs : Grouped s) (h : Tracks s.groups s.persistent as) :
    Tracks (s.resortGroupsPreservingIndexes S compare).groups
      (s.resortGroupsPreservingIndexes S compare).persistent as := by
  have hs' : Grouped (s.resortGroupsPreservingIndexes S compare) := hs.resort
  rcases s.resort_cases S compare with e | ⟨-, e⟩
  · rw [e]
    exact h
  rw [e] at hs' ⊢
  -- an empty key would not be located again
  have hkey : ∀ g ∈ s.groups, g.key.isEmpty = false := fun g hg => by
    obtain ⟨r, -, hr⟩ := hs.split.exists_row hg
    rw [← hr]
    cases hk : s.rowKey r with
    | nil => exact absurd hk (groupKeyFor_ne_nil hs.mode_ne _)
    | cons => rfl
  have hpos := Hash.lookup_positions hs'.split.isPartition.keys_nodup
  have hmem : ∀ k, k ∈ s.groups.map Group.key →
      k ∈ (s.sortGroups S compare s.groups).map Group.key := fun k hk =>
    (hs'.split.key_mem_iff k).mpr ((hs.split.key_mem_iff k).mp hk)
  refine h.mapIndexes fun p x _ hpx => ?_
  rw [Option.bind_some]
  cases x with
  | group k =>
      obtain ⟨htop, g, hg, rfl⟩ := hpx
      have hg' := List.mem_of_getElem? hg
      obtain ⟨g', hg'', hk⟩ := List.mem_map.mp (hmem g.key (List.mem_map_of_mem hg'))
      obtain ⟨gi, hgi⟩ := List.mem_iff_getElem?.mp hg''
      refine ⟨⟨gi, p.column, .topLevel⟩, ?_, rfl, g', hgi, hk⟩
      simp only [identity, htop, hg, Option.map_some, Option.bind_some, locate, hkey g hg',
        Bool.false_eq_true, if_false, (hpos g.key gi).mpr ⟨g', hgi, hk⟩]
  | flow r =>
      obtain ⟨gi, g, hid, hg, hr⟩ := hpx
      have hg' := List.mem_of_getElem? hg
      obtain ⟨g', hg'', hk⟩ := List.mem_map.mp (hmem g.key (List.mem_map_of_mem hg'))
      obtain ⟨gj, hgj⟩ := List.mem_iff_getElem?.mp hg''
      have hr' := hs.split.isPartition.mem_all hg' (List.mem_of_getElem? hr)
      obtain ⟨gi', i', g'', hgi', hi'⟩ := hs'.split.exists_place hr'
      refine ⟨⟨i', p.column, .group gi'⟩, ?_, gi', g'', rfl, hgi', hi'⟩
      have hl := (hs'.lookup_srcIndex r gi' i').mpr ⟨g'', hgi', hi'⟩
      simp only [identity, hid, hg, Option.bind_eq_bind, Option.bind_some, hr, locate, hkey g hg',
        Bool.false_eq_true, if_false, (hpos g.key gj).mpr ⟨g', hgj, hk⟩, hl, Option.map_some]

end

end GroupProxy

end Qiftop.Ui
