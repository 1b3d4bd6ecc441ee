import Mathlib.Data.List.Nodup
import Mathlib.Data.List.Perm.Basic
import Mathlib.Data.List.InsertIdx

/-!
# Lib — partitions by key

A list of groups, each with a key and some elements.  `IsPartition` says that the groups split the
elements `all` by the key `of` assigns them: keys are distinct, the elements of the groups are the
elements of `all`, and each lies in the group of its key.

The partition is determined up to order and empty groups (`mem_group_iff`).  It is kept by
reordering groups and elements, renaming elements, adding and removing one element, and adding and
dropping empty groups.
-/

namespace Qiftop.Lib

section
variable {γ K α β : Type} (key : γ → K) (rows : γ → List α)

structure IsPartition (of : α → K) (all : List α) (groups : List γ) : Prop where
  keys_nodup : (groups.map key).Nodup
  perm : (groups.flatMap rows).Perm all
  key_eq : ∀ g ∈ groups, ∀ a ∈ rows g, of a = key g

end

/-! ### A place in a list -/

theorem exists_split {γ : Type} {l : List γ} {i : Nat} {g : γ} (h : l[i]? = some g) :
    ∃ pre post, l = pre ++ g :: post ∧ pre.length = i := by
  obtain ⟨hlt, rfl⟩ := List.getElem?_eq_some_iff.mp h
  refine ⟨l.take i, l.drop (i + 1), ?_, by simp; omega⟩
  rw [List.getElem_cons_drop, List.take_append_drop]

theorem modify_split {γ : Type} {pre post : List γ} {g : γ} {i : Nat} (h : pre.length = i)
    (f : γ → γ) : (pre ++ g :: post).modify i f = pre ++ f g :: post := by
  subst h
  induction pre with
  | nil => rfl
  | cons a pre ih => simpa using ih

theorem eraseIdx_split {γ : Type} {pre post : List γ} {g : γ} {i : Nat} (h : pre.length = i) :
    (pre ++ g :: post).eraseIdx i = pre ++ post := by
  subst h
  induction pre with
  | nil => rfl
  | cons a pre ih => simpa using ih

namespace IsPartition

variable {γ K α β : Type} {key : γ → K} {rows : γ → List α} {of : α → K} {all : List α}
  {groups : List γ}

theorem exists_group (h : IsPartition key rows of all groups) {a : α} (ha : a ∈ all) :
    ∃ g ∈ groups, a ∈ rows g :=
  List.mem_flatMap.mp (h.perm.mem_iff.mpr ha)

theorem mem_all (h : IsPartition key rows of all groups) {g : γ} (hg : g ∈ groups) {a : α}
    (ha : a ∈ rows g) : a ∈ all :=
  h.perm.mem_iff.mp (List.mem_flatMap.mpr ⟨g, hg, ha⟩)

/-- **What lies where**: the group of a key holds exactly the elements of that key. -/
theorem mem_group_iff (h : IsPartition key rows of all groups) (k : K) (a : α) :
    (∃ g ∈ groups, key g = k ∧ a ∈ rows g) ↔ a ∈ all ∧ of a = k := by
  constructor
  · rintro ⟨g, hg, rfl, ha⟩
    exact ⟨h.mem_all hg ha, h.key_eq g hg a ha⟩
  · rintro ⟨ha, rfl⟩
    obtain ⟨g, hg, hag⟩ := h.exists_group ha
    exact ⟨g, hg, (h.key_eq g hg a hag).symm, hag⟩

theorem group_unique (h : IsPartition key rows of all groups) {g g' : γ} (hg : g ∈ groups)
    (hg' : g' ∈ groups) (e : key g = key g') : g = g' :=
  List.inj_on_of_nodup_map h.keys_nodup hg hg' e

theorem empty (of : α → K) : IsPartition key rows of [] [] :=
  ⟨List.nodup_nil, .refl _, fun _ hg => absurd hg List.not_mem_nil⟩

/-! ### Keys and order -/

/-- Only the keys of the elements matter. -/
theorem congr (h : IsPartition key rows of all groups) {of' : α → K}
    (e : ∀ a ∈ all, of' a = of a) : IsPartition key rows of' all groups :=
  ⟨h.keys_nodup, h.perm, fun g hg a ha => (e a (h.mem_all hg ha)).trans (h.key_eq g hg a ha)⟩

theorem permAll (h : IsPartition key rows of all groups) {all' : List α} (p : all.Perm all') :
    IsPartition key rows of all' groups :=
  ⟨h.keys_nodup, h.perm.trans p, h.key_eq⟩

theorem permGroups (h : IsPartition key rows of all groups) {groups' : List γ}
    (p : groups'.Perm groups) : IsPartition key rows of all groups' where
  keys_nodup := (p.map key).nodup_iff.mpr h.keys_nodup
  perm := (p.flatMap_right rows).trans h.perm
  key_eq g hg := h.key_eq g (p.mem_iff.mp hg)

/-- A change of every group that keeps keys and renames elements. -/
theorem map {rows' : γ → List β} (h : IsPartition key rows of all groups) {f : γ → γ} {φ : α → β}
    {of' : β → K} (hkey : ∀ g, key (f g) = key g) (hrows : ∀ g, (rows' (f g)).Perm ((rows g).map φ))
    (hof : ∀ a ∈ all, of' (φ a) = of a) :
    IsPartition key rows' of' (all.map φ) (groups.map f) where
  keys_nodup := by
    have e : key ∘ f = key := funext hkey
    rw [List.map_map, e]
    exact h.keys_nodup
  perm := by
    rw [List.flatMap_map]
    refine (List.Perm.flatMap_left groups fun g _ => hrows g).trans ?_
    rw [← List.map_flatMap]
    exact h.perm.map φ
  key_eq := by
    intro g' hg' b hb
    obtain ⟨g, hg, rfl⟩ := List.mem_map.mp hg'
    obtain ⟨a, ha, rfl⟩ := List.mem_map.mp ((hrows g).mem_iff.mp hb)
    rw [hkey, hof a (h.mem_all hg ha), h.key_eq g hg a ha]

/-! ### One group -/

/-- A change of one group that keeps its key. -/
theorem modify {all' : List α} (h : IsPartition key rows of all groups) {i : Nat} {g : γ}
    (hi : groups[i]? = some g) {f : γ → γ} (hkey : key (f g) = key g)
    (hperm : ((groups.modify i f).flatMap rows).Perm all')
    (hof : ∀ a ∈ rows (f g), of a = key g) :
    IsPartition key rows of all' (groups.modify i f) := by
  obtain ⟨pre, post, rfl, hlen⟩ := exists_split hi
  rw [modify_split hlen] at hperm ⊢
  refine ⟨?_, hperm, ?_⟩
  · have hnd := h.keys_nodup
    rw [List.map_append, List.map_cons] at hnd ⊢
    rw [hkey]
    exact hnd
  · intro g' hg' a ha
    rcases List.mem_append.mp hg' with hm | hm
    · exact h.key_eq g' (by simp [hm]) a ha
    rcases List.mem_cons.mp hm with rfl | hm
    · rw [hof a ha, hkey]
    · exact h.key_eq g' (by simp [hm]) a ha

/-- An element joins the group of its key. -/
theorem add (h : IsPartition key rows of all groups) {i : Nat} {g : γ} (hi : groups[i]? = some g)
    {f : γ → γ} {a : α} (hkey : key (f g) = key g) (hrows : rows (f g) = rows g ++ [a])
    (hof : of a = key g) : IsPartition key rows of (all ++ [a]) (groups.modify i f) := by
  refine h.modify hi hkey ?_ ?_
  · obtain ⟨pre, post, rfl, hlen⟩ := exists_split hi
    rw [modify_split hlen]
    have hp := h.perm
    simp only [List.flatMap_append, List.flatMap_cons, hrows] at hp ⊢
    refine List.Perm.trans ?_ (hp.append_right [a])
    simp only [List.append_assoc]
    exact (List.perm_append_comm.append_left _).append_left _
  · intro b hb
    rw [hrows] at hb
    rcases List.mem_append.mp hb with hb | hb
    · exact h.key_eq g (List.mem_of_getElem? hi) b hb
    · rw [List.mem_singleton.mp hb, hof]

/-- An element starts a group of its key. -/
theorem create (h : IsPartition key rows of all groups) {g : γ} {a : α}
    (hnew : ∀ g' ∈ groups, key g' ≠ key g) (hrows : rows g = [a]) (hof : of a = key g) :
    IsPartition key rows of (all ++ [a]) (groups ++ [g]) where
  keys_nodup := by
    rw [List.map_append, List.map_singleton, List.nodup_append]
    refine ⟨h.keys_nodup, List.nodup_singleton _, ?_⟩
    intro k hk k' hk' e
    obtain ⟨g', hg', rfl⟩ := List.mem_map.mp hk
    exact hnew g' hg' (e.trans (List.mem_singleton.mp hk'))
  perm := by
    rw [List.flatMap_append, List.flatMap_singleton, hrows]
    exact h.perm.append_right [a]
  key_eq := by
    intro g' hg' b hb
    rcases List.mem_append.mp hg' with hg' | hg'
    · exact h.key_eq g' hg' b hb
    · obtain rfl := List.mem_singleton.mp hg'
      rw [hrows] at hb
      rw [List.mem_singleton.mp hb, hof]

/-- An element leaves its group. -/
theorem remove [DecidableEq α] (h : IsPartition key rows of all groups) {i p : Nat} {g : γ}
    (hi : groups[i]? = some g) {f : γ → γ} {a : α} (hp : (rows g)[p]? = some a)
    (hkey : key (f g) = key g) (hrows : rows (f g) = (rows g).eraseIdx p) :
    IsPartition key rows of (all.erase a) (groups.modify i f) := by
  refine h.modify hi hkey ?_ fun b hb => ?_
  · have hall : (a :: ((groups.modify i f).flatMap rows)).Perm all := by
      refine List.Perm.trans ?_ h.perm
      obtain ⟨pre, post, rfl, hlen⟩ := exists_split hi
      rw [modify_split hlen]
      obtain ⟨u, v, hu, hul⟩ := exists_split hp
      simp only [List.flatMap_append, List.flatMap_cons, hrows, hu, eraseIdx_split hul,
        List.append_assoc]
      refine List.perm_middle.symm.trans ?_
      refine List.Perm.append_left _ ?_
      exact List.perm_middle.symm
    exact (List.cons_perm_iff_perm_erase.mp hall).2
  · rw [hrows] at hb
    exact h.key_eq g (List.mem_of_getElem? hi) b (List.mem_of_mem_eraseIdx hb)

/-- An empty group can go. -/
theorem drop (h : IsPartition key rows of all groups) {i : Nat} {g : γ} (hi : groups[i]? = some g)
    (hrows : rows g = []) : IsPartition key rows of all (groups.eraseIdx i) where
  keys_nodup := h.keys_nodup.sublist ((List.eraseIdx_sublist groups i).map key)
  perm := by
    refine List.Perm.trans (List.Perm.of_eq ?_) h.perm
    obtain ⟨pre, post, rfl, hlen⟩ := exists_split hi
    rw [eraseIdx_split hlen]
    simp only [List.flatMap_append, List.flatMap_cons, hrows, List.nil_append]
  key_eq g' hg' := h.key_eq g' (List.mem_of_mem_eraseIdx hg')

end IsPartition

end Qiftop.Lib
