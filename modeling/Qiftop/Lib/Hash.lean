import Mathlib.Data.List.AList
import Mathlib.Data.Finset.Card
import Mathlib.Data.List.Induction
import Mathlib.Algebra.BigOperators.Group.List.Basic
import Mathlib.Algebra.GroupWithZero.Nat

/-!
# Lib — hash tables

A hash table is Mathlib's `AList`: a list of entries whose keys are pairwise distinct.  A table
is read through `lookup`; what an iteration visits, and in which order, is `entries`.  The order
is the insertion order here and is left open by the containers this models, so the results below
are about `lookup` and about sums over the entries (`Hash.sum`), which do not depend on it.  Where
it shows, it is an argument (`Hash.Iteration`).

* `Hash.insertAll`, `Hash.indexBy`: a list inserted under its keys, the last element of a key
  winning.
* `Hash.upsertAll`: a list whose elements each update the entry of their key.
* `Hash.positions`: each element's position under its key.
* `Hash.filterMap`, `Hash.map`: erasing and rewriting entries while iterating.
* `Hash.sum`: a sum over the values, with its laws under `insert` and `filterMap`.
-/

namespace Qiftop.Lib

/-- A hash table from `K` to `V`. -/
abbrev Hash (K V : Type) := AList (fun _ : K => V)

namespace Hash

variable {K V W α M : Type} [DecidableEq K]

/-- The values, in iteration order. -/
def values (h : Hash K V) : List V := h.entries.map Sigma.snd

/-- An order that what an iteration visits may come in instead. -/
structure Iteration (α : Type) where
  order : List α → List α
  perm : ∀ l, (order l).Perm l

def Iteration.asInserted : Iteration α := ⟨id, fun _ => .rfl⟩

def Iteration.backwards : Iteration α := ⟨List.reverse, List.reverse_perm⟩

/-- Two tables with the same lookups hold the same entries. -/
theorem entries_perm_of_lookup {h₁ h₂ : Hash K V} (e : ∀ k, h₁.lookup k = h₂.lookup k) :
    h₁.entries.Perm h₂.entries :=
  List.lookup_ext h₁.nodupKeys h₂.nodupKeys fun k v => by
    have := e k
    simp only [AList.lookup] at this
    rw [this]

theorem mem_of_lookup {h : Hash K V} {k : K} {v : V} (e : h.lookup k = some v) : k ∈ h :=
  AList.lookup_isSome.mp (by rw [e]; rfl)

theorem exists_lookup {h : Hash K V} {k : K} (e : k ∈ h) : ∃ v, h.lookup k = some v :=
  Option.isSome_iff_exists.mp (AList.lookup_isSome.mpr e)

theorem keys_eq_nil {h : Hash K V} (hnone : ∀ k v, h.lookup k ≠ some v) : h.keys = [] := by
  rw [List.eq_nil_iff_forall_not_mem]
  intro k hk
  obtain ⟨v, hv⟩ := exists_lookup (AList.mem_keys.mp hk)
  exact hnone k v hv

theorem lookup_insert_ite (h : Hash K V) (k k' : K) (v : V) :
    (h.insert k' v).lookup k = if k = k' then some v else h.lookup k := by
  split
  · next e => subst e; exact AList.lookup_insert h
  · next e => exact AList.lookup_insert_ne e

/-- An insertion makes a table larger by a new key. -/
theorem length_keys_insert (h : Hash K V) (k : K) (v : V) :
    (h.insert k v).keys.length = if k ∈ h then h.keys.length else h.keys.length + 1 := by
  rw [AList.keys_insert, List.length_cons]
  split
  · next hk =>
      have hlen := List.length_erase_of_mem (AList.mem_keys.mp hk)
      have hpos := List.length_pos_of_mem (AList.mem_keys.mp hk)
      omega
  · next hk => rw [List.erase_of_not_mem hk]

/-- A table is no larger than a set that holds its keys. -/
theorem length_keys_le_card {h : Hash K V} {s : Finset K} (hs : ∀ k ∈ h, k ∈ s) :
    h.keys.length ≤ s.card := by
  rw [← List.toFinset_card_of_nodup h.keys_nodup]
  exact Finset.card_le_card fun k hk => hs k (AList.mem_keys.mp (List.mem_toFinset.mp hk))

theorem mem_entries_iff {h : Hash K V} {k : K} {v : V} :
    (⟨k, v⟩ : Sigma fun _ : K => V) ∈ h.entries ↔ h.lookup k = some v :=
  (AList.mem_lookup_iff (s := h)).symm

theorem mem_values_iff {h : Hash K V} {v : V} : v ∈ values h ↔ ∃ k, h.lookup k = some v := by
  simp only [values, List.mem_map]
  constructor
  · rintro ⟨⟨k, w⟩, hm, rfl⟩; exact ⟨k, mem_entries_iff.mp hm⟩
  · rintro ⟨k, hk⟩; exact ⟨⟨k, v⟩, mem_entries_iff.mpr hk, rfl⟩

/-! ### Inserting a list -/

/-- The elements of `l` inserted from the front, `a` as `v a` under the key `f a`. -/
def insertAll (f : α → K) (v : α → V) (l : List α) (h : Hash K V) : Hash K V :=
  l.foldl (fun h a => h.insert (f a) (v a)) h

theorem insertAll_concat (f : α → K) (v : α → V) (l : List α) (a : α) (h : Hash K V) :
    insertAll f v (l ++ [a]) h = (insertAll f v l h).insert (f a) (v a) := by
  simp [insertAll]

/-- A lookup finds the last element of the key, failing that what was there. -/
theorem lookup_insertAll (f : α → K) (v : α → V) (l : List α) (h : Hash K V) (k : K) :
    (insertAll f v l h).lookup k =
      match l.reverse.find? (fun a => f a = k) with
      | some a => some (v a)
      | none => h.lookup k := by
  induction l using List.reverseRecOn with
  | nil => rfl
  | append_singleton l a ih =>
      rw [insertAll_concat, lookup_insert_ite, ih]
      by_cases e : k = f a
      · simp [e]
      · have e' : ¬ f a = k := fun h => e h.symm
        simp [e, e']

theorem lookup_insertAll_of_notMem {f : α → K} {v : α → V} {l : List α} {h : Hash K V} {k : K}
    (hk : k ∉ l.map f) : (insertAll f v l h).lookup k = h.lookup k := by
  have hn : l.reverse.find? (fun a => f a = k) = none := by
    rw [List.find?_eq_none]
    intro a ha e
    exact hk (List.mem_map.mpr ⟨a, List.mem_reverse.mp ha, by simpa using e⟩)
  rw [lookup_insertAll, hn]

/-- With distinct keys every element is found. -/
theorem lookup_insertAll_of_mem {f : α → K} {v : α → V} {l : List α} {h : Hash K V}
    (hnd : (l.map f).Nodup) {a : α} (ha : a ∈ l) :
    (insertAll f v l h).lookup (f a) = some (v a) := by
  rw [lookup_insertAll]
  cases hf : l.reverse.find? (fun b => f b = f a) with
  | none =>
      have := List.find?_eq_none.mp hf a (List.mem_reverse.mpr ha)
      simp at this
  | some b =>
      have hb : f b = f a := by simpa using List.find?_some hf
      have hbl : b ∈ l := List.mem_reverse.mp (List.mem_of_find?_eq_some hf)
      rw [List.inj_on_of_nodup_map hnd hbl ha hb]

/-! ### Updating by key -/

/-- Each element of `l`, from the front, updates the entry of its key, which starts as `d`. -/
def upsertAll (f : α → K) (op : V → α → V) (d : V) (l : List α) (h : Hash K V) : Hash K V :=
  l.foldl (fun h a => h.insert (f a) (op ((h.lookup (f a)).getD d) a)) h

theorem upsertAll_concat (f : α → K) (op : V → α → V) (d : V) (l : List α) (a : α)
    (h : Hash K V) :
    upsertAll f op d (l ++ [a]) h =
      (upsertAll f op d l h).insert (f a) (op (((upsertAll f op d l h).lookup (f a)).getD d) a) := by
  simp [upsertAll]

/-- An entry is updated by the elements of its key, in order, and by no others. -/
theorem lookup_upsertAll (f : α → K) (op : V → α → V) (d : V) (l : List α) (h : Hash K V) (k : K) :
    (upsertAll f op d l h).lookup k =
      if k ∈ l.map f then
        some ((l.filter fun a => f a = k).foldl op ((h.lookup k).getD d))
      else h.lookup k := by
  induction l using List.reverseRecOn with
  | nil => simp [upsertAll]
  | append_singleton l a ih =>
      rw [upsertAll_concat, lookup_insert_ite, List.map_append, List.filter_append,
        List.foldl_append]
      by_cases e : k = f a
      · subst e
        have hm : f a ∈ l.map f ++ [a].map f := by simp
        rw [if_pos rfl, if_pos hm, ih]
        by_cases hk : f a ∈ l.map f
        · rw [if_pos hk]
          simp
        · have hnil : (l.filter fun b => f b = f a) = [] := by
            rw [List.filter_eq_nil_iff]
            intro b hb e
            exact hk (List.mem_map.mpr ⟨b, hb, by simpa using e⟩)
          rw [if_neg hk, hnil]
          simp
      · have e' : ¬ f a = k := fun h => e h.symm
        have hm : k ∈ l.map f ++ [a].map f ↔ k ∈ l.map f := by simp [e]
        rw [if_neg e, ih]
        simp only [hm]
        simp [e']

/-- With distinct keys every element updates an entry of the old table. -/
theorem upsertAll_eq_insertAll {f : α → K} {l : List α} (hnd : (l.map f).Nodup) (op : V → α → V)
    (d : V) (h : Hash K V) :
    upsertAll f op d l h = insertAll f (fun a => op ((h.lookup (f a)).getD d) a) l h := by
  induction l using List.reverseRecOn with
  | nil => rfl
  | append_singleton l a ih =>
      rw [List.map_append, List.nodup_append] at hnd
      obtain ⟨hnd, -, hdis⟩ := hnd
      have ha : f a ∉ l.map f := fun hm => hdis _ hm (f a) (by simp) rfl
      rw [upsertAll_concat, insertAll_concat, ih hnd, lookup_insertAll_of_notMem ha]

/-! ### Indexing a list -/

/-- The elements of `l` under their keys; a later element replaces an earlier one. -/
def indexBy (f : α → K) (l : List α) : Hash K α := insertAll f id l ∅

/-- A lookup finds the last element of the key. -/
theorem lookup_indexBy (f : α → K) (l : List α) (k : K) :
    (indexBy f l).lookup k = l.reverse.find? (fun a => f a = k) := by
  rw [indexBy, lookup_insertAll]
  cases l.reverse.find? (fun a => f a = k) <;> rfl

theorem mem_indexBy {f : α → K} {l : List α} {k : K} : k ∈ indexBy f l ↔ k ∈ l.map f := by
  rw [← AList.lookup_isSome, lookup_indexBy]
  simp [List.find?_isSome]

/-- What a lookup finds is an element of the list, under its own key. -/
theorem lookup_indexBy_some {f : α → K} {l : List α} {k : K} {a : α}
    (h : (indexBy f l).lookup k = some a) : a ∈ l ∧ f a = k := by
  rw [lookup_indexBy] at h
  exact ⟨List.mem_reverse.mp (List.mem_of_find?_eq_some h), by simpa using List.find?_some h⟩

/-- With distinct keys every element is found. -/
theorem lookup_indexBy_of_nodup {f : α → K} {l : List α} (hnd : (l.map f).Nodup) {a : α}
    (ha : a ∈ l) : (indexBy f l).lookup (f a) = some a :=
  lookup_insertAll_of_mem hnd ha

/-! ### Indexing positions -/

/-- The position of each element under its key, filled from the front. -/
def positions (f : α → K) (l : List α) : Hash K Nat :=
  l.zipIdx.foldl (fun h e => h.insert (f e.1) e.2) ∅

theorem positions_concat (f : α → K) (l : List α) (a : α) :
    positions f (l ++ [a]) = (positions f l).insert (f a) l.length := by
  simp [positions, List.zipIdx_append]

/-- Positions depend on the keys only. -/
theorem positions_congr {β : Type} {f : α → K} {g : β → K} {l : List α} {l' : List β}
    (h : l.map f = l'.map g) : positions f l = positions g l' := by
  have e : ∀ {γ : Type} (f : γ → K) (l : List γ), positions f l = positions id (l.map f) := by
    intro γ f l
    simp only [positions, List.zipIdx_map, List.foldl_map, id]
    rfl
  rw [e f l, e g l', h]

theorem mem_positions {f : α → K} {l : List α} {k : K} : k ∈ positions f l ↔ k ∈ l.map f := by
  induction l using List.reverseRecOn with
  | nil => simp [positions]
  | append_singleton l a ih =>
      rw [positions_concat, AList.mem_insert, ih]
      simp [or_comm]

/-- A lookup finds a position of the key. -/
theorem lookup_positions_some {f : α → K} {l : List α} {k : K} {i : Nat}
    (h : (positions f l).lookup k = some i) : ∃ a, l[i]? = some a ∧ f a = k := by
  induction l using List.reverseRecOn with
  | nil => simp [positions] at h
  | append_singleton l b ih =>
      rw [positions_concat, lookup_insert_ite] at h
      split at h
      · next e =>
          obtain rfl := Option.some.inj h
          exact ⟨b, by simp, e.symm⟩
      · obtain ⟨a, ha, hk⟩ := ih h
        exact ⟨a, List.getElem?_append_left (List.getElem?_eq_some_iff.mp ha).1 ▸ ha, hk⟩

/-- With distinct keys a lookup finds exactly the position of the key's element. -/
theorem lookup_positions {f : α → K} {l : List α} (hnd : (l.map f).Nodup) (k : K) (i : Nat) :
    (positions f l).lookup k = some i ↔ ∃ a, l[i]? = some a ∧ f a = k := by
  induction l using List.reverseRecOn with
  | nil => simp [positions]
  | append_singleton l b ih =>
      rw [List.map_append, List.nodup_append] at hnd
      obtain ⟨hnd, -, hdis⟩ := hnd
      -- the last key is new, so no earlier position is overwritten
      have hb : ∀ a ∈ l, f a ≠ f b := fun a h => hdis _ (List.mem_map_of_mem h) _ (by simp)
      have hlast : ∀ a, (l ++ [b])[i]? = some a ↔ l[i]? = some a ∨ i = l.length ∧ a = b := by
        intro a
        rcases Nat.lt_trichotomy i l.length with hi | hi | hi
        · rw [List.getElem?_append_left hi]
          exact ⟨Or.inl, fun h => h.elim id fun h => absurd h.1 hi.ne⟩
        · subst hi
          simp [eq_comm]
        · have hn : l[i]? = none := List.getElem?_eq_none hi.le
          have hn' : (l ++ [b])[i]? = none :=
            List.getElem?_eq_none (by rw [List.length_append]; exact hi)
          rw [hn, hn']
          exact ⟨fun h => (nomatch h), fun h => h.elim id fun h => absurd h.1 hi.ne'⟩
      rw [positions_concat, lookup_insert_ite]
      by_cases e : k = f b
      · subst e
        rw [if_pos rfl, Option.some.injEq]
        constructor
        · rintro rfl
          exact ⟨b, (hlast b).mpr (.inr ⟨rfl, rfl⟩), rfl⟩
        · rintro ⟨a, ha, hk⟩
          rcases (hlast a).mp ha with ha' | ⟨hi, -⟩
          · exact absurd hk (hb a (List.mem_of_getElem? ha'))
          · exact hi.symm
      · rw [if_neg e, ih hnd]
        constructor
        · rintro ⟨a, ha, hk⟩
          exact ⟨a, (hlast a).mpr (.inl ha), hk⟩
        · rintro ⟨a, ha, hk⟩
          rcases (hlast a).mp ha with ha' | ⟨-, rfl⟩
          · exact ⟨a, ha', hk⟩
          · exact absurd hk.symm e

/-! ### Iterating -/

section Iterate
variable {T X : Type} (I : T → Prop) (op : T → K → V → T) (read : T → X) (eff : V → X → X) {k : K}

omit [DecidableEq K] in
theorem read_foldl_of_notMem {l : List (Sigma fun _ : K => V)} (hk : k ∉ l.keys)
    (hI : ∀ t, ∀ e ∈ l, I t → I (op t e.1 e.2))
    (hother : ∀ t, ∀ e ∈ l, e.1 ≠ k → I t → read (op t e.1 e.2) = read t) {t : T} (ht : I t) :
    read (l.foldl (fun t e => op t e.1 e.2) t) = read t := by
  induction l generalizing t with
  | nil => rfl
  | cons e l ih =>
      have hne : e.1 ≠ k := fun h => hk (by simp [h])
      rw [List.foldl_cons, ih (fun h => hk (List.mem_cons_of_mem _ h))
        (fun t e' he' => hI t e' (List.mem_cons_of_mem _ he'))
        (fun t e' he' => hother t e' (List.mem_cons_of_mem _ he')) (hI t e List.mem_cons_self ht),
        hother t e List.mem_cons_self hne ht]

/-- An iteration in which each entry changes what is read of its own key only. -/
theorem read_foldl_entries (h : Hash K V) (hI : ∀ t, ∀ e ∈ h.entries, I t → I (op t e.1 e.2))
    (hself : ∀ t v, h.lookup k = some v → I t → read (op t k v) = eff v (read t))
    (hother : ∀ t, ∀ e ∈ h.entries, e.1 ≠ k → I t → read (op t e.1 e.2) = read t) {t : T} (ht : I t) :
    read (h.entries.foldl (fun t e => op t e.1 e.2) t) =
      (h.lookup k).elim (read t) fun v => eff v (read t) := by
  obtain ⟨l, hnd⟩ := h
  dsimp only [AList.lookup] at *
  induction l generalizing t with
  | nil => rfl
  | cons e l ih =>
      obtain ⟨k', v⟩ := e
      rw [List.nodupKeys_cons] at hnd
      have hI' : ∀ t, ∀ e ∈ l, I t → I (op t e.1 e.2) := fun t e he => hI t e (List.mem_cons_of_mem _ he)
      have hother' : ∀ t, ∀ e ∈ l, e.1 ≠ k → I t → read (op t e.1 e.2) = read t :=
        fun t e he => hother t e (List.mem_cons_of_mem _ he)
      have ht' := hI t ⟨k', v⟩ List.mem_cons_self ht
      rw [List.foldl_cons]
      by_cases hk : k' = k
      · subst hk
        rw [read_foldl_of_notMem I op read hnd.1 hI' hother' ht', List.dlookup_cons_eq]
        exact hself t v (List.dlookup_cons_eq l k' v) ht
      · have hlookup : List.dlookup k (⟨k', v⟩ :: l) = List.dlookup k l :=
          List.dlookup_cons_ne l ⟨k', v⟩ fun h => hk h.symm
        rw [hlookup] at hself ⊢
        rw [ih ht' hnd.2 hI' hself hother', hother t ⟨k', v⟩ List.mem_cons_self hk ht]

omit [DecidableEq K] in
/-- An iteration keeps what its steps keep. -/
theorem foldl_entries_invariant (h : Hash K V) (hI : ∀ t, ∀ e ∈ h.entries, I t → I (op t e.1 e.2))
    {t : T} (ht : I t) : I (h.entries.foldl (fun t e => op t e.1 e.2) t) :=
  List.foldlRecOn h.entries _ ht fun t ht e he => hI t e he ht

end Iterate

/-! ### Erasing and rewriting while iterating -/

/-- The entries `f` keeps, rewritten. -/
def filterMap (f : K → V → Option W) (h : Hash K V) : Hash K W where
  entries := h.entries.filterMap fun e => (f e.1 e.2).map (Sigma.mk e.1)
  nodupKeys := by
    rw [List.nodupKeys_iff_pairwise]
    refine List.Pairwise.filterMap _ ?_ (List.nodupKeys_iff_pairwise.mp h.nodupKeys)
    rintro ⟨k, v⟩ ⟨k', v'⟩ hne b hb b' hb'
    simp only [Option.map_eq_some_iff] at hb hb'
    obtain ⟨w, -, rfl⟩ := hb
    obtain ⟨w', -, rfl⟩ := hb'
    exact hne

/-- An entry that is kept comes from an entry of the same key. -/
theorem mem_entries_filterMap {f : K → V → Option W} {h : Hash K V} {k : K} {w : W} :
    (⟨k, w⟩ : Sigma fun _ : K => W) ∈ (filterMap f h).entries ↔
      ∃ v, h.lookup k = some v ∧ f k v = some w := by
  simp only [filterMap, List.mem_filterMap, Option.map_eq_some_iff]
  constructor
  · rintro ⟨⟨k', v⟩, hm, w', hf, he⟩
    cases he
    exact ⟨v, mem_entries_iff.mp hm, hf⟩
  · rintro ⟨v, hv, hf⟩
    exact ⟨⟨k, v⟩, mem_entries_iff.mpr hv, w, hf, rfl⟩

theorem lookup_filterMap (f : K → V → Option W) (h : Hash K V) (k : K) :
    (filterMap f h).lookup k = (h.lookup k).bind (f k) := by
  refine Option.ext fun w => ?_
  rw [← mem_entries_iff, mem_entries_filterMap, Option.bind_eq_some_iff]

theorem mem_filterMap {f : K → V → Option W} {h : Hash K V} {k : K} :
    k ∈ filterMap f h ↔ ∃ v, h.lookup k = some v ∧ (f k v).isSome := by
  rw [← AList.lookup_isSome, lookup_filterMap]
  cases h.lookup k <;> simp

theorem length_keys_filterMap_le (f : K → V → Option W) (h : Hash K V) :
    (filterMap f h).keys.length ≤ h.keys.length := by
  have hcard := length_keys_le_card (h := filterMap f h) (s := h.keys.toFinset) fun k hk => by
    obtain ⟨v, hv, -⟩ := mem_filterMap.mp hk
    exact List.mem_toFinset.mpr (AList.mem_keys.mp (mem_of_lookup hv))
  rwa [List.toFinset_card_of_nodup h.keys_nodup] at hcard

/-! ### Rewriting every value -/

/-- Each value rewritten, in its place. -/
def map (f : V → W) (h : Hash K V) : Hash K W := filterMap (fun _ v => some (f v)) h

omit [DecidableEq K] in
theorem entries_map (f : V → W) (h : Hash K V) :
    (map f h).entries = h.entries.map fun e => ⟨e.1, f e.2⟩ := by
  simp [map, filterMap]

omit [DecidableEq K] in
@[simp] theorem map_empty (f : V → W) : map f (∅ : Hash K V) = ∅ := rfl

@[simp] theorem lookup_map (f : V → W) (h : Hash K V) (k : K) :
    (map f h).lookup k = (h.lookup k).map f := by
  rw [map, lookup_filterMap]
  cases h.lookup k <;> rfl

@[simp] theorem mem_map {f : V → W} {h : Hash K V} {k : K} : k ∈ map f h ↔ k ∈ h := by
  rw [← AList.lookup_isSome, ← AList.lookup_isSome, lookup_map, Option.isSome_map]

theorem map_insert (f : V → W) (h : Hash K V) (k : K) (v : V) :
    map f (h.insert k v) = (map f h).insert k (f v) := by
  refine AList.ext ?_
  simp only [entries_map, AList.entries_insert, List.map_cons, List.kerase, List.eraseP_map]
  rfl

/-- Rewriting commutes with indexing when it keeps the keys. -/
theorem map_indexBy {f : α → K} {g : α → α} (hg : ∀ a, f (g a) = f a) (l : List α) :
    map g (indexBy f l) = indexBy f (l.map g) := by
  induction l using List.reverseRecOn with
  | nil => rfl
  | append_singleton l a ih =>
      rw [indexBy, insertAll_concat, map_insert, List.map_append, List.map_singleton, indexBy,
        insertAll_concat, hg]
      exact congrArg (fun h => AList.insert (f a) (g a) h) ih

omit [DecidableEq K] in
/-- Rewriting commutes with erasing when both agree on what stays. -/
theorem filterMap_map {X Y : Type} {f : V → W} {F : K → V → Option X} {F' : K → W → Option Y} {g : X → Y}
    (hF : ∀ k v, F' k (f v) = (F k v).map g) (h : Hash K V) :
    filterMap F' (map f h) = map g (filterMap F h) := by
  refine AList.ext ?_
  rw [entries_map]
  simp only [filterMap, entries_map, List.filterMap_map, List.map_filterMap]
  refine List.filterMap_congr fun e _ => ?_
  simp only [Function.comp_apply, hF, Option.map_map]
  rfl

omit [DecidableEq K] in
theorem values_map (f : V → W) (h : Hash K V) : values (map f h) = (values h).map f := by
  simp only [values, entries_map, List.map_map]
  rfl

/-! ### Sums over the values -/

section Sum
variable [AddCommMonoid M] (g : V → M)

/-- The sum of `g` over the values. -/
def sum (h : Hash K V) : M := ((values h).map g).sum

theorem sum_congr_lookup {h₁ h₂ : Hash K V} (e : ∀ k, h₁.lookup k = h₂.lookup k) :
    sum g h₁ = sum g h₂ := by
  have p := (entries_perm_of_lookup e).map fun x => g x.2
  simpa [sum, values, Function.comp_def] using p.sum_eq

theorem sum_insert_of_notMem {h : Hash K V} {k : K} (hk : k ∉ h) (v : V) :
    sum g (h.insert k v) = g v + sum g h := by
  have he : (h.insert k v).entries = ⟨k, v⟩ :: h.entries := AList.entries_insert_of_notMem hk
  simp only [sum, values, he, List.map_cons, List.sum_cons]

/-- Taking the entry of `k` out of the sum. -/
theorem sum_erase_add {h : Hash K V} {k : K} {v : V} (e : h.lookup k = some v) :
    g v + sum g (h.erase k) = sum g h := by
  have hk : k ∉ h.erase k := fun hm => (AList.mem_erase.mp hm).1 rfl
  rw [← sum_insert_of_notMem g hk v]
  refine sum_congr_lookup g fun k' => ?_
  rw [lookup_insert_ite]
  split
  · next h' => rw [h', e]
  · next h' => exact AList.lookup_erase_ne h'

/-- Replacing the entry of `k`. -/
theorem sum_insert_of_lookup {h : Hash K V} {k : K} {v : V} (e : h.lookup k = some v) (w : V) :
    sum g (h.insert k w) + g v = g w + sum g h := by
  have hk : k ∉ h.erase k := fun hm => (AList.mem_erase.mp hm).1 rfl
  have hins : sum g (h.insert k w) = g w + sum g (h.erase k) := by
    rw [← sum_insert_of_notMem g hk w]
    refine sum_congr_lookup g fun k' => ?_
    rw [lookup_insert_ite, lookup_insert_ite]
    split
    · rfl
    · next h' => exact (AList.lookup_erase_ne h').symm
  rw [hins, ← sum_erase_add g e, add_assoc, add_comm (sum g (h.erase k))]

/-- The value of a key in a sum, zero when the key is absent. -/
def at' (h : Hash K V) (k : K) : M := (h.lookup k).elim 0 g

/-- Inserting a list with distinct keys replaces the keys' old values by the new ones. -/
theorem sum_insertAll {f : α → K} {v : α → V} {l : List α} (hnd : (l.map f).Nodup)
    (h : Hash K V) :
    sum g (insertAll f v l h) + (l.map fun a => at' g h (f a)).sum =
      sum g h + (l.map fun a => g (v a)).sum := by
  induction l using List.reverseRecOn with
  | nil => simp [insertAll]
  | append_singleton l a ih =>
      rw [List.map_append, List.nodup_append] at hnd
      obtain ⟨hnd, -, hdis⟩ := hnd
      have ha : f a ∉ l.map f := fun hm => hdis _ hm (f a) (by simp) rfl
      have hold : (insertAll f v l h).lookup (f a) = h.lookup (f a) :=
        lookup_insertAll_of_notMem ha
      -- no earlier insertion had this key, so this one replaces what `h` holds
      have hstep : sum g ((insertAll f v l h).insert (f a) (v a)) + at' g h (f a) =
          g (v a) + sum g (insertAll f v l h) := by
        cases hl : h.lookup (f a) with
        | none =>
            have hn : f a ∉ insertAll f v l h := AList.lookup_eq_none.mp (hold.trans hl)
            rw [sum_insert_of_notMem g hn, at', hl, Option.elim_none, add_zero]
        | some w =>
            rw [at', hl, Option.elim_some]
            exact sum_insert_of_lookup g (hold.trans hl) (v a)
      rw [insertAll_concat, List.map_append, List.map_append, List.sum_append, List.sum_append,
        List.map_singleton, List.map_singleton, List.sum_singleton, List.sum_singleton]
      calc sum g ((insertAll f v l h).insert (f a) (v a)) +
            ((l.map fun a => at' g h (f a)).sum + at' g h (f a))
          = (sum g ((insertAll f v l h).insert (f a) (v a)) + at' g h (f a)) +
              (l.map fun a => at' g h (f a)).sum := by ac_rfl
        _ = g (v a) + (sum g (insertAll f v l h) + (l.map fun a => at' g h (f a)).sum) := by
              rw [hstep, add_assoc]
        _ = sum g h + ((l.map fun a => g (v a)).sum + g (v a)) := by
              rw [ih hnd]; ac_rfl

/-- A sum over the values is a sum over the keys. -/
theorem sum_keys (h : Hash K V) : (h.keys.map (at' g h)).sum = sum g h := by
  have e : h.entries.map (fun x => at' g h x.1) = h.entries.map fun x => g x.2 :=
    List.map_congr_left fun x hx => by
      have hl : h.lookup x.1 = some x.2 := mem_entries_iff.mp hx
      rw [at', hl, Option.elim_some]
  rw [AList.keys, List.keys, List.map_map, sum, values, List.map_map]
  exact congrArg List.sum e

omit [DecidableEq K] in
/-- A sum split into the entries a predicate keeps and those it erases. -/
theorem sum_filter_add (p : K → V → Bool) (h : Hash K V) :
    sum g (filterMap (fun k v => if p k v then some v else none) h) +
      sum g (filterMap (fun k v => if p k v then none else some v) h) = sum g h := by
  simp only [sum, values, filterMap]
  induction h.entries with
  | nil => simp
  | cons e l ih =>
      simp only [List.filterMap_cons, List.map_cons, List.sum_cons, ← ih]
      cases hp : p e.1 e.2 with
      | true =>
          simp only [if_true, Option.map_some, Option.map_none, List.map_cons, List.sum_cons]
          rw [add_assoc]
      | false =>
          simp only [Bool.false_eq_true, if_false, Option.map_some, Option.map_none,
            List.map_cons, List.sum_cons]
          rw [add_left_comm]

end Sum

/-- The values of distinct keys are part of the whole sum. -/
theorem sum_at_le {g : V → ℕ} {f : α → K} {l : List α} (hnd : (l.map f).Nodup) (h : Hash K V) :
    (l.map fun a => at' g h (f a)).sum ≤ sum g h := by
  induction l generalizing h with
  | nil => exact Nat.zero_le _
  | cons a l ih =>
      rw [List.map_cons, List.nodup_cons] at hnd
      have hne : ∀ b ∈ l, f b ≠ f a := fun b hb e => hnd.1 (e ▸ List.mem_map_of_mem hb)
      have hrest : (l.map fun b => at' g h (f b)) = l.map fun b => at' g (h.erase (f a)) (f b) :=
        List.map_congr_left fun b hb => by rw [at', at', AList.lookup_erase_ne (hne b hb)]
      rw [List.map_cons, List.sum_cons, hrest]
      cases hl : h.lookup (f a) with
      | none =>
          have hsum : sum g (h.erase (f a)) = sum g h :=
            sum_congr_lookup g fun k => by
              by_cases e : k = f a
              · rw [e, AList.lookup_erase, hl]
              · exact AList.lookup_erase_ne e
          rw [at', hl, Option.elim_none, Nat.zero_add, ← hsum]
          exact ih hnd.2 _
      | some v =>
          rw [at', hl, Option.elim_some, ← sum_erase_add g hl]
          exact Nat.add_le_add_left (ih hnd.2 _) _

/-! ### What indexing loses -/

theorem indexBy_concat (f : α → K) (l : List α) (a : α) :
    indexBy f (l ++ [a]) = (indexBy f l).insert (f a) a :=
  insertAll_concat f id l a ∅

/-- With distinct keys the values of an index are the list. -/
theorem values_indexBy_perm {f : α → K} {l : List α} (hnd : (l.map f).Nodup) :
    (values (indexBy f l)).Perm l := by
  induction l using List.reverseRecOn with
  | nil => exact .refl _
  | append_singleton l a ih =>
      rw [List.map_append, List.nodup_append] at hnd
      obtain ⟨hnd, -, hdis⟩ := hnd
      have hnew : f a ∉ indexBy f l := fun hm =>
        hdis _ (mem_indexBy.mp hm) (f a) (by simp) rfl
      have he : ((indexBy f l).insert (f a) a).entries = ⟨f a, a⟩ :: (indexBy f l).entries :=
        AList.entries_insert_of_notMem hnew
      rw [indexBy_concat, values, he, List.map_cons]
      exact ((ih hnd).cons a).trans (List.perm_append_singleton a l).symm

/-- An index sums to no more than the list. -/
theorem sum_indexBy_le (g : α → ℕ) (f : α → K) (l : List α) :
    sum g (indexBy f l) ≤ (l.map g).sum := by
  induction l using List.reverseRecOn with
  | nil => exact le_rfl
  | append_singleton l a ih =>
      rw [indexBy_concat, List.map_append, List.sum_append, List.map_singleton,
        List.sum_singleton]
      cases hl : (indexBy f l).lookup (f a) with
      | none =>
          rw [sum_insert_of_notMem g (AList.lookup_eq_none.mp hl)]
          omega
      | some b =>
          have hsum := sum_insert_of_lookup g hl a
          omega

/-- An element of the key found, other than the one found, comes before it. -/
theorem lookup_indexBy_replaced {g : α → ℕ} {f : α → K} {l : List α} {k : K} {b x : α}
    (hp : l.Pairwise fun a b => f a = f b → g a = 0) (hl : (indexBy f l).lookup k = some b)
    (hx : x ∈ l) (e : f x = k) (hne : x ≠ b) : g x = 0 := by
  rw [lookup_indexBy] at hl
  obtain ⟨hb, as, bs, hsplit, hno⟩ := List.find?_eq_some_iff_append.mp hl
  have hrev : l = bs.reverse ++ b :: as.reverse := by
    rw [← List.reverse_reverse l, hsplit]
    simp
  have hbk : f b = k := by simpa using hb
  rw [hrev, List.pairwise_append] at hp
  rw [hrev, List.mem_append, List.mem_cons, List.mem_reverse, List.mem_reverse] at hx
  rcases hx with hx | rfl | hx
  · exact hp.2.2 x (List.mem_reverse.mpr hx) b List.mem_cons_self (e.trans hbk.symm)
  · exact absurd rfl hne
  · exact absurd e (by simpa using hno x hx)

/-- **An index sums to the list exactly when every element that a later one of its key replaces
counts nothing.** -/
theorem sum_indexBy_eq_iff (g : α → ℕ) (f : α → K) (l : List α) :
    sum g (indexBy f l) = (l.map g).sum ↔ l.Pairwise fun a b => f a = f b → g a = 0 := by
  induction l using List.reverseRecOn with
  | nil => exact ⟨fun _ => .nil, fun _ => rfl⟩
  | append_singleton l a ih =>
      have hle := sum_indexBy_le g f l
      rw [indexBy_concat, List.map_append, List.sum_append, List.map_singleton,
        List.sum_singleton, List.pairwise_append]
      cases hl : (indexBy f l).lookup (f a) with
      | none =>
          -- a new key replaces nothing
          have hnew : ∀ x ∈ l, f x ≠ f a := fun x hx e =>
            AList.lookup_eq_none.mp hl (mem_indexBy.mpr (List.mem_map.mpr ⟨x, hx, e⟩))
          rw [sum_insert_of_notMem g (AList.lookup_eq_none.mp hl)]
          constructor
          · intro h
            refine ⟨ih.mp (by omega), List.pairwise_singleton _ _, fun x hx y hy e => ?_⟩
            rw [List.mem_singleton] at hy
            exact absurd (hy ▸ e) (hnew x hx)
          · rintro ⟨h, -, -⟩
            have := ih.mpr h
            omega
      | some b =>
          obtain ⟨hb, hkey⟩ := lookup_indexBy_some hl
          have hsum := sum_insert_of_lookup g hl a
          constructor
          · intro h
            have hl' : l.Pairwise fun a b => f a = f b → g a = 0 := ih.mp (by omega)
            have hb0 : g b = 0 := by omega
            refine ⟨hl', List.pairwise_singleton _ _, fun x hx y hy e => ?_⟩
            rw [List.mem_singleton] at hy
            subst hy
            -- `x` is the replaced element or one that `b` replaced before
            by_cases hxb : x = b
            · rw [hxb, hb0]
            · exact lookup_indexBy_replaced hl' hl hx e hxb
          · rintro ⟨h, -, hlast⟩
            have hl' := ih.mpr h
            have hb0 : g b = 0 := hlast b hb a (List.mem_singleton_self a) hkey
            omega

end Hash

end Qiftop.Lib
