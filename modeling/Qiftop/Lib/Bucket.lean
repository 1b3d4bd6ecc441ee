import Qiftop.Lib.Hash

/-!
# Lib — buckets

A list distributed over buckets by key, in one pass: each element goes to the end of the bucket of its
key, and keys are noted when they first turn up.  A bucket is the list filtered by its key
(`lookup_buckets`), so it keeps the list's order; the keys noted are the keys of the list, each once
(`nodup_firstSeen`, `mem_firstSeen`).
-/

namespace Qiftop.Lib

structure Buckets (K α : Type) [DecidableEq K] where
  firstSeen : List K
  buckets : Hash K (List α)

namespace Buckets
variable {K α : Type} [DecidableEq K] (key : α → K)

def add (b : Buckets K α) (a : α) : Buckets K α where
  firstSeen := if key a ∈ b.buckets then b.firstSeen else b.firstSeen ++ [key a]
  buckets := b.buckets.insert (key a) ((b.buckets.lookup (key a)).getD [] ++ [a])

def ofList (l : List α) : Buckets K α := l.foldl (add key) ⟨[], ∅⟩

theorem ofList_concat (l : List α) (a : α) : ofList key (l ++ [a]) = add key (ofList key l) a := by
  simp [ofList]

theorem buckets_ofList (l : List α) :
    (ofList key l).buckets = Hash.upsertAll key (fun bucket a => bucket ++ [a]) [] l ∅ := by
  induction l using List.reverseRecOn with
  | nil => rfl
  | append_singleton l a ih => rw [ofList_concat, Hash.upsertAll_concat, add, ih]

/-- **A bucket** is what the list has of its key. -/
theorem lookup_buckets (l : List α) (k : K) :
    ((ofList key l).buckets.lookup k).getD [] = l.filter fun a => key a = k := by
  have happend : ∀ l acc : List α, l.foldl (fun bucket a => bucket ++ [a]) acc = acc ++ l := by
    intro l
    induction l with
    | nil => simp
    | cons a l ih => simp [ih]
  rw [buckets_ofList, Hash.lookup_upsertAll]
  split
  · rw [happend]
    simp
  · rename_i hk
    rw [List.filter_eq_nil_iff.mpr]
    · rfl
    · intro a ha e
      exact hk (List.mem_map.mpr ⟨a, ha, by simpa using e⟩)

theorem mem_buckets (l : List α) (k : K) : k ∈ (ofList key l).buckets ↔ k ∈ l.map key := by
  rw [← AList.lookup_isSome, buckets_ofList, Hash.lookup_upsertAll]
  split <;> simp_all

/-- The keys noted are the keys of the list. -/
theorem mem_firstSeen (l : List α) (k : K) : k ∈ (ofList key l).firstSeen ↔ k ∈ l.map key := by
  induction l using List.reverseRecOn with
  | nil => simp [ofList]
  | append_singleton l a ih =>
      rw [ofList_concat, add]
      dsimp only
      split
      · rename_i hmem
        rw [mem_buckets] at hmem
        rw [ih, List.map_append, List.mem_append]
        refine ⟨.inl, fun h => h.elim id fun hk => ?_⟩
        rw [List.mem_singleton.mp hk]
        exact hmem
      · rw [List.mem_append, ih, List.map_append, List.mem_append]
        rfl

/-- Each is noted once. -/
theorem nodup_firstSeen (l : List α) : (ofList key l).firstSeen.Nodup := by
  induction l using List.reverseRecOn with
  | nil => exact List.nodup_nil
  | append_singleton l a ih =>
      rw [ofList_concat, add]
      dsimp only
      split
      · exact ih
      · rename_i hmem
        rw [mem_buckets, ← mem_firstSeen] at hmem
        exact List.nodup_append.mpr ⟨ih, List.nodup_singleton _, fun k hk k' hk' e =>
          hmem (List.mem_singleton.mp hk' ▸ e ▸ hk)⟩

end Buckets

end Qiftop.Lib
