import Mathlib.Data.List.Pairwise

/-!
# Lib — ranges of indexes

A set of indexes below `n` as a list of ranges, each as long as possible: `Covers n P rs`.  The rules
say how the list goes on when the next index is looked at, which is how a scan from left to right
builds it.
-/

namespace Qiftop.Lib

/-- The ranges `rs`, both ends included, are the indexes below `n` with `P`: they lie below `n`, from
left to right and with an index between any two. -/
structure Covers (n : Nat) (P : Nat → Prop) (rs : List (Int × Int)) : Prop where
  valid : ∀ r ∈ rs, 0 ≤ r.1 ∧ r.1 ≤ r.2 ∧ r.2 < n
  apart : rs.Pairwise fun r r' => r.2 + 1 < r'.1
  exact : ∀ i < n, (∃ r ∈ rs, r.1 ≤ i ∧ i ≤ r.2) ↔ P i

namespace Covers
variable {n : Nat} {P : Nat → Prop} {rs : List (Int × Int)} {first last : Int}

theorem exists_mem_concat {Q : Int × Int → Prop} {r : Int × Int} :
    (∃ r' ∈ rs ++ [r], Q r') ↔ (∃ r' ∈ rs, Q r') ∨ Q r := by
  simp [or_and_right, exists_or]

theorem zero : Covers 0 P [] := ⟨by simp, .nil, by simp⟩

/-- No range reaches the next index. -/
theorem not_reached (h : Covers n P rs) : ¬∃ r ∈ rs, r.1 ≤ n ∧ n ≤ r.2 := by
  rintro ⟨r, hr, -, hle⟩
  have := (h.valid r hr).2.2
  omega

/-- The next index is not one. -/
theorem skip (h : Covers n P rs) (hn : ¬P n) : Covers (n + 1) P rs := by
  refine ⟨fun r hr => ?_, h.apart, fun i hi => ?_⟩
  · have := h.valid r hr
    omega
  · rcases Nat.lt_succ_iff_lt_or_eq.mp hi with hlt | rfl
    · exact h.exact i hlt
    · exact iff_of_false h.not_reached hn

/-- The next index is the first one. -/
theorem start (h : Covers n P []) (hn : P n) : Covers (n + 1) P [((n : Int), (n : Int))] := by
  refine ⟨fun r hr => ?_, by simp, fun i hi => ?_⟩
  · obtain rfl := List.mem_singleton.mp hr
    dsimp only
    omega
  have hnone := h.exact i
  simp only [List.not_mem_nil, false_and, exists_false, false_iff] at hnone
  simp only [List.mem_singleton, exists_eq_left]
  constructor
  · intro hin
    obtain rfl : i = n := by omega
    exact hn
  · intro hP
    have : ¬i < n := fun hlt => hnone hlt hP
    omega

/-- The next index follows the last range. -/
theorem grow (h : Covers n P (rs ++ [(first, last)])) (hlast : last + 1 = n) (hn : P n) :
    Covers (n + 1) P (rs ++ [(first, (n : Int))]) := by
  obtain ⟨hrs, -, hgap⟩ := List.pairwise_append.mp h.apart
  refine ⟨fun r hr => ?_, List.pairwise_append.mpr ⟨hrs, by simp, fun r hr r' hr' => ?_⟩,
    fun i hi => ?_⟩
  · rcases List.mem_append.mp hr with hr | hr
    · have := h.valid r (by simp [hr])
      omega
    · obtain rfl := List.mem_singleton.mp hr
      have := h.valid (first, last) (by simp)
      dsimp only at this ⊢
      omega
  · obtain rfl := List.mem_singleton.mp hr'
    exact hgap r hr (first, last) (by simp)
  · have hbefore := h.exact i
    rw [exists_mem_concat] at hbefore ⊢
    rcases Nat.lt_succ_iff_lt_or_eq.mp hi with hlt | rfl
    · rw [← hbefore hlt]
      exact or_congr Iff.rfl (by dsimp only; omega)
    · have := h.valid (first, last) (by simp)
      exact iff_of_true (.inr (by dsimp only at this; omega)) hn

/-- The next index begins another range. -/
theorem jump (h : Covers n P (rs ++ [(first, last)])) (hlast : last + 1 ≠ n) (hn : P n) :
    Covers (n + 1) P (rs ++ [(first, last)] ++ [((n : Int), (n : Int))]) := by
  obtain ⟨-, -, hgap⟩ := List.pairwise_append.mp h.apart
  have hend := h.valid (first, last) (by simp)
  dsimp only at hend
  refine ⟨fun r hr => ?_, List.pairwise_append.mpr ⟨h.apart, by simp, fun r hr r' hr' => ?_⟩,
    fun i hi => ?_⟩
  · rcases List.mem_append.mp hr with hr | hr
    · have := h.valid r hr
      omega
    · obtain rfl := List.mem_singleton.mp hr
      dsimp only
      omega
  · obtain rfl := List.mem_singleton.mp hr'
    rcases List.mem_append.mp hr with hr | hr
    · have := hgap r hr (first, last) (by simp)
      dsimp only at this ⊢
      omega
    · obtain rfl := List.mem_singleton.mp hr
      dsimp only
      omega
  · rw [exists_mem_concat]
    rcases Nat.lt_succ_iff_lt_or_eq.mp hi with hlt | rfl
    · rw [h.exact i hlt]
      exact or_iff_left (by dsimp only; omega)
    · exact iff_of_true (.inr ⟨Int.le_refl _, Int.le_refl _⟩) hn

end Covers

end Qiftop.Lib
