import Mathlib.Data.List.Perm.Basic

/-!
# Lib — values that agree

A cell takes the first value it is given and keeps it as long as no other one comes; from then on it
holds a mark.  `agreed` is the cell after a list of values: empty after none, the value when all of them
are this one, the mark when they differ or when the mark came as a value.  The order does not matter.
-/

namespace Qiftop.Lib

variable {V : Type} [DecidableEq V]

/-- One more value. -/
def agree (mark : V) : Option V → V → Option V
  | none, v => some v
  | some w, v => if w ≠ v then some mark else some w

/-- The cell after a list of values. -/
def agreed (mark : V) (values : List V) : Option V := values.foldl (agree mark) none

section
variable {mark : V}

theorem foldl_agree_some (values : List V) (w : V) :
    values.foldl (agree mark) (some w) = some (if ∀ v ∈ values, v = w then w else mark) := by
  induction values generalizing w with
  | nil => simp
  | cons v values ih =>
      rw [List.foldl_cons, agree]
      by_cases hv : w = v
      · rw [if_neg (not_not.mpr hv), ih]
        simp [hv]
      · rw [if_pos hv, ih, ite_self, if_neg]
        exact fun hall => hv (hall v List.mem_cons_self).symm

theorem agreed_cons (v : V) (values : List V) :
    agreed mark (v :: values) = some (if ∀ u ∈ values, u = v then v else mark) :=
  foldl_agree_some values v

@[simp] theorem agreed_eq_none_iff {values : List V} : agreed mark values = none ↔ values = [] := by
  cases values with
  | nil => simp [agreed]
  | cons v values => simp [agreed_cons]

/-- Another value than the mark: all values are this one. -/
theorem agreed_eq_some_iff {values : List V} {i : V} (hi : i ≠ mark) :
    agreed mark values = some i ↔ i ∈ values ∧ ∀ v ∈ values, v = i := by
  cases values with
  | nil => simp [agreed]
  | cons v values =>
      rw [agreed_cons, Option.some.injEq]
      constructor
      · intro h
        split at h
        · next hall =>
            subst h
            exact ⟨List.mem_cons_self, List.forall_mem_cons.mpr ⟨rfl, hall⟩⟩
        · exact absurd h.symm hi
      · rintro ⟨-, hall⟩
        obtain ⟨rfl, hrest⟩ := List.forall_mem_cons.mp hall
        exact if_pos hrest

/-- The mark: it was a value, or two values differ. -/
theorem agreed_eq_mark_iff {values : List V} :
    agreed mark values = some mark ↔ mark ∈ values ∨ ∃ v ∈ values, ∃ w ∈ values, v ≠ w := by
  cases values with
  | nil => simp [agreed]
  | cons v values =>
      rw [agreed_cons, Option.some.injEq]
      by_cases hall : ∀ u ∈ values, u = v
      · rw [if_pos hall]
        have hsame : ∀ u ∈ v :: values, u = v := List.forall_mem_cons.mpr ⟨rfl, hall⟩
        constructor
        · rintro rfl
          exact .inl List.mem_cons_self
        · rintro (hmark | ⟨u, hu, w, hw, hne⟩)
          · exact (hsame mark hmark).symm
          · exact absurd ((hsame u hu).trans (hsame w hw).symm) hne
      · rw [if_neg hall]
        push Not at hall
        obtain ⟨u, hu, hne⟩ := hall
        exact iff_of_true rfl
          (.inr ⟨u, List.mem_cons_of_mem v hu, v, List.mem_cons_self, hne⟩)

end

end Qiftop.Lib
