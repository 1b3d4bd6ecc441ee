import Mathlib.Data.List.Sort
import Mathlib.Data.Multiset.Basic

/-!
# Lib — the largest of a list

`largest n m` are the `n` largest numbers of `m`, as a multiset.  Something that keeps `n` elements of
a list keeps the largest under a measure exactly when nothing it leaves out exceeds anything it keeps
(`map_eq_largest_iff`).

A measure may be known only modulo a power of two: `low`, with a flag for the elements whose true value
is above it.  `Separated` is the exact condition under which keeping the largest by `low` keeps the
truly largest, however equal elements are ordered: `Separated.above` in one direction,
`exists_misordered` in the other.
-/

namespace Qiftop.Lib

variable {α : Type}

/-- The `n` largest numbers of a list. -/
def largest (n : ℕ) (m : List ℕ) : Multiset ℕ := ↑((m.insertionSort (· ≥ ·)).take n)

/-- Of `l`, `kept` were kept and `rest` left out, at most `n` and none below `rest` under `w`. -/
structure Keeps (w : α → ℕ) (n : ℕ) (l kept rest : List α) : Prop where
  perm : (kept ++ rest).Perm l
  length : kept.length = min n l.length
  above : ∀ x ∈ kept, ∀ y ∈ rest, w y ≤ w x

/-- Two parts, the second not above the first: sorted apart they are the whole sorted. -/
theorem insertionSort_eq_append {a b m : List ℕ} (hperm : (a ++ b).Perm m)
    (habove : ∀ x ∈ a, ∀ y ∈ b, y ≤ x) :
    m.insertionSort (· ≥ ·) = a.insertionSort (· ≥ ·) ++ b.insertionSort (· ≥ ·) := by
  refine List.Perm.eq_of_pairwise' (r := (· ≥ ·)) (List.pairwise_insertionSort _ _) ?_ ?_
  · rw [List.pairwise_append]
    refine ⟨List.pairwise_insertionSort _ _, List.pairwise_insertionSort _ _, fun x hx y hy => ?_⟩
    exact habove x ((List.mem_insertionSort _).mp hx) y ((List.mem_insertionSort _).mp hy)
  · exact (List.perm_insertionSort _ _).trans (hperm.symm.trans
      ((List.perm_insertionSort _ _).symm.append (List.perm_insertionSort _ _).symm))

/-- **Kept are the largest exactly when nothing left out exceeds them.** -/
theorem map_eq_largest_iff {w : α → ℕ} {n : ℕ} {l kept rest : List α}
    (hperm : (kept ++ rest).Perm l) (hlen : kept.length = min n l.length) :
    (↑(kept.map w) : Multiset ℕ) = largest n (l.map w) ↔ ∀ x ∈ kept, ∀ y ∈ rest, w y ≤ w x := by
  have hmap : (kept.map w ++ rest.map w).Perm (l.map w) := by
    rw [← List.map_append]
    exact hperm.map w
  have hsort := (l.map w).perm_insertionSort (· ≥ ·)
  have hpair := (l.map w).pairwise_insertionSort (· ≥ ·)
  rw [largest, Multiset.coe_eq_coe]
  constructor
  · intro htake x hx y hy
    -- the rest is what the sorted list has after the first `n`
    have hdrop : (rest.map w).Perm (((l.map w).insertionSort (· ≥ ·)).drop n) := by
      rw [← List.perm_append_left_iff (kept.map w)]
      refine hmap.trans (hsort.symm.trans ?_)
      conv_lhs => rw [← List.take_append_drop n ((l.map w).insertionSort (· ≥ ·))]
      exact htake.symm.append_right _
    rw [← List.take_append_drop n ((l.map w).insertionSort (· ≥ ·)), List.pairwise_append] at hpair
    exact hpair.2.2 _ (htake.subset (List.mem_map_of_mem hx)) _
      (hdrop.subset (List.mem_map_of_mem hy))
  · intro habove
    -- sorting everything is sorting the kept ones, then the rest
    have hwhole : (l.map w).insertionSort (· ≥ ·) =
        (kept.map w).insertionSort (· ≥ ·) ++ (rest.map w).insertionSort (· ≥ ·) := by
      refine insertionSort_eq_append hmap fun a ha b hb => ?_
      obtain ⟨x, hx, rfl⟩ := List.mem_map.mp ha
      obtain ⟨y, hy, rfl⟩ := List.mem_map.mp hb
      exact habove x hx y hy
    have hcut : (((l.map w).insertionSort (· ≥ ·)).take n) = (kept.map w).insertionSort (· ≥ ·) := by
      have htotal := hperm.length_eq
      rw [List.length_append] at htotal
      by_cases hn : n ≤ l.length
      · rw [hwhole, List.take_left' (by simp; omega)]
      · have hrest : rest = [] := List.length_eq_zero_iff.mp (by omega)
        subst hrest
        rw [hwhole, List.map_nil, List.insertionSort_nil, List.append_nil]
        exact List.take_of_length_le (by simp; omega)
    rw [hcut]
    exact (List.perm_insertionSort _ _).symm

theorem Keeps.eq_largest {w : α → ℕ} {n : ℕ} {l kept rest : List α} (h : Keeps w n l kept rest) :
    (↑(kept.map w) : Multiset ℕ) = largest n (l.map w) :=
  (map_eq_largest_iff h.perm h.length).mpr h.above

/-- The front of a list in descending order. -/
theorem Keeps.of_sorted {w : α → ℕ} (n : ℕ) {l sorted : List α} (hperm : sorted.Perm l)
    (hsorted : sorted.Pairwise fun a b => w b ≤ w a) :
    Keeps w n l (sorted.take n) (sorted.drop n) where
  perm := by rwa [List.take_append_drop]
  length := by rw [List.length_take, hperm.length_eq]
  above := by
    rw [← List.take_append_drop n sorted, List.pairwise_append] at hsorted
    exact hsorted.2.2

/-! ### A measure known by its low part -/

section Low
variable (low : α → ℕ) (carry : α → Bool) (m : ℕ)

/-- The true value of an element: its low part, and `m` more with a carry. -/
def withCarry (a : α) : ℕ := low a + if carry a then m else 0

/-- Among the first `n` by the low part no element without a carry can be while one with a carry can be
left out. -/
def Separated (n : ℕ) (l : List α) : Prop :=
  (∀ y ∈ l, carry y = true → l.countP (fun z => decide (low y ≤ low z)) ≤ n) ∨
    ∀ x ∈ l, carry x = false → n ≤ l.countP (fun z => decide (low x < low z))

variable {low carry m}

/-- A low part that does not fall short of another's, with a true value that does. -/
theorem carry_of_withCarry_lt (hlow : ∀ a, low a < m) {x y : α} (hle : low y ≤ low x)
    (hlt : withCarry low carry m x < withCarry low carry m y) :
    carry x = false ∧ carry y = true := by
  have hx := hlow x
  have hy := hlow y
  unfold withCarry at hlt
  cases hcx : carry x <;> cases hcy : carry y <;> simp [hcx, hcy] at hlt ⊢ <;> omega

/-- **Keeping the largest by the low part keeps the largest, if separated.** -/
theorem Separated.above (hlow : ∀ a, low a < m) {n : ℕ} {l kept rest : List α}
    (hsep : Separated low carry n l) (h : Keeps low n l kept rest) :
    ∀ x ∈ kept, ∀ y ∈ rest, withCarry low carry m y ≤ withCarry low carry m x := by
  intro x hx y hy
  by_contra hlt
  obtain ⟨hcx, hcy⟩ := carry_of_withCarry_lt hlow (h.above x hx y hy) (not_le.mp hlt)
  have hmem : ∀ z ∈ kept ++ rest, z ∈ l := fun z hz => h.perm.subset hz
  have htotal := h.perm.length_eq
  have hlen := h.length
  have hrest : 0 < rest.length := List.length_pos_of_mem hy
  rw [List.length_append] at htotal
  rcases hsep with hsep | hsep
  · -- all that was kept and `y` itself count against `y`
    have hcount := hsep y (hmem y (List.mem_append_right _ hy)) hcy
    rw [← h.perm.countP_eq, List.countP_append] at hcount
    have hall : kept.countP (fun z => decide (low y ≤ low z)) = kept.length :=
      List.countP_eq_length.mpr fun z hz => decide_eq_true (h.above z hz y hy)
    have hself : 0 < rest.countP (fun z => decide (low y ≤ low z)) :=
      List.countP_pos_iff.mpr ⟨y, hy, decide_eq_true le_rfl⟩
    omega
  · -- nothing left out is above `x`, and `x` is not above itself
    have hcount := hsep x (hmem x (List.mem_append_left _ hx)) hcx
    rw [← h.perm.countP_eq, List.countP_append] at hcount
    have hnone : rest.countP (fun z => decide (low x < low z)) = 0 :=
      List.countP_eq_zero.mpr fun z hz => by
        rw [decide_eq_true_eq, not_lt]
        exact h.above x hx z hz
    have hself : kept.countP (fun z => decide (low x < low z)) < kept.length := by
      refine lt_of_le_of_ne List.countP_le_length fun heq => ?_
      exact lt_irrefl _ (of_decide_eq_true (List.countP_eq_length.mp heq x hx))
    omega

/-- Two elements taken out of a list. -/
theorem exists_perm_cons_cons {l : List α} {x y : α} (hx : x ∈ l) (hy : y ∈ l) (hne : x ≠ y) :
    ∃ r, (x :: y :: r).Perm l := by
  obtain ⟨l₁, l₂, rfl⟩ := List.append_of_mem hx
  have hy' : y ∈ l₁ ++ l₂ := by
    simp only [List.mem_append, List.mem_cons] at hy ⊢
    rcases hy with hy | rfl | hy
    · exact .inl hy
    · exact absurd rfl hne
    · exact .inr hy
  obtain ⟨r₁, r₂, hr⟩ := List.append_of_mem hy'
  refine ⟨r₁ ++ r₂, ?_⟩
  have hinner : (y :: (r₁ ++ r₂)).Perm (l₁ ++ l₂) := by
    rw [hr]
    exact List.perm_middle.symm
  exact (hinner.cons x).trans List.perm_middle.symm

theorem exists_sorted (low : α → ℕ) (l : List α) :
    ∃ sorted : List α, sorted.Perm l ∧ sorted.Pairwise fun u v => low v ≤ low u := by
  have htotal : Std.Total fun u v : α => low v ≤ low u := ⟨fun u v => le_total (low v) (low u)⟩
  have htrans : IsTrans α fun u v => low v ≤ low u := ⟨fun _ _ _ huv hvw => le_trans hvw huv⟩
  exact ⟨_, l.perm_insertionSort _, l.pairwise_insertionSort _⟩

/-- `x` and `y` with the elements above `x` before, those between the two, and those below `y`. -/
structure Layered (low : α → ℕ) (x y : α) (a b c : List α) : Prop where
  order : low y ≤ low x
  upper : ∀ z ∈ a, low x < low z
  middle : ∀ z ∈ b, low z ≤ low x ∧ low y ≤ low z
  lower : ∀ z ∈ c, low z < low y
  sorted_upper : a.Pairwise fun u v => low v ≤ low u
  sorted_middle : b.Pairwise fun u v => low v ≤ low u
  sorted_lower : c.Pairwise fun u v => low v ≤ low u

/-- Every list can be layered around two of its elements. -/
theorem exists_layered {l : List α} {x y : α} (hle : low y ≤ low x) {r : List α}
    (hperm : (x :: y :: r).Perm l) :
    ∃ a b c : List α, (a ++ x :: (b ++ y :: c)).Perm l ∧ Layered low x y a b c := by
  -- the others are those above `x`, those from `x` down to `y` and those below
  let p : α → Bool := fun z => decide (low x < low z)
  let q : α → Bool := fun z => decide (low y ≤ low z)
  obtain ⟨a, ha, hsa⟩ := exists_sorted low (r.filter p)
  obtain ⟨b, hb, hsb⟩ := exists_sorted low ((r.filter fun z => !p z).filter q)
  obtain ⟨c, hc, hsc⟩ := exists_sorted low ((r.filter fun z => !p z).filter fun z => !q z)
  have hothers : (a ++ (b ++ c)).Perm r :=
    (ha.append ((hb.append hc).trans (List.filter_append_perm q _))).trans
      (List.filter_append_perm p r)
  refine ⟨a, b, c, ?_, ⟨hle, ?_, ?_, ?_, hsa, hsb, hsc⟩⟩
  · refine List.Perm.trans ?_ hperm
    refine List.perm_middle.trans (List.Perm.cons x ?_)
    rw [← List.append_assoc]
    refine List.perm_middle.trans (List.Perm.cons y ?_)
    rw [List.append_assoc]
    exact hothers
  · exact fun z hz => of_decide_eq_true (List.mem_filter.mp (ha.subset hz)).2
  · intro z hz
    obtain ⟨hz, hqz⟩ := List.mem_filter.mp (hb.subset hz)
    have hpz := (List.mem_filter.mp hz).2
    simp only [p, q, Bool.not_eq_true', decide_eq_false_iff_not, decide_eq_true_eq, not_lt] at hpz hqz
    exact ⟨hpz, hqz⟩
  · intro z hz
    have hqz := (List.mem_filter.mp (hc.subset hz)).2
    simp only [q, Bool.not_eq_true', decide_eq_false_iff_not, not_le] at hqz
    exact hqz

namespace Layered
variable {x y : α} {a b c : List α}

theorem pairwise (h : Layered low x y a b c) :
    (a ++ x :: (b ++ y :: c)).Pairwise fun u v => low v ≤ low u := by
  have hc : ∀ z ∈ y :: c, low z ≤ low y := by
    intro z hz
    rcases List.mem_cons.mp hz with rfl | hz
    · exact le_rfl
    · exact (h.lower z hz).le
  have hbc : ∀ z ∈ b ++ y :: c, low z ≤ low x := by
    intro z hz
    rcases List.mem_append.mp hz with hz | hz
    · exact (h.middle z hz).1
    · exact (hc z hz).trans h.order
  have hxbc : ∀ z ∈ x :: (b ++ y :: c), low z ≤ low x := by
    intro z hz
    rcases List.mem_cons.mp hz with rfl | hz
    · exact le_rfl
    · exact hbc z hz
  rw [List.pairwise_append, List.pairwise_cons, List.pairwise_append, List.pairwise_cons]
  refine ⟨h.sorted_upper, ⟨hbc, h.sorted_middle, ⟨fun z hz => (h.lower z hz).le, h.sorted_lower⟩,
    ?_⟩, ?_⟩
  · exact fun u hu z hz => (hc z hz).trans (h.middle u hu).2
  · exact fun u hu z hz => (hxbc z hz).trans (h.upper u hu).le

/-- Only the first layer is above `x`. -/
theorem countP_above (h : Layered low x y a b c) :
    (a ++ x :: (b ++ y :: c)).countP (fun z => decide (low x < low z)) = a.length := by
  have ha : a.countP (fun z => decide (low x < low z)) = a.length :=
    List.countP_eq_length.mpr fun z hz => decide_eq_true (h.upper z hz)
  have hrest : (x :: (b ++ y :: c)).countP (fun z => decide (low x < low z)) = 0 := by
    rw [List.countP_eq_zero]
    intro z hz
    have hpair := h.pairwise
    rw [List.pairwise_append, List.pairwise_cons] at hpair
    rw [decide_eq_true_eq, not_lt]
    rcases List.mem_cons.mp hz with rfl | hz
    · exact le_rfl
    · exact hpair.2.1.1 z hz
  rw [List.countP_append, ha, hrest, Nat.add_zero]

/-- All but the last layer are at least `y`. -/
theorem countP_atLeast (h : Layered low x y a b c) :
    (a ++ x :: (b ++ y :: c)).countP (fun z => decide (low y ≤ low z)) = a.length + b.length + 2 := by
  have ha : a.countP (fun z => decide (low y ≤ low z)) = a.length :=
    List.countP_eq_length.mpr fun z hz => decide_eq_true (h.order.trans (h.upper z hz).le)
  have hb : b.countP (fun z => decide (low y ≤ low z)) = b.length :=
    List.countP_eq_length.mpr fun z hz => decide_eq_true (h.middle z hz).2
  have hc : c.countP (fun z => decide (low y ≤ low z)) = 0 :=
    List.countP_eq_zero.mpr fun z hz => by
      rw [decide_eq_true_eq, not_le]
      exact h.lower z hz
  simp only [List.countP_append, List.countP_cons, ha, hb, hc, h.order, le_refl, decide_true, if_true]
  omega

end Layered

/-- **If not separated, some order of the low parts keeps the wrong elements.** -/
theorem exists_misordered (hlow : ∀ a, low a < m) {n : ℕ} {l : List α}
    (hsep : ¬ Separated low carry n l) :
    ∃ sorted : List α, sorted.Perm l ∧ sorted.Pairwise (fun u v => low v ≤ low u) ∧
      ∃ x ∈ sorted.take n, ∃ y ∈ sorted.drop n,
        withCarry low carry m x < withCarry low carry m y := by
  simp only [Separated, not_or, not_forall, not_le] at hsep
  obtain ⟨⟨y, hy, hcy, hycount⟩, x, hx, hcx, hxcount⟩ := hsep
  have hne : x ≠ y := by
    rintro rfl
    rw [hcx] at hcy
    cases hcy
  -- were `y` above `x`, all that count for `y` would count for `x`
  have hle : low y ≤ low x := by
    by_contra hlt
    have hmono : l.countP (fun z => decide (low y ≤ low z)) ≤
        l.countP (fun z => decide (low x < low z)) :=
      List.countP_mono_left fun z _ hz => by
        rw [decide_eq_true_eq] at hz ⊢
        omega
    omega
  obtain ⟨r, hr⟩ := exists_perm_cons_cons hx hy hne
  obtain ⟨a, b, c, hperm, h⟩ := exists_layered hle hr
  have ha := h.countP_above
  have hb := h.countP_atLeast
  rw [hperm.countP_eq] at ha hb
  refine ⟨_, hperm, h.pairwise, x, ?_, y, ?_, ?_⟩
  · rw [List.take_append, List.mem_append]
    right
    obtain ⟨k, hk⟩ : ∃ k, n - a.length = k + 1 := ⟨n - a.length - 1, by omega⟩
    rw [hk, List.take_succ_cons]
    exact List.mem_cons_self
  · have hsplit : a ++ x :: (b ++ y :: c) = (a ++ x :: b) ++ y :: c := by simp
    have hlen : (a ++ x :: b).length ≥ n := by
      rw [List.length_append, List.length_cons]
      omega
    rw [hsplit, List.drop_append_of_le_length hlen]
    exact List.mem_append_right _ List.mem_cons_self
  · have hxm := hlow x
    simp only [withCarry, hcx, hcy, Bool.false_eq_true, if_false, if_true]
    omega

end Low

end Qiftop.Lib
