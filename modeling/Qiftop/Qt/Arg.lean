import Qiftop.Qt.Prelude

/-!
# Qt — place markers

How `arg` acts on a text made of parts.  A marker is a `%`, an optional `L` and one or two digits, so it
never reaches past a character that is neither `L` nor a digit: at such a character the lowest marker is
the lower of the two parts' (`lowestMarker_split`) and each part is substituted on its own
(`substMarker_split`).
-/

namespace Qiftop.Qt

/-- A character no marker reaches past. -/
structure Bounds (c : Char) : Prop where
  digit : argDigitValue c = none
  notL : c ≠ 'L'
  notPercent : c ≠ '%'

theorem Bounds.percent_notMem {c : Char} (hc : Bounds c) : '%' ∉ [c] := by
  rw [List.mem_singleton]
  exact hc.notPercent.symm

theorem bounds_dot : Bounds '.' := ⟨by decide, by decide, by decide⟩

theorem markerAt_L (s : QString) :
    markerAt ('%' :: 'L' :: s) = (argDigits s).map fun m => (m.1, m.2 + 2) := rfl

theorem markerAt_percent {s : QString} (h : s.head? ≠ some 'L') :
    markerAt ('%' :: s) = (argDigits s).map fun m => (m.1, m.2 + 1) := by
  cases s with
  | nil => rfl
  | cons d s =>
      have hd : d ≠ 'L' := fun e => h (by rw [e]; rfl)
      unfold markerAt
      split
      · next heq =>
          injection heq with _ heq
          injection heq with heq _
          exact absurd heq hd
      · next heq =>
          injection heq with _ heq
          rw [heq]
      · next hnot => exact absurd rfl (hnot _)

theorem argDigits_split {c : Char} (hc : Bounds c) (u t : QString) :
    argDigits (u ++ c :: t) = argDigits u := by
  cases u with
  | nil => simp [argDigits, hc.digit]
  | cons a u =>
      cases u with
      | nil => simp [argDigits, hc.digit]
      | cons b u => rfl

theorem markerAt_split {c : Char} (hc : Bounds c) {u : QString} (hu : u ≠ []) (t : QString) :
    markerAt (u ++ c :: t) = markerAt u := by
  obtain ⟨a, u, rfl⟩ := List.exists_cons_of_ne_nil hu
  by_cases ha : a = '%'
  · subst ha
    by_cases hL : u.head? = some 'L'
    · obtain ⟨v, rfl⟩ := List.head?_eq_some_iff.mp hL
      simp only [List.cons_append, markerAt_L, argDigits_split hc]
    · have hL' : (u ++ c :: t).head? ≠ some 'L' := by
        cases u with
        | nil => simpa using hc.notL
        | cons d v => simpa using hL
      rw [List.cons_append, markerAt_percent hL', markerAt_percent hL, argDigits_split hc]
  · rw [List.cons_append, markerAt_cons ha, markerAt_cons ha]

theorem argDigits_length {s : QString} {n len : ℕ} (h : argDigits s = some (n, len)) :
    len ≤ s.length := by
  cases s with
  | nil => cases h
  | cons a s =>
      rw [argDigits, Option.map_eq_some_iff] at h
      obtain ⟨d, -, h⟩ := h
      cases s with
      | nil =>
          injection h with _ h
          simp [← h]
      | cons b s =>
          dsimp only [List.length_cons]
          split at h <;> injection h with _ h <;> omega

/-- A marker is within the text. -/
theorem markerAt_length {s : QString} {n len : ℕ} (h : markerAt s = some (n, len)) : len ≤ s.length := by
  unfold markerAt at h
  split at h
  · obtain ⟨m, hm, h⟩ := Option.map_eq_some_iff.mp h
    injection h with _ h
    have hle := argDigits_length hm
    simp only [List.length_cons]
    omega
  · obtain ⟨m, hm, h⟩ := Option.map_eq_some_iff.mp h
    injection h with _ h
    have hle := argDigits_length hm
    simp only [List.length_cons]
    omega
  · cases h

/-- The lowest marker of a text in two parts. -/
theorem lowestMarker_split {c : Char} (hc : Bounds c) (u t : QString) :
    lowestMarker (u ++ c :: t) = (lowestMarker u).merge min (lowestMarker t) := by
  induction u with
  | nil =>
      refine (lowestMarker_append hc.percent_notMem t).trans ?_
      cases lowestMarker t <;> rfl
  | cons a u ih =>
      rw [List.cons_append, lowestMarker, lowestMarker, ← List.cons_append,
        markerAt_split hc (List.cons_ne_nil a u), ih]
      cases markerAt (a :: u) <;> cases lowestMarker u <;> cases lowestMarker t <;>
        simp [Option.merge, min_assoc]

/-- A text in two parts, substituted. -/
theorem substMarker_split {c : Char} (hc : Bounds c) (n : ℕ) (a : QString) {k : ℕ} {u : QString}
    (hk : k ≤ u.length) (t : QString) :
    substMarker n a k (u ++ c :: t) = substMarker n a k u ++ c :: substMarker n a 0 t := by
  induction u generalizing k with
  | nil =>
      obtain rfl : k = 0 := Nat.le_zero.mp hk
      exact substMarker_append hc.percent_notMem n a t
  | cons b u ih =>
      cases k with
      | succ k => exact ih (Nat.le_of_succ_le_succ hk)
      | zero =>
          rw [List.cons_append, substMarker, substMarker, ← List.cons_append,
            markerAt_split hc (List.cons_ne_nil b u)]
          cases hm : markerAt (b :: u) with
          | none =>
              dsimp only
              rw [ih (Nat.zero_le _), List.cons_append]
          | some m =>
              have hlen := markerAt_length hm
              rw [List.length_cons] at hlen
              dsimp only
              split
              · rw [ih (by omega), List.append_assoc]
              · rw [ih (Nat.zero_le _), List.cons_append]

/-- Without a `%` nothing is substituted. -/
theorem substMarker_of_notMem {s : QString} (hs : '%' ∉ s) (n : ℕ) (a : QString) (k : ℕ) :
    substMarker n a k s = s.drop k := by
  induction s generalizing k with
  | nil => simp [substMarker]
  | cons c s ih =>
      simp only [List.mem_cons, not_or] at hs
      cases k with
      | succ k => exact ih hs.2 k
      | zero =>
          rw [substMarker, markerAt_cons (Ne.symm hs.1)]
          exact congrArg (c :: ·) (ih hs.2 0)

/-- Every marker of a text is above `n`. -/
def Above (n : ℕ) (s : QString) : Prop := (lowestMarker s).all (n < ·) = true

instance (n : ℕ) (s : QString) : Decidable (Above n s) := inferInstanceAs (Decidable (_ = true))

theorem above_iff {n : ℕ} {s : QString} : Above n s ↔ ∀ m, lowestMarker s = some m → n < m := by
  simp [Above, Option.all_eq_true]

theorem not_above_iff {n : ℕ} {s : QString} : ¬ Above n s ↔ ∃ m, lowestMarker s = some m ∧ m ≤ n := by
  simp [above_iff]

theorem Above.mono {n m : ℕ} {s : QString} (h : Above m s) (hle : n ≤ m) : Above n s :=
  above_iff.mpr fun k hk => hle.trans_lt (above_iff.mp h k hk)

/-- Markers above `n` are not substituted for `n`. -/
theorem substMarker_of_above {n : ℕ} {s : QString} (h : Above n s) (a : QString) :
    substMarker n a 0 s = s := by
  induction s with
  | nil => rfl
  | cons c s ih =>
      rw [above_iff] at h
      have htail : Above n s := by
        rw [above_iff]
        intro m hm
        rw [lowestMarker, hm] at h
        cases hmarker : markerAt (c :: s) with
        | none => exact h m (by rw [hmarker])
        | some k => exact (h _ (by rw [hmarker])).trans_le (min_le_right _ _)
      rw [substMarker, ih htail]
      cases hmarker : markerAt (c :: s) with
      | none => rfl
      | some k =>
          have hlt : n < k.1 := by
            rw [lowestMarker, hmarker] at h
            cases hlow : lowestMarker s with
            | none => exact h k.1 (by rw [hlow])
            | some m => exact (h _ (by rw [hlow])).trans_le (min_le_left _ _)
          dsimp only
          rw [if_neg (by omega)]

theorem arg_eq {s : QString} {n : ℕ} (h : lowestMarker s = some n) (a : QString) :
    arg s a = substMarker n a 0 s := by
  rw [arg, h]

/-- The lowest marker is in the second part. -/
theorem lowestMarker_right {c : Char} (hc : Bounds c) {n : ℕ} {u t : QString}
    (hu : ∀ m, lowestMarker u = some m → n ≤ m) (ht : lowestMarker t = some n) :
    lowestMarker (u ++ c :: t) = some n := by
  rw [lowestMarker_split hc, ht]
  cases hm : lowestMarker u with
  | none => rfl
  | some m => exact congrArg some (min_eq_right (hu m hm))

/-- The lowest marker is in the first part. -/
theorem lowestMarker_left {c : Char} (hc : Bounds c) {n : ℕ} {u t : QString}
    (hu : lowestMarker u = some n) (ht : ∀ m, lowestMarker t = some m → n ≤ m) :
    lowestMarker (u ++ c :: t) = some n := by
  rw [lowestMarker_split hc, hu]
  cases hm : lowestMarker t with
  | none => rfl
  | some m => exact congrArg some (min_eq_left (ht m hm))

/-- A first part without low markers stays as it is. -/
theorem arg_right {c : Char} (hc : Bounds c) {n : ℕ} {u t : QString} (hu : Above n u)
    (ht : lowestMarker t = some n) (a : QString) : arg (u ++ c :: t) a = u ++ c :: arg t a := by
  have hlow := lowestMarker_right hc (fun m hm => (above_iff.mp hu m hm).le) ht
  rw [arg_eq hlow, substMarker_split hc n a (Nat.zero_le _), substMarker_of_above hu, arg_eq ht]

/-- Two spellings of a text whose lowest marker is substituted come to the same. -/
theorem arg_left_congr {c : Char} (hc : Bounds c) {n : ℕ} {u u' t a : QString}
    (hu : lowestMarker u = some n) (hu' : lowestMarker u' = some n)
    (hsame : substMarker n a 0 u' = substMarker n a 0 u)
    (ht : ∀ m, lowestMarker t = some m → n ≤ m) : arg (u' ++ c :: t) a = arg (u ++ c :: t) a := by
  rw [arg_eq (lowestMarker_left hc hu ht), arg_eq (lowestMarker_left hc hu' ht),
    substMarker_split hc n a (Nat.zero_le _), substMarker_split hc n a (Nat.zero_le _), hsame]

theorem lowestMarker_of_notMem {s : QString} (hs : '%' ∉ s) : lowestMarker s = none := by
  have h := lowestMarker_append hs []
  rwa [List.append_nil] at h

end Qiftop.Qt
