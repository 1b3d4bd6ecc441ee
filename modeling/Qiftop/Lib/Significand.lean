import Mathlib.Algebra.Order.Field.Rat
import Mathlib.Data.Nat.Size
import Mathlib.Tactic.Linarith

/-!
# Lib — rounding to a significand

A natural number rounded to one with a significand of `p` bits: to the nearest, and in the middle to
the even one.  `roundBits_eq_self_iff` says which numbers stay as they are.  A rational number is rounded
by way of a natural one with enough bits, the last of which says that some are missing.
-/

namespace Qiftop.Lib

/-- The bits of `n` beyond the first `p`. -/
def excess (p n : ℕ) : ℕ := n.size - p

/-- `n` has a significand of `p` bits. -/
def Fits (p n : ℕ) : Prop := ∃ m e, m < 2 ^ p ∧ n = m * 2 ^ e

/-- The nearest number with a significand of `p` bits. -/
def roundBits (p n : ℕ) : ℕ :=
  let unit := 2 ^ excess p n
  let q := n / unit
  let r := n % unit
  if 2 * r < unit ∨ 2 * r = unit ∧ q % 2 = 0 then q * unit else (q + 1) * unit

theorem fits_iff_dvd {p n : ℕ} : Fits p n ↔ 2 ^ excess p n ∣ n := by
  constructor
  · rintro ⟨m, e, hm, rfl⟩
    have hsize : (m * 2 ^ e).size ≤ p + e := by
      rw [Nat.size_le, pow_add]
      exact Nat.mul_lt_mul_of_pos_right hm (by positivity)
    exact (pow_dvd_pow 2 (by unfold excess; omega)).trans (dvd_mul_left _ m)
  · rintro ⟨m, hm⟩
    refine ⟨m, excess p n, ?_, by rw [mul_comm]; exact hm⟩
    have hlt : n < 2 ^ (p + excess p n) :=
      Nat.size_le.mp (by unfold excess; omega)
    rw [pow_add] at hlt
    nth_rewrite 1 [hm] at hlt
    rw [mul_comm] at hlt
    exact Nat.lt_of_mul_lt_mul_right hlt

/-- **What rounding leaves alone**: the numbers with such a significand. -/
theorem roundBits_eq_self_iff {p n : ℕ} : roundBits p n = n ↔ Fits p n := by
  rw [fits_iff_dvd, Nat.dvd_iff_mod_eq_zero]
  have hunit : 0 < 2 ^ excess p n := by positivity
  have hdiv := Nat.div_add_mod' n (2 ^ excess p n)
  have hmod := Nat.mod_lt n hunit
  unfold roundBits
  dsimp only
  split
  · omega
  · rename_i hup
    rw [Nat.add_mul, Nat.one_mul]
    constructor
    · intro h
      omega
    · intro h
      exact absurd (.inl (by omega)) hup

/-- Rounding gives such a number. -/
theorem fits_roundBits {p : ℕ} (hp : 0 < p) (n : ℕ) : Fits p (roundBits p n) := by
  have hlt : n / 2 ^ excess p n < 2 ^ p := by
    rw [Nat.div_lt_iff_lt_mul (by positivity), ← pow_add]
    exact Nat.size_le.mp (by unfold excess; omega)
  unfold roundBits
  dsimp only
  split
  · exact ⟨_, _, hlt, rfl⟩
  · -- the one above may need a bit more, and is then a power of two
    rcases Nat.lt_or_eq_of_le (Nat.succ_le_of_lt hlt) with h | h
    · exact ⟨_, _, h, rfl⟩
    · refine ⟨1, p + excess p n, Nat.one_lt_two_pow hp.ne', ?_⟩
      rw [Nat.one_mul, pow_add, ← h]

/-! ### Rational numbers -/

/-- `q` has a significand of `p` bits. -/
def FitsRat (p : ℕ) (q : ℚ) : Prop :=
  ∃ (m : ℤ) (e f : ℕ), m.natAbs < 2 ^ p ∧ q = m * 2 ^ e / 2 ^ f

/-- The nearest number with a significand of `p` bits, whatever its exponent. -/
def roundRat (p : ℕ) (q : ℚ) : ℚ :=
  -- enough places for more than `p` bits of the smallest number with this denominator
  let places := p + q.den.size + 1
  let n := q.num.natAbs * 2 ^ places
  let sticky := if n % q.den = 0 then 0 else 1
  q.num.sign * (roundBits p (2 * (n / q.den) + sticky) : ℕ) / 2 ^ (places + 1)

theorem fitsRat_roundRat {p : ℕ} (hp : 0 < p) (q : ℚ) : FitsRat p (roundRat p q) := by
  let places := p + q.den.size + 1
  let n := q.num.natAbs * 2 ^ places
  obtain ⟨m, e, hm, hround⟩ :=
    fits_roundBits hp (2 * (n / q.den) + if n % q.den = 0 then 0 else 1)
  refine ⟨q.num.sign * m, e, places + 1, ?_, ?_⟩
  · have hsign : q.num.sign.natAbs ≤ 1 := by
      rcases Int.sign_trichotomy q.num with h | h | h <;> simp [h]
    rw [Int.natAbs_mul, Int.natAbs_natCast]
    exact lt_of_le_of_lt (mul_le_of_le_one_left (Nat.zero_le m) hsign) hm
  · rw [roundRat]
    dsimp only [places, n] at hround ⊢
    rw [hround]
    push_cast
    rw [mul_assoc]

end Qiftop.Lib
