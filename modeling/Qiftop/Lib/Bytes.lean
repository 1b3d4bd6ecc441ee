import Mathlib.Data.Nat.Bitwise
import Mathlib.Data.List.Induction

/-!
# Lib — reading a buffer

A `Window` is a buffer and the length of its front part that a reader was given.  A read that leaves the
window is a fault, and so is a loop that runs out of fuel: a reader whose result is no fault has read
only bytes of the window, and has come to an end.

* `Window.read`: bytes at an offset; `Window.uint16` and the others: a number there, in a byte order.
* `bigEndian`: a number as bytes, the most significant first.
* `alignUp_toNat`: rounding a length up to a multiple of four, in machine words.
-/

namespace Qiftop.Lib

/-- Why a reader comes to nothing. -/
inductive Fault where
  | outOfBounds
  | outOfFuel
  deriving DecidableEq, Repr

inductive ByteOrder where
  | little | big
  deriving DecidableEq, Repr

/-- The number that bytes spell, the most significant first. -/
def ofBigEndian (bytes : List UInt8) : ℕ := bytes.foldl (fun n b => n * 256 + b.toNat) 0

/-- The number that bytes spell in a byte order. -/
def ByteOrder.number : ByteOrder → List UInt8 → ℕ
  | .big, bytes => ofBigEndian bytes
  | .little, bytes => ofBigEndian bytes.reverse

theorem ofBigEndian_concat (bytes : List UInt8) (b : UInt8) :
    ofBigEndian (bytes ++ [b]) = ofBigEndian bytes * 256 + b.toNat := by
  rw [ofBigEndian, List.foldl_append]
  rfl

theorem ofBigEndian_lt (bytes : List UInt8) : ofBigEndian bytes < 256 ^ bytes.length := by
  induction bytes using List.reverseRecOn with
  | nil => exact Nat.one_pos
  | append_singleton bytes b ih =>
      have hb := b.toNat_lt
      rw [ofBigEndian_concat, List.length_append, List.length_singleton, pow_succ]
      omega

theorem ByteOrder.number_lt (order : ByteOrder) {bytes : List UInt8} {k : ℕ} (h : bytes.length ≤ k) :
    order.number bytes < 256 ^ k := by
  refine lt_of_lt_of_le ?_ (Nat.pow_le_pow_right (by decide) h)
  cases order with
  | big => exact ofBigEndian_lt bytes
  | little =>
      rw [← bytes.length_reverse]
      exact ofBigEndian_lt bytes.reverse

/-- A number of `k` bytes, the most significant first. -/
def bigEndian : (k : ℕ) → ℕ → List UInt8
  | 0, _ => []
  | k + 1, n => bigEndian k (n / 256) ++ [UInt8.ofNat (n % 256)]

@[simp] theorem length_bigEndian (k n : ℕ) : (bigEndian k n).length = k := by
  induction k generalizing n with
  | zero => rfl
  | succ k ih => rw [bigEndian, List.length_append, ih, List.length_singleton]

/-- A number that fits is spelled by its bytes. -/
theorem ofBigEndian_bigEndian {k n : ℕ} (h : n < 256 ^ k) : ofBigEndian (bigEndian k n) = n := by
  induction k generalizing n with
  | zero =>
      rw [pow_zero, Nat.lt_one_iff] at h
      rw [h]
      rfl
  | succ k ih =>
      have hdiv : n / 256 < 256 ^ k := Nat.div_lt_of_lt_mul (by rwa [pow_succ'] at h)
      have hlast : (UInt8.ofNat (n % 256)).toNat = n % 256 := UInt8.toNat_ofNat_of_lt' (by
        exact Nat.mod_lt n (by decide))
      rw [bigEndian, ofBigEndian_concat, ih hdiv, hlast, Nat.div_add_mod']

theorem bigEndian_inj {k n m : ℕ} (hn : n < 256 ^ k) (hm : m < 256 ^ k)
    (h : bigEndian k n = bigEndian k m) : n = m := by
  rw [← ofBigEndian_bigEndian hn, h, ofBigEndian_bigEndian hm]

/-! ### Windows -/

/-- The first `size` bytes of a buffer. -/
structure Window where
  buffer : List UInt8
  size : ℕ
  le : size ≤ buffer.length

namespace Window

/-- `k` bytes at an offset, as far as the buffer has them. -/
def peek (w : Window) (offset k : ℕ) : List UInt8 := (w.buffer.drop offset).take k

/-- What `f` makes of `k` bytes at an offset. -/
def read {α : Type} (w : Window) (offset k : ℕ) (f : List UInt8 → α) : Except Fault α :=
  if offset + k ≤ w.size then .ok (f (w.peek offset k)) else .error .outOfBounds

theorem read_eq_ok {α : Type} {w : Window} {offset k : ℕ} (h : offset + k ≤ w.size)
    (f : List UInt8 → α) : w.read offset k f = .ok (f (w.peek offset k)) :=
  if_pos h

/-- The number at an offset. -/
def numberAt (w : Window) (order : ByteOrder) (offset k : ℕ) : ℕ := order.number (w.peek offset k)

theorem numberAt_lt (w : Window) (order : ByteOrder) (offset k : ℕ) :
    w.numberAt order offset k < 256 ^ k :=
  order.number_lt (List.length_take_le _ _)

def uint8 (w : Window) (offset : ℕ) : Except Fault UInt8 :=
  w.read offset 1 fun b => UInt8.ofNat (ofBigEndian b)

def uint16 (w : Window) (order : ByteOrder) (offset : ℕ) : Except Fault UInt16 :=
  w.read offset 2 fun b => UInt16.ofNat (order.number b)

def uint32 (w : Window) (order : ByteOrder) (offset : ℕ) : Except Fault UInt32 :=
  w.read offset 4 fun b => UInt32.ofNat (order.number b)

/-- A 32-bit number at an offset, where it can be read. -/
theorem uint32_eq_ok {w : Window} {offset : ℕ} (h : offset + 4 ≤ w.size) (order : ByteOrder) :
    w.uint32 order offset = .ok (UInt32.ofNat (w.numberAt order offset 4)) :=
  read_eq_ok h _

theorem toNat_uint32 (w : Window) (order : ByteOrder) (offset : ℕ) :
    (UInt32.ofNat (w.numberAt order offset 4)).toNat = w.numberAt order offset 4 :=
  UInt32.toNat_ofNat_of_lt' (w.numberAt_lt order offset 4)

theorem uint16_eq_ok {w : Window} {offset : ℕ} (h : offset + 2 ≤ w.size) (order : ByteOrder) :
    w.uint16 order offset = .ok (UInt16.ofNat (w.numberAt order offset 2)) :=
  read_eq_ok h _

end Window

/-! ### Machine words -/

/-- A signed word through the unsigned one with the same bits. -/
theorem int32_toInt_eq (x : Int32) :
    x.toInt = if x.toUInt32.toNat < 2 ^ 31 then (x.toUInt32.toNat : Int)
      else x.toUInt32.toNat - 2 ^ 32 := by
  have hbits : x.toInt = x.toUInt32.toBitVec.toInt := rfl
  have hnat : x.toUInt32.toBitVec.toNat = x.toUInt32.toNat := rfl
  rw [hbits, BitVec.toInt_eq_toNat_cond, hnat]
  split <;> split <;> omega

/-- Clearing the two low bits of a word. -/
theorem and_not_three_toNat (x : UInt32) : (x &&& ~~~3).toNat = x.toNat / 4 * 4 := by
  have hmask : (~~~3 : UInt32).toNat = (2 ^ 30 - 1) <<< 2 := by decide
  rw [UInt32.toNat_and, hmask]
  refine Nat.eq_of_testBit_eq fun i => ?_
  have hshift : x.toNat / 4 * 4 = (x.toNat >>> 2) <<< 2 := by
    rw [Nat.shiftRight_eq_div_pow, Nat.shiftLeft_eq]
  rw [hshift, Nat.testBit_and, Nat.testBit_shiftLeft, Nat.testBit_shiftLeft, Nat.testBit_shiftRight,
    Nat.testBit_two_pow_sub_one]
  by_cases hi : i ≥ 2
  · have hback : 2 + (i - 2) = i := by omega
    rw [hback]
    by_cases hsmall : i - 2 < 30
    · simp [hi, hsmall]
    · have hbig : x.toNat.testBit i = false :=
        Nat.testBit_lt_two_pow (x.toNat_lt.trans_le (Nat.pow_le_pow_right (by decide) (by omega)))
      simp [hbig]
  · simp [hi]

/-- A length rounded up to a multiple of four. -/
def alignUp (len : UInt32) : UInt32 := (len + 3) &&& ~~~3

theorem alignUp_toNat {len : UInt32} (h : len.toNat < 2 ^ 32 - 3) :
    (alignUp len).toNat = (len.toNat + 3) / 4 * 4 := by
  rw [alignUp, and_not_three_toNat, UInt32.toNat_add, Nat.mod_eq_of_lt]
  · rfl
  · change len.toNat + 3 < 2 ^ 32
    omega

end Qiftop.Lib
