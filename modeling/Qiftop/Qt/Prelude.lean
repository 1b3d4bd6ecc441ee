import Mathlib.Data.Rat.Defs
import Mathlib.Algebra.Order.Field.Rat
import Mathlib.Data.List.Sort

/-!
# Qt — what the program takes from its toolkit

The parts of Qt and of the C++ library the modelled code computes with.

* `QString` is a list of characters; `arg` is `QString::arg`, which replaces every occurrence of
  the lowest-numbered place marker `%n` (or `%Ln`) of the current string, text substituted by an
  earlier call included.
* `QHostAddress` is an address by its protocol and its canonical text, the two things the program
  ever reads of it: `operator==` is equality of the two, `toString` is the text.  Reading an
  address from a text a peer sends is a parameter where it is used.
* `Double` collects the operations on `double` the program uses.  Nothing is assumed of them, so
  what is proved holds whatever the rounding; `ℚ` is the instance that runs.
* `StdSort` is `std::sort`: some permutation, ordered by the comparator.  The order of equivalent
  elements is the algorithm's.
-/

namespace Qiftop.Qt

/-- A text. -/
abbrev QString := List Char

instance : LawfulBEq QString := inferInstance

/-! ### `QString::arg` -/

/-- The value of an ASCII digit. -/
def argDigitValue (c : Char) : Option Nat :=
  if '0' ≤ c ∧ c ≤ '9' then some (c.toNat - '0'.toNat) else none

/-- One or two digits at the head of a text: their value and how many there are. -/
def argDigits : QString → Option (Nat × Nat)
  | [] => none
  | a :: s => (argDigitValue a).map fun d =>
      match s.head?.bind argDigitValue with
      | some e => (10 * d + e, 2)
      | none => (d, 1)

/-- The place marker at the head of a text: its number and its length. -/
def markerAt : QString → Option (Nat × Nat)
  | '%' :: 'L' :: s => (argDigits s).map fun (n, len) => (n, len + 2)
  | '%' :: s => (argDigits s).map fun (n, len) => (n, len + 1)
  | _ => none

/-- The lowest marker number of a text. -/
def lowestMarker : QString → Option Nat
  | [] => none
  | c :: s =>
      match markerAt (c :: s), lowestMarker s with
      | some (n, _), some m => some (min n m)
      | some (n, _), none => some n
      | none, r => r

/-- `s` with every marker `n` replaced by `a`.  The first argument counts the characters of a
replaced marker still to be skipped. -/
def substMarker (n : Nat) (a : QString) : Nat → QString → QString
  | _, [] => []
  | k + 1, _ :: s => substMarker n a k s
  | 0, c :: s =>
      match markerAt (c :: s) with
      | some (m, len) =>
          if m = n then a ++ substMarker n a (len - 1) s else c :: substMarker n a 0 s
      | none => c :: substMarker n a 0 s

/-- `QString::arg`. -/
def arg (s a : QString) : QString :=
  match lowestMarker s with
  | some n => substMarker n a 0 s
  | none => s

/-- `QString::number`. -/
def number (n : Nat) : QString := Nat.toDigits 10 n

theorem markerAt_cons {c : Char} (hc : c ≠ '%') (s : QString) : markerAt (c :: s) = none := by
  unfold markerAt
  split <;> simp_all

theorem lowestMarker_append {p : QString} (hp : '%' ∉ p) (s : QString) :
    lowestMarker (p ++ s) = lowestMarker s := by
  induction p with
  | nil => rfl
  | cons c p ih =>
      simp only [List.mem_cons, not_or] at hp
      rw [List.cons_append, lowestMarker, markerAt_cons (Ne.symm hp.1), ih hp.2]

theorem substMarker_append {p : QString} (hp : '%' ∉ p) (n : Nat) (a s : QString) :
    substMarker n a 0 (p ++ s) = p ++ substMarker n a 0 s := by
  induction p with
  | nil => rfl
  | cons c p ih =>
      simp only [List.mem_cons, not_or] at hp
      rw [List.cons_append, substMarker, markerAt_cons (Ne.symm hp.1), ih hp.2, List.cons_append]

/-- Text before the first `%` stays as it is. -/
theorem arg_append {p : QString} (hp : '%' ∉ p) (s a : QString) :
    arg (p ++ s) a = p ++ arg s a := by
  unfold arg
  rw [lowestMarker_append hp]
  cases lowestMarker s with
  | none => rfl
  | some n => exact substMarker_append hp n a s

/-! ### Addresses -/

/-- `QAbstractSocket::NetworkLayerProtocol`, as far as an address has one. -/
inductive Protocol where
  | IPv4Protocol | IPv6Protocol | UnknownNetworkLayerProtocol
  deriving DecidableEq, Repr

/-- `QHostAddress`: the protocol and the canonical text. -/
structure QHostAddress where
  protocol : Protocol
  toString : QString
  deriving DecidableEq, Repr

namespace QHostAddress

/-- The default-constructed address. -/
def null : QHostAddress := ⟨.UnknownNetworkLayerProtocol, []⟩

/-- `QHostAddress(QHostAddress::LocalHost)`. -/
def LocalHost : QHostAddress := ⟨.IPv4Protocol, "127.0.0.1".toList⟩

/-- `QHostAddress(QHostAddress::LocalHostIPv6)`. -/
def LocalHostIPv6 : QHostAddress := ⟨.IPv6Protocol, "::1".toList⟩

/-- `QHostAddress::isNull`. -/
def isNull (a : QHostAddress) : Bool := a.protocol == .UnknownNetworkLayerProtocol

end QHostAddress

/-! ### Doubles and sorting -/

/-- The operations on `double` the program uses. -/
class Double (F : Type) where
  ofInt : Int → F
  add : F → F → F
  sub : F → F → F
  mul : F → F → F
  div : F → F → F
  lt : F → F → Bool
  le : F → F → Bool
  eq : F → F → Bool

/-- Exact arithmetic. -/
instance : Double ℚ where
  ofInt n := n
  add := (· + ·)
  sub := (· - ·)
  mul := (· * ·)
  div := (· / ·)
  lt a b := decide (a < b)
  le a b := decide (a ≤ b)
  eq a b := decide (a = b)

/-- What `std::sort` asks of its comparator: a strict weak order. -/
structure StrictWeak {α : Type} (lt : α → α → Bool) : Prop where
  asymm : ∀ a b, lt a b = true → lt b a = false
  negTrans : ∀ a b c, lt b a = false → lt c b = false → lt c a = false

/-- The converse of a strict weak order is one. -/
theorem StrictWeak.flip {α : Type} {lt : α → α → Bool} (h : StrictWeak lt) :
    StrictWeak fun a b => lt b a where
  asymm a b hab := h.asymm b a hab
  negTrans a b c hab hbc := h.negTrans c b a hbc hab

/-- Comparing what a function makes of the elements. -/
theorem StrictWeak.comap {α β : Type} {lt : β → β → Bool} (h : StrictWeak lt) (f : α → β) :
    StrictWeak fun a b => lt (f a) (f b) where
  asymm a b := h.asymm (f a) (f b)
  negTrans a b c := h.negTrans (f a) (f b) (f c)

/-- A linear order is a strict weak order. -/
theorem StrictWeak.linear {α : Type} [LinearOrder α] : StrictWeak fun a b : α => decide (a < b) where
  asymm a b hab := decide_eq_false (of_decide_eq_true hab).asymm
  negTrans a b c hba hcb := by
    rw [decide_eq_false_iff_not, not_lt] at *
    exact hba.trans hcb

/-- Comparing by a measure, the greater first, is a strict weak order. -/
theorem StrictWeak.greater {α : Type} (w : α → ℕ) : StrictWeak fun a b => decide (w a > w b) :=
  (StrictWeak.linear.comap w).flip

/-- `std::sort` under a comparator. -/
structure StdSort where
  sort : {α : Type} → (α → α → Bool) → List α → List α
  perm : ∀ {α : Type} (lt : α → α → Bool) (l : List α), (sort lt l).Perm l
  ordered : ∀ {α : Type} {lt : α → α → Bool} (l : List α), StrictWeak lt →
    (sort lt l).Pairwise fun a b => lt b a = false

/-- A stable sort. -/
def StdSort.stable : StdSort where
  sort lt l := l.insertionSort fun a b => lt b a = false
  perm _ l := l.perm_insertionSort _
  ordered {α lt} l h := by
    have total : Std.Total fun a b : α => lt b a = false := ⟨fun a b => by
      cases hba : lt b a with
      | false => exact .inl rfl
      | true => exact .inr (h.asymm b a hba)⟩
    have trans : IsTrans α fun a b => lt b a = false := ⟨h.negTrans⟩
    exact List.pairwise_insertionSort _ l

open Classical in
/-- Every ordered arrangement of a list is what some `std::sort` makes of it. -/
theorem StdSort.exists_sort_eq {α : Type} {lt : α → α → Bool} {l r : List α} (hperm : r.Perm l)
    (hordered : r.Pairwise fun a b => lt b a = false) : ∃ S : StdSort, S.sort lt l = r := by
  let sort {β : Type} (lt' : β → β → Bool) (l' : List β) : List β :=
    if h : (⟨β, lt', l'⟩ : Σ β : Type, (β → β → Bool) × List β) = ⟨α, lt, l⟩ then
      cast (congrArg List (congrArg Sigma.fst h).symm) r
    else StdSort.stable.sort lt' l'
  have hsort : sort lt l = r := dif_pos rfl
  refine ⟨⟨sort, ?_, ?_⟩, hsort⟩
  · intro β lt' l'
    by_cases h : (⟨β, lt', l'⟩ : Σ β : Type, (β → β → Bool) × List β) = ⟨α, lt, l⟩
    · cases h
      rw [hsort]
      exact hperm
    · simp only [sort, dif_neg h]
      exact StdSort.stable.perm lt' l'
  · intro β lt' l' hweak
    by_cases h : (⟨β, lt', l'⟩ : Σ β : Type, (β → β → Bool) × List β) = ⟨α, lt, l⟩
    · cases h
      rw [hsort]
      exact hordered
    · simp only [sort, dif_neg h]
      exact StdSort.stable.ordered l' hweak

/-- A heap in the sense of `std::is_heap`: no element's parent is below it. -/
def IsHeap {α : Type} (lt : α → α → Bool) (l : List α) : Prop :=
  ∀ i a b, 0 < i → l[(i - 1) / 2]? = some a → l[i]? = some b → lt a b = false

/-- `std::push_heap` on a heap followed by one element, and `std::pop_heap` on a heap. -/
structure StdHeap where
  push : {α : Type} → (α → α → Bool) → List α → List α
  pop : {α : Type} → (α → α → Bool) → List α → List α
  push_perm : ∀ {α : Type} (lt : α → α → Bool) (l : List α), (push lt l).Perm l
  push_heap : ∀ {α : Type} {lt : α → α → Bool} (l : List α) (x : α), StrictWeak lt →
    IsHeap lt l → IsHeap lt (push lt (l ++ [x]))
  pop_perm : ∀ {α : Type} (lt : α → α → Bool) (l : List α), (pop lt l).Perm l
  pop_heap : ∀ {α : Type} {lt : α → α → Bool} (x : α) (l : List α), StrictWeak lt →
    IsHeap lt (x :: l) → ∃ l', pop lt (x :: l) = l' ++ [x] ∧ IsHeap lt l'

/-- A list in descending order is a heap. -/
theorem isHeap_of_pairwise {α : Type} {lt : α → α → Bool} {l : List α}
    (h : l.Pairwise fun a b => lt a b = false) : IsHeap lt l := by
  intro i a b hi ha hb
  obtain ⟨hi', rfl⟩ := List.getElem?_eq_some_iff.mp ha
  obtain ⟨hj', rfl⟩ := List.getElem?_eq_some_iff.mp hb
  exact List.pairwise_iff_getElem.mp h _ _ hi' hj' (by omega)

/-- No element of a heap is above the first. -/
theorem IsHeap.head {α : Type} {lt : α → α → Bool} (hlt : StrictWeak lt) {a : α} {l : List α}
    (h : IsHeap lt (a :: l)) {b : α} (hb : b ∈ a :: l) : lt a b = false := by
  obtain ⟨i, hi⟩ := List.getElem?_of_mem hb
  -- up the parents of `b`
  induction i using Nat.strongRecOn generalizing b with
  | ind i ih =>
      by_cases hpos : 0 < i
      · have hlen := (List.getElem?_eq_some_iff.mp hi).1
        obtain ⟨p, hp⟩ : ∃ p, (a :: l)[(i - 1) / 2]? = some p :=
          ⟨_, List.getElem?_eq_getElem (by omega)⟩
        exact hlt.negTrans b p a (h i p b hpos hp hi)
          (ih ((i - 1) / 2) (by omega) (List.mem_of_getElem? hp) hp)
      · obtain rfl : i = 0 := by omega
        obtain rfl : a = b := by simpa using hi
        cases haa : lt a a with
        | false => rfl
        | true => exact haa.symm.trans (hlt.asymm a a haa)
/-- Heaps kept in descending order. -/
def StdHeap.sorted : StdHeap where
  push lt l := StdSort.stable.sort (fun a b => lt b a) l
  pop lt l := match l with
    | [] => []
    | x :: l => StdSort.stable.sort (fun a b => lt b a) l ++ [x]
  push_perm lt l := StdSort.stable.perm _ l
  push_heap l x h _ := isHeap_of_pairwise (StdSort.stable.ordered (l ++ [x]) h.flip)
  pop_perm lt l := by
    cases l with
    | nil => exact .refl _
    | cons x l => exact List.perm_append_comm.trans (.cons x (StdSort.stable.perm _ l))
  pop_heap x l h _ :=
    ⟨_, rfl, isHeap_of_pairwise (StdSort.stable.ordered l h.flip)⟩

end Qiftop.Qt
