import Qiftop.Lib.Hash

/-!
# Lib — keys in order

A hash table beside a list of its keys, which keeps the order that the table does not.

* `Orders`: the list has the keys of the table, each once.
* `Stamped`: the elements of a list come in the order of their stamps.  What an operation that renews
  one element's stamp does to the order: at either end it keeps it (`Stamped.front`, `Stamped.concat`);
  in its old place it keeps it exactly when none of those behind is out of order with the new stamp
  (`Stamped.update_iff`).
* `lastUse`: the position of an element's last occurrence, as a stamp.
-/

namespace Qiftop.Lib

variable {K V T : Type}

/-- The list has the keys of the table, each once. -/
structure Orders (order : List K) (h : Hash K V) : Prop where
  nodup : order.Nodup
  mem_iff : ∀ k, k ∈ order ↔ k ∈ h

namespace Orders
variable {order order' : List K} {h : Hash K V} {k : K}

theorem empty : Orders [] (∅ : Hash K V) := ⟨List.nodup_nil, fun k => by simp⟩

theorem length_eq (ho : Orders order h) : order.length = h.keys.length := by
  refine ((List.perm_ext_iff_of_nodup ho.nodup h.keys_nodup).mpr fun k => ?_).length_eq
  rw [ho.mem_iff, AList.mem_keys]

theorem perm (ho : Orders order h) (hperm : order'.Perm order) : Orders order' h :=
  ⟨hperm.nodup_iff.mpr ho.nodup, fun k => hperm.mem_iff.trans (ho.mem_iff k)⟩

variable [DecidableEq K]

/-- A key's value is replaced. -/
theorem insert_of_mem (ho : Orders order h) (hk : k ∈ h) (v : V) : Orders order (h.insert k v) := by
  refine ⟨ho.nodup, fun k' => ?_⟩
  rw [ho.mem_iff, AList.mem_insert]
  exact ⟨.inr, fun hor => hor.elim (fun e => e ▸ hk) id⟩

/-- A new key in front. -/
theorem cons (ho : Orders order h) (hk : k ∉ h) (v : V) : Orders (k :: order) (h.insert k v) := by
  refine ⟨List.nodup_cons.mpr ⟨fun hmem => hk ((ho.mem_iff k).mp hmem), ho.nodup⟩, fun k' => ?_⟩
  rw [List.mem_cons, ho.mem_iff, AList.mem_insert]

/-- A new key at the end. -/
theorem concat (ho : Orders order h) (hk : k ∉ h) (v : V) : Orders (order ++ [k]) (h.insert k v) :=
  (ho.cons hk v).perm List.perm_append_comm

/-- The key in front is removed. -/
theorem tail (ho : Orders (k :: order) h) : Orders order (h.erase k) := by
  obtain ⟨hk, hnodup⟩ := List.nodup_cons.mp ho.nodup
  refine ⟨hnodup, fun k' => ?_⟩
  rw [AList.mem_erase, ← ho.mem_iff, List.mem_cons]
  constructor
  · intro hmem
    exact ⟨fun e => hk (e ▸ hmem), .inr hmem⟩
  · rintro ⟨hne, hor⟩
    exact hor.resolve_left hne

/-- The last key is removed. -/
theorem dropLast (ho : Orders (order ++ [k]) h) : Orders order (h.erase k) := by
  have hfront : Orders (k :: order) h := ho.perm (List.perm_append_singleton k order).symm
  exact hfront.tail

end Orders

/-! ### Order by a stamp -/

/-- The elements come in the order of their stamps. -/
def Stamped (r : T → T → Prop) (stamp : K → T) (order : List K) : Prop :=
  order.Pairwise fun a b => r (stamp a) (stamp b)

section
variable [DecidableEq K]

/-- What comes after an element. -/
def behind (a : K) (order : List K) : List K := (order.dropWhile (· ≠ a)).tail

theorem split_behind {a : K} {order : List K} (h : a ∈ order) :
    ∃ before, a ∉ before ∧ order = before ++ a :: behind a order := by
  induction order with
  | nil => cases h
  | cons b order ih =>
      by_cases hb : b = a
      · subst hb
        exact ⟨[], List.not_mem_nil, by simp [behind]⟩
      · obtain ⟨before, hnot, heq⟩ := ih ((List.mem_cons.mp h).resolve_left (Ne.symm hb))
        have hbehind : behind a (b :: order) = behind a order := by simp [behind, hb]
        refine ⟨b :: before, by simp [hnot, Ne.symm hb], ?_⟩
        rw [hbehind, List.cons_append, ← heq]

theorem update_of_mem {stamp : K → T} {l : List K} {a b : K} {now : T} (ha : a ∉ l) (hb : b ∈ l) :
    Function.update stamp a now b = stamp b := by
  refine Function.update_of_ne ?_ _ _
  rintro rfl
  exact ha hb

namespace Stamped
variable {r : T → T → Prop} {stamp : K → T} {order : List K} {a : K} {now : T}

/-- A stamp of none of the elements does not matter. -/
theorem update_of_notMem (ha : a ∉ order) :
    Stamped r (Function.update stamp a now) order ↔ Stamped r stamp order := by
  refine List.Pairwise.iff_of_mem fun {b c} hb hc => ?_
  rw [update_of_mem ha hb, update_of_mem ha hc]

/-- The new stamp goes in front. -/
theorem front (h : Stamped r stamp order) (hnodup : order.Nodup)
    (hnow : ∀ b ∈ order, r now (stamp b)) :
    Stamped r (Function.update stamp a now) (a :: order.erase a) := by
  have ha : a ∉ order.erase a := fun hmem => (hnodup.mem_erase_iff.mp hmem).1 rfl
  refine List.pairwise_cons.mpr ⟨fun b hb => ?_, (update_of_notMem ha).mpr (h.sublist List.erase_sublist)⟩
  rw [Function.update_self, update_of_mem ha hb]
  exact hnow b (List.mem_of_mem_erase hb)

/-- The new stamp goes to the end. -/
theorem concat (h : Stamped r stamp order) (ha : a ∉ order) (hnow : ∀ b ∈ order, r (stamp b) now) :
    Stamped r (Function.update stamp a now) (order ++ [a]) := by
  refine List.pairwise_append.mpr ⟨(update_of_notMem ha).mpr h, List.pairwise_singleton _ _, ?_⟩
  intro b hb c hc
  obtain rfl := List.mem_singleton.mp hc
  rw [Function.update_self, update_of_mem ha hb]
  exact hnow b hb

/-- The new stamp stays in the old one's place. -/
theorem update_iff (h : Stamped r stamp order) (hnodup : order.Nodup) (ha : a ∈ order)
    (hnow : ∀ b ∈ order, r (stamp b) now) :
    Stamped r (Function.update stamp a now) order ↔ ∀ b ∈ behind a order, r now (stamp b) := by
  obtain ⟨before, hbefore, heq⟩ := split_behind ha
  rw [heq, List.nodup_append, List.nodup_cons] at hnodup
  have hbehind : a ∉ behind a order := hnodup.2.1.1
  unfold Stamped at h ⊢
  rw [heq, List.pairwise_append, List.pairwise_cons] at h
  obtain ⟨h₁, ⟨-, h₂⟩, hacross⟩ := h
  constructor
  · intro hnew b hb
    rw [heq, List.pairwise_append, List.pairwise_cons] at hnew
    have hfirst := hnew.2.1.1 b hb
    rwa [Function.update_self, update_of_mem hbehind hb] at hfirst
  · intro hall
    rw [heq, List.pairwise_append, List.pairwise_cons]
    refine ⟨(update_of_notMem hbefore).mpr h₁, ⟨fun b hb => ?_, (update_of_notMem hbehind).mpr h₂⟩, ?_⟩
    · rw [Function.update_self, update_of_mem hbehind hb]
      exact hall b hb
    · intro b hb c hc
      rw [update_of_mem hbefore hb]
      rcases List.mem_cons.mp hc with rfl | hc
      · rw [Function.update_self]
        exact hnow b (heq ▸ List.mem_append_left _ hb)
      · rw [update_of_mem hbehind hc]
        exact hacross b hb c (List.mem_cons_of_mem _ hc)

end Stamped

/-! ### Positions as stamps -/

/-- The position of the last occurrence, counted from one; zero if there is none. -/
def lastUse (uses : List K) (k : K) : ℕ := uses.length - uses.reverse.idxOf k

theorem lastUse_le (uses : List K) (k : K) : lastUse uses k ≤ uses.length := Nat.sub_le _ _

theorem lastUse_concat (uses : List K) (a : K) :
    lastUse (uses ++ [a]) = Function.update (lastUse uses) a (uses.length + 1) := by
  funext k
  rw [lastUse, List.reverse_append, List.reverse_singleton, List.singleton_append, List.length_append,
    List.length_singleton]
  by_cases hk : k = a
  · subst hk
    rw [List.idxOf_cons_self, Function.update_self, Nat.sub_zero]
  · rw [List.idxOf_cons_ne _ (Ne.symm hk), Function.update_of_ne hk, Nat.add_sub_add_right]
    rfl

end

end Qiftop.Lib
