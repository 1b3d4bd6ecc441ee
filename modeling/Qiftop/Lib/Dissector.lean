import Qiftop.Lib.Bytes

/-!
# Lib — readers that give up

A `Dissector` reads a window and ends in one of three ways: with a result, with nothing, because what it
reads is not of its kind, or with a fault.  `Yields r Q` says that `r` never faults and that its result,
where there is one, has the property `Q`.

* `yields_pure`, `yields_bind`, `yields_guard`, `yields_read`: the rules, one for each way to build a
  reader.  A read needs room, which the guards before it give.
* `run_bind_some`, `run_guard`, `run_lift`: running a reader step by step on a window that is known.
-/

namespace Qiftop.Lib

/-- A reader's result, nothing or a fault. -/
abbrev Dissector (α : Type) := OptionT (Except Fault) α

namespace Dissector
variable {α β : Type} {r : Dissector α} {f : α → Dissector β} {Q : α → Prop} {S : β → Prop}

/-- No fault, and a result only with the property. -/
def Yields (r : Dissector α) (Q : α → Prop) : Prop := ∃ a, r.run = .ok a ∧ ∀ x, a = some x → Q x

/-! ### Running -/

theorem run_bind_some {a : α} (h : r.run = .ok (some a)) : (r >>= f).run = (f a).run := by
  rw [OptionT.run_bind, h]
  rfl

theorem run_bind_none (h : r.run = .ok none) : (r >>= f).run = .ok none := by
  rw [OptionT.run_bind, h]
  rfl

theorem run_guard {c : Prop} [Decidable c] (h : c) : (guard c : Dissector Unit).run = .ok (some ()) := by
  rw [guard, if_pos h]
  rfl

theorem run_guard_neg {c : Prop} [Decidable c] (h : ¬ c) : (guard c : Dissector Unit).run = .ok none := by
  rw [guard, if_neg h]
  rfl

theorem run_lift {x : Except Fault α} {a : α} (h : x = .ok a) :
    (liftM x : Dissector α).run = .ok (some a) := by
  rw [h]
  rfl

/-! ### The rules -/

theorem yields_pure {a : α} (h : Q a) : Yields (pure a) Q := by
  refine ⟨some a, rfl, ?_⟩
  rintro x ⟨⟩
  exact h

/-- What gives up has no result. -/
theorem yields_of_none (h : r.run = .ok none) : Yields r Q := by
  refine ⟨none, h, ?_⟩
  rintro x ⟨⟩

theorem yields_failure : Yields (failure : Dissector α) Q := yields_of_none rfl

theorem yields_bind (h : r.Yields Q) (hf : ∀ a, Q a → (f a).Yields S) : (r >>= f).Yields S := by
  obtain ⟨a, hrun, ha⟩ := h
  cases a with
  | none => exact yields_of_none (run_bind_none hrun)
  | some a =>
      obtain ⟨b, hb, hS⟩ := hf a (ha a rfl)
      exact ⟨b, (run_bind_some hrun).trans hb, hS⟩

/-- After a guard its condition holds. -/
theorem yields_guard (c : Prop) [Decidable c] : Yields (guard c : Dissector Unit) fun _ => c := by
  by_cases h : c
  · exact ⟨some (), run_guard h, fun _ _ => h⟩
  · exact yields_of_none (run_guard_neg h)

theorem yields_lift {x : Except Fault α} (h : ∃ a, x = .ok a ∧ Q a) :
    Yields (liftM x : Dissector α) Q := by
  obtain ⟨a, hx, hQ⟩ := h
  refine ⟨some a, run_lift hx, ?_⟩
  rintro y ⟨⟩
  exact hQ

/-- A read with room. -/
theorem yields_read {w : Window} {offset k : ℕ} (h : offset + k ≤ w.size) (g : List UInt8 → α) :
    Yields (liftM (w.read offset k g) : Dissector α) fun _ => True :=
  yields_lift ⟨_, w.read_eq_ok h g, trivial⟩

end Dissector

end Qiftop.Lib
