import Mathlib.Data.List.Chain

/-!
# Lib — runs of a machine

A machine takes one event at a time and answers with a new state and some outputs.  `run` feeds it
a list of events and collects the outputs; `EachStep` says that a relation between the state and the
next event holds at every step of a run.

* `run_append`: a run in two parts.
* `run_invariant`, `run_trace_invariant`: what one step keeps, a run keeps.
* `AlwaysFrom`: each output stands in a relation to what was output before it; `alwaysFrom_run_iff`
  reads this of a run step by step.
* `forall_states_iff`: what holds in every state of a run, step by step.
* `changes_append`: a log in which a value is entered when it changes.
-/

namespace Qiftop.Lib

variable {S E O : Type} (step : S → E → S × List O)

/-- The state after a list of events, and what was output on the way. -/
def run (s : S) : List E → S × List O
  | [] => (s, [])
  | e :: es => ((run (step s e).1 es).1, (step s e).2 ++ (run (step s e).1 es).2)

@[simp] theorem run_nil (s : S) : run step s [] = (s, []) := rfl

theorem run_append (s : S) (es es' : List E) :
    run step s (es ++ es') =
      ((run step (run step s es).1 es').1, (run step s es).2 ++ (run step (run step s es).1 es').2) := by
  induction es generalizing s with
  | nil => rfl
  | cons e es ih => simp only [List.cons_append, run, ih, List.append_assoc]

/-- The last event of a run. -/
theorem run_concat (s : S) (es : List E) (e : E) :
    run step s (es ++ [e]) =
      ((step (run step s es).1 e).1, (run step s es).2 ++ (step (run step s es).1 e).2) := by
  rw [run_append]
  simp [run]

section Invariant
variable {step}

/-- An invariant of the state and the outputs so far. -/
theorem run_trace_invariant (I : S → List O → Prop)
    (hstep : ∀ s tr e, I s tr → I (step s e).1 (tr ++ (step s e).2)) {s : S} (tr : List O)
    (h : I s tr) (es : List E) : I (run step s es).1 (tr ++ (run step s es).2) := by
  induction es generalizing s tr with
  | nil => simpa using h
  | cons e es ih =>
      simp only [run, ← List.append_assoc]
      exact ih _ (hstep s tr e h)

/-- An invariant of the state. -/
theorem run_invariant (I : S → Prop) (hstep : ∀ s e, I s → I (step s e).1) {s : S} (h : I s)
    (es : List E) : I (run step s es).1 :=
  run_trace_invariant (fun s _ => I s) (fun s _ e => hstep s e) [] h es

end Invariant

/-- `P` holds of the state and the event at every step of the run. -/
def EachStep (P : S → E → Prop) (s : S) : List E → Prop
  | [] => True
  | e :: es => P s e ∧ EachStep P (step s e).1 es

/-- An invariant of the steps that meet a condition. -/
theorem EachStep.invariant {step : S → E → S × List O} {P : S → E → Prop} {I : S → Prop}
    (hstep : ∀ s e, I s → P s e → I (step s e).1) {s : S} (h : I s) {es : List E}
    (hes : EachStep step P s es) : I (run step s es).1 := by
  induction es generalizing s with
  | nil => exact h
  | cons e es ih => exact ih (hstep s e h hes.1) hes.2

/-! ### Outputs and what came before them -/

/-- `Q` holds of each of the outputs and all that was output before it, `tr` first. -/
def AlwaysFrom (Q : List O → O → Prop) (tr : List O) : List O → Prop
  | [] => True
  | o :: outs => Q tr o ∧ AlwaysFrom Q (tr ++ [o]) outs

theorem alwaysFrom_append (Q : List O → O → Prop) (tr outs outs' : List O) :
    AlwaysFrom Q tr (outs ++ outs') ↔ AlwaysFrom Q tr outs ∧ AlwaysFrom Q (tr ++ outs) outs' := by
  induction outs generalizing tr with
  | nil => simp [AlwaysFrom]
  | cons o outs ih => simp [AlwaysFrom, ih, and_assoc]

/-- The outputs one by one. -/
theorem alwaysFrom_iff_split (Q : List O → O → Prop) (tr outs : List O) :
    AlwaysFrom Q tr outs ↔ ∀ pre o post, outs = pre ++ o :: post → Q (tr ++ pre) o := by
  constructor
  · rintro h pre o post rfl
    rw [alwaysFrom_append] at h
    exact h.2.1
  · intro h
    induction outs generalizing tr with
    | nil => trivial
    | cons o outs ih =>
        refine ⟨by simpa using h [] o outs rfl, ih _ fun pre o' post e => ?_⟩
        have := h (o :: pre) o' post (by rw [e]; rfl)
        simpa using this

theorem AlwaysFrom.split {Q : List O → O → Prop} {outs : List O} (h : AlwaysFrom Q [] outs)
    {pre post : List O} {o : O} (e : outs = pre ++ o :: post) : Q pre o :=
  (alwaysFrom_iff_split Q [] outs).1 h pre o post e

section Always
variable {step}

/-- Outputs of a run, step by step: under an invariant of the state and the outputs so far, they
satisfy `Q` exactly when every step satisfies `P`. -/
theorem alwaysFrom_run_iff (I : S → List O → Prop) {Q : List O → O → Prop} {P : S → E → Prop}
    (hstep : ∀ s tr e, I s tr → I (step s e).1 (tr ++ (step s e).2))
    (hPQ : ∀ s tr e, I s tr → (AlwaysFrom Q tr (step s e).2 ↔ P s e)) {s : S} (tr : List O)
    (h : I s tr) (es : List E) :
    AlwaysFrom Q tr (run step s es).2 ↔ EachStep step P s es := by
  induction es generalizing s tr with
  | nil => exact Iff.rfl
  | cons e es ih =>
      simp only [run, EachStep, alwaysFrom_append]
      exact and_congr (hPQ s tr e h) (ih _ (hstep s tr e h))

end Always

/-! ### What holds in every state of a run -/

section Fold
variable {E : Type*} {move : S → E → S}

/-- An invariant of a run without outputs. -/
theorem foldl_invariant {I : S → Prop} (hmove : ∀ s e, I s → I (move s e)) {s : S} (h : I s)
    (es : List E) : I (es.foldl move s) := by
  induction es generalizing s with
  | nil => exact h
  | cons e es ih => exact ih (hmove s e h)

/-- Under an invariant, `P` holds in every state of a run exactly when every step meets `C`, if `C` says
of a step from a state with `P` whether it keeps `P`. -/
theorem forall_states_iff {I P : S → Prop} {C : S → E → Prop}
    (hmove : ∀ s e, I s → I (move s e)) (hC : ∀ s e, I s → P s → (P (move s e) ↔ C s e)) {s : S}
    (hI : I s) (hP : P s) (es : List E) :
    (∀ pre, pre <+: es → P (pre.foldl move s)) ↔
      ∀ pre e, pre ++ [e] <+: es → C (pre.foldl move s) e := by
  constructor
  · intro h pre e hpre
    have hnext := h (pre ++ [e]) hpre
    rw [List.foldl_append] at hnext
    exact (hC _ e (foldl_invariant hmove hI pre) (h pre ((List.prefix_append pre [e]).trans hpre))).mp
      hnext
  · intro h pre
    induction pre using List.reverseRecOn with
    | nil => exact fun _ => hP
    | append_singleton pre e ih =>
        intro hpre
        have hbefore := ih ((List.prefix_append pre [e]).trans hpre)
        rw [List.foldl_append]
        exact (hC _ e (foldl_invariant hmove hI pre) hbefore).mpr (h pre e hpre)

end Fold

/-! ### Logs of changes -/

/-- A log whose last entry is the current value and in which no value follows itself, with the next
value entered if it is a new one. -/
theorem changes_append {α : Type} [DecidableEq α] {log : List α} {a : α}
    (hlast : log.getLast? = some a) (hchanges : log.IsChain (· ≠ ·)) (b : α) :
    (log ++ if b = a then [] else [b]).getLast? = some b ∧
      (log ++ if b = a then [] else [b]).IsChain (· ≠ ·) := by
  split
  · next heq =>
      rw [List.append_nil, heq]
      exact ⟨hlast, hchanges⟩
  · next hne =>
      refine ⟨by simp, List.IsChain.append hchanges (List.isChain_singleton _) ?_⟩
      intro x hx y hy
      rw [hlast] at hx
      cases hx
      cases hy
      exact fun e => hne e.symm

end Qiftop.Lib
