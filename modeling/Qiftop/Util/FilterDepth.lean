import Mathlib.Algebra.Order.Field.Rat
import Qiftop.Util.FilterAccepts

/-!
# Util — the evaluator's depth limit

The parser bounds how deeply its own functions nest, and reports an error beyond that.  Its loops
build `a or b or c …` at one level, as a tree that leans to the left and grows by one level with
every operand.  `evalExpr` has the same bound on the levels of the tree, and what lies below it is
false without an error.

`evalExpr_ofFormula` says what the evaluator computes: the value of the first 64 levels.
`matches_eq_plain_iff` compares that with the plain value of an accepted text.
-/

namespace Qiftop.Filter
open Qt Backend Lib

section
variable {F : Type} [Double F] (T : TextOps F)

/-- The value of a formula without any limit. -/
def plainValue (e : Formula (Predicate F)) (ctx : Context F) : Bool :=
  e.value (evalPredicate T · ctx)

/-- In this context it makes no difference whether what lies below `kMaxExprDepth` levels of the
formula is false. -/
def CutUnseen (e : Formula (Predicate F)) (ctx : Context F) : Prop :=
  (e.cut kMaxExprDepth).value (Formula.orFalse (evalPredicate T · ctx)) = plainValue T e ctx

instance (e : Formula (Predicate F)) (ctx : Context F) : Decidable (CutUnseen T e ctx) :=
  inferInstanceAs (Decidable (_ = _))

theorem evalExpr_spent {depth : Nat} (h : kMaxExprDepth ≤ depth) (ctx : Context F)
    (e : Formula (Predicate F)) : evalExpr T ctx (.ofFormula e) depth = false := by
  cases e <;> simp only [ExprPtr.ofFormula, evalExpr, if_pos h]

/-- **What the evaluator computes**: the value of the levels left to it. -/
theorem evalExpr_ofFormula (ctx : Context F) {n depth : Nat} (h : depth + n = kMaxExprDepth)
    (e : Formula (Predicate F)) :
    evalExpr T ctx (.ofFormula e) depth =
      (e.cut n).value (Formula.orFalse (evalPredicate T · ctx)) := by
  induction n generalizing depth e with
  | zero => exact evalExpr_spent T h.ge ctx e
  | succ n ih =>
      have hlt : ¬kMaxExprDepth ≤ depth := by omega
      have hn : depth + 1 + n = kMaxExprDepth := by omega
      cases e with
      | atom p =>
          simp only [ExprPtr.ofFormula, evalExpr, if_neg hlt]
          rfl
      | not e => simp only [ExprPtr.ofFormula, evalExpr, if_neg hlt, Formula.cut, Formula.value,
          ih hn]
      | and e f => simp only [ExprPtr.ofFormula, evalExpr, if_neg hlt, Formula.cut, Formula.value,
          ih hn]
      | or e f => simp only [ExprPtr.ofFormula, evalExpr, if_neg hlt, Formula.cut, Formula.value,
          ih hn]

/-- **When a filter means what it says**: a blank text matches everything.  Any other accepted text
has one reading; in a context it matches just as that reading's plain value says if and only if
what lies below 64 levels makes no difference there, and always if nothing does. -/
theorem matches_eq_plain_iff {s : QString} (h : (parse T s).error = []) :
    (Tokens T ⟨s, 0⟩ [] ∧ ∀ ctx, «matches» T (parse T s).expr ctx = true) ∨
    ∃ e, (∀ e', Reading T s e' ↔ e' = e) ∧
      (∀ ctx, «matches» T (parse T s).expr ctx = plainValue T e ctx ↔ CutUnseen T e ctx) ∧
      (e.depth ≤ kMaxExprDepth → ∀ ctx,
        «matches» T (parse T s).expr ctx = plainValue T e ctx) := by
  rcases parse_reading h with ⟨hts, hnull⟩ | ⟨e, he, hexpr⟩
  · exact .inl ⟨hts, fun ctx => by rw [hnull]; rfl⟩
  have hcut (ctx : Context F) : «matches» T (parse T s).expr ctx =
      (e.cut kMaxExprDepth).value (Formula.orFalse (evalPredicate T · ctx)) := by
    rw [hexpr]
    exact evalExpr_ofFormula T ctx (Nat.zero_add _) e
  refine .inr ⟨e, fun e' => ⟨fun he' => he'.unique he, fun heq => heq ▸ he⟩, fun ctx => ?_,
    fun hdepth ctx => ?_⟩
  · rw [hcut ctx]
    exact Iff.rfl
  · rw [hcut ctx]
    exact Formula.value_cut _ hdepth

end

theorem ExprPtr.ofFormula_injective {F : Type} :
    Function.Injective (ofFormula : Formula (Predicate F) → ExprPtr F) := by
  intro e
  induction e with
  | atom p =>
      intro e' h
      cases e' <;> simp_all [ofFormula]
  | not e ih =>
      intro e' h
      cases e' <;> simp only [ofFormula, not.injEq, reduceCtorEq] at h
      rw [ih h]
  | and e f ihe ihf =>
      intro e' h
      cases e' <;> simp only [ofFormula, and.injEq, reduceCtorEq] at h
      rw [ihe h.1, ihf h.2]
  | or e f ihe ihf =>
      intro e' h
      cases e' <;> simp only [ofFormula, or.injEq, reduceCtorEq] at h
      rw [ihe h.1, ihf h.2]

/-! ### A run -/

/-- Qt's answers on ASCII texts, unsigned decimals and patterns without special characters. -/
def TextOps.ascii : TextOps ℚ where
  isSpace c := c.toNat = 32 ∨ 9 ≤ c.toNat ∧ c.toNat ≤ 13
  lower c := [c.toLower]
  caseFold c := c.toLower
  toDouble s :=
    if s.isEmpty then none
    else s.foldl (fun n c => do return 10 * (← n) + (← argDigitValue c : Nat)) (some (0 : ℚ))
  rxError _ := none
  rxMatch p s := decide (p.map Char.toLower <:+: s.map Char.toLower)

def precedenceText : QString := "proto:udp or proto:tcp and dport=443".toList

theorem precedence_plain :
    ∃ e, Reading .ascii precedenceText e ∧
      ∀ ctx, «matches» .ascii (parse .ascii precedenceText).expr ctx = plainValue .ascii e ctx ↔
        CutUnseen .ascii e ctx := by
  rcases matches_eq_plain_iff .ascii (s := precedenceText) (by decide +kernel) with
    ⟨hblank, -⟩ | ⟨e, hread, hiff, -⟩
  · exact absurd hblank.blank (by decide +kernel)
  · exact ⟨e, (hread e).mpr rfl, hiff⟩

def protoIs (val : String) : Formula (Predicate ℚ) :=
  .atom { field := .Proto, op := .Contains, textValue := val.toList }

/-- `tcp or udp or … or udp`, with `n` operators. -/
def tcpOrUdps : Nat → Formula (Predicate ℚ)
  | 0 => protoIs "tcp"
  | n + 1 => .or (tcpOrUdps n) (protoIs "udp")

def tcpOrUdpsText (n : Nat) : QString :=
  "proto:tcp".toList ++ (List.replicate n " or proto:udp".toList).flatten

/-- **A TCP connection is lost**: of the 65 operands of `proto:tcp or proto:udp or …` the evaluator
does not see the first two. -/
theorem first_operand_missed :
    (parse .ascii (tcpOrUdpsText 64)).error = [] ∧
    ∃ e, Reading .ascii (tcpOrUdpsText 64) e ∧
      plainValue .ascii e ⟨{ proto := .Tcp }, 0, 0, [], []⟩ = true ∧
      «matches» .ascii (parse .ascii (tcpOrUdpsText 64)).expr ⟨{ proto := .Tcp }, 0, 0, [], []⟩ =
        false := by
  have hok : (parse .ascii (tcpOrUdpsText 64)).error = [] := by decide +kernel
  have hexpr : (parse .ascii (tcpOrUdpsText 64)).expr = .ofFormula (tcpOrUdps 64) := by
    decide +kernel
  refine ⟨hok, tcpOrUdps 64, ?_, by decide +kernel, by rw [hexpr]; decide +kernel⟩
  rcases parse_reading hok with ⟨-, hnull⟩ | ⟨e, he, heq⟩
  · rw [hexpr] at hnull
    cases hnull
  · rwa [← ExprPtr.ofFormula_injective (heq.symm.trans hexpr)]

end Qiftop.Filter
