import Mathlib.Data.List.Basic

/-!
# Lib — boolean formulas and their grammar

`Formula α` is a boolean formula over atoms `α`, `Formula.value` its value.  `Formula.cut n` drops
what lies below `n` operators: an atom `none` stands for each part that is gone.

`Grammar.Derives` is the usual grammar of such formulas over any tokens: `or` below `and` below
`not`, both left-associative, with parentheses.  `Grammar.Reads` reads a formula off the head of a
token list from left to right, one token deciding each step; it follows every derivation
(`Derives.reads`) and has one result (`Reads.unique`), so the grammar is unambiguous
(`Derives.unique`).  `Grammar.DerivesIn n` is a derivation no path of which is longer than `n`.
-/

namespace Qiftop.Lib

inductive Formula (α : Type) where
  | atom (a : α)
  | not (e : Formula α)
  | and (e f : Formula α)
  | or (e f : Formula α)
  deriving DecidableEq

namespace Formula
variable {α β : Type}

/-- The value of a formula, given that of its atoms. -/
def value (v : α → Bool) : Formula α → Bool
  | atom a => v a
  | not e => !e.value v
  | and e f => e.value v && f.value v
  | or e f => e.value v || f.value v

/-- The number of levels. -/
def depth : Formula α → Nat
  | atom _ => 1
  | not e => e.depth + 1
  | and e f => max e.depth f.depth + 1
  | or e f => max e.depth f.depth + 1

/-- The first `n` levels. -/
def cut : Nat → Formula α → Formula (Option α)
  | 0, _ => atom none
  | _ + 1, atom a => atom (some a)
  | n + 1, not e => not (e.cut n)
  | n + 1, and e f => and (e.cut n) (f.cut n)
  | n + 1, or e f => or (e.cut n) (f.cut n)

/-- `v` where there is an atom, and false where a part is gone. -/
def orFalse (v : α → Bool) (a : Option α) : Bool := a.elim false v

/-- Nothing is cut off a formula of `n` levels. -/
theorem value_cut (v : α → Bool) {n : Nat} {e : Formula α} (h : e.depth ≤ n) :
    (e.cut n).value (orFalse v) = e.value v := by
  induction e generalizing n with
  | atom a =>
      obtain ⟨m, rfl⟩ := Nat.exists_eq_add_of_le' h
      rfl
  | not e ih =>
      obtain ⟨m, rfl⟩ := Nat.exists_eq_add_of_le' (Nat.le_of_add_left_le h)
      rw [cut, value, value, ih (Nat.le_of_succ_le_succ h)]
  | and e f ihe ihf =>
      obtain ⟨m, rfl⟩ := Nat.exists_eq_add_of_le' (Nat.le_of_add_left_le h)
      have hm := Nat.le_of_succ_le_succ h
      rw [cut, value, value, ihe (by omega), ihf (by omega)]
  | or e f ihe ihf =>
      obtain ⟨m, rfl⟩ := Nat.exists_eq_add_of_le' (Nat.le_of_add_left_le h)
      have hm := Nat.le_of_succ_le_succ h
      rw [cut, value, value, ihe (by omega), ihf (by omega)]

end Formula

/-! ### The grammar -/

/-- What a token is to the grammar. -/
inductive Kind where
  | or | and | not | lparen | rparen | other
  deriving DecidableEq

/-- The nonterminals. -/
inductive Level where
  | or | and | not | atom

/-- Tokens with their kinds, and which of their sequences are atoms.  An atom is told from the rest
by its first token, and where it ends does not depend on what follows. -/
structure Grammar (τ α : Type) where
  kind : τ → Kind
  IsAtom : List τ → α → Prop
  head : ∀ {ts a}, IsAtom ts a → ∃ t us, ts = t :: us ∧ kind t = .other
  unique : ∀ {ts us a b r r'}, IsAtom ts a → IsAtom us b → ts ++ r = us ++ r' → a = b ∧ r = r'

namespace Grammar
variable {τ α : Type} (G : Grammar τ α)

inductive Derives : Level → List τ → Formula α → Prop where
  | and_or {ts e} : Derives .and ts e → Derives .or ts e
  | or {ts t us e f} : Derives .or ts e → G.kind t = .or → Derives .and us f →
      Derives .or (ts ++ t :: us) (e.or f)
  | not_and {ts e} : Derives .not ts e → Derives .and ts e
  | and {ts t us e f} : Derives .and ts e → G.kind t = .and → Derives .not us f →
      Derives .and (ts ++ t :: us) (e.and f)
  | atom_not {ts e} : Derives .atom ts e → Derives .not ts e
  | not {t ts e} : G.kind t = .not → Derives .not ts e → Derives .not (t :: ts) e.not
  | paren {l ts r e} : G.kind l = .lparen → Derives .or ts e → G.kind r = .rparen →
      Derives .atom (l :: ts ++ [r]) e
  | atom {ts a} : G.IsAtom ts a → Derives .atom ts (.atom a)

/-- A derivation within a budget: each nonterminal on a path takes one, and so does each `not`. -/
inductive DerivesIn : Nat → Level → List τ → Formula α → Prop where
  | and_or {n ts e} : DerivesIn n .and ts e → DerivesIn (n + 1) .or ts e
  | or {n ts t us e f} : DerivesIn (n + 1) .or ts e → G.kind t = .or → DerivesIn n .and us f →
      DerivesIn (n + 1) .or (ts ++ t :: us) (e.or f)
  | not_and {n ts e} : DerivesIn n .not ts e → DerivesIn (n + 1) .and ts e
  | and {n ts t us e f} : DerivesIn (n + 1) .and ts e → G.kind t = .and → DerivesIn n .not us f →
      DerivesIn (n + 1) .and (ts ++ t :: us) (e.and f)
  | atom_not {n ts e} : DerivesIn n .atom ts e → DerivesIn (n + 1) .not ts e
  | not {n t ts e} : G.kind t = .not → DerivesIn n .not ts e →
      DerivesIn (n + 1) .not (t :: ts) e.not
  | paren {n l ts r e} : G.kind l = .lparen → DerivesIn n .or ts e → G.kind r = .rparen →
      DerivesIn (n + 1) .atom (l :: ts ++ [r]) e
  | atom {n ts a} : G.IsAtom ts a → DerivesIn (n + 1) .atom ts (.atom a)

/-- What is being read: a nonterminal, or the operands that still follow a formula. -/
inductive Goal (α : Type) where
  | level (l : Level)
  | orTail (e : Formula α)
  | andTail (e : Formula α)

/-- The next token is of another kind. -/
def Stops (k : Kind) : List τ → Prop
  | [] => True
  | t :: _ => G.kind t ≠ k

/-- `Reads g ts e r`: reading `g` off `ts` gives `e` and leaves `r`. -/
inductive Reads : Goal α → List τ → Formula α → List τ → Prop where
  | or {ts us r e f} : Reads (.level .and) ts e us → Reads (.orTail e) us f r →
      Reads (.level .or) ts f r
  | or_stop {e ts} : G.Stops .or ts → Reads (.orTail e) ts e ts
  | or_more {t ts us r e f g} : G.kind t = .or → Reads (.level .and) ts f us →
      Reads (.orTail (e.or f)) us g r → Reads (.orTail e) (t :: ts) g r
  | and {ts us r e f} : Reads (.level .not) ts e us → Reads (.andTail e) us f r →
      Reads (.level .and) ts f r
  | and_stop {e ts} : G.Stops .and ts → Reads (.andTail e) ts e ts
  | and_more {t ts us r e f g} : G.kind t = .and → Reads (.level .not) ts f us →
      Reads (.andTail (e.and f)) us g r → Reads (.andTail e) (t :: ts) g r
  | not {t ts r e} : G.kind t = .not → Reads (.level .not) ts e r →
      Reads (.level .not) (t :: ts) e.not r
  | not_stop {ts e r} : G.Stops .not ts → Reads (.level .atom) ts e r →
      Reads (.level .not) ts e r
  | paren {l ts c r e} : G.kind l = .lparen → Reads (.level .or) ts e (c :: r) →
      G.kind c = .rparen → Reads (.level .atom) (l :: ts) e r
  | atom {ts a r} : G.IsAtom ts a → Reads (.level .atom) (ts ++ r) (.atom a) r

variable {G}

theorem DerivesIn.derives {n : Nat} {l : Level} {ts : List τ} {e : Formula α}
    (h : G.DerivesIn n l ts e) : G.Derives l ts e := by
  induction h with
  | and_or _ ih => exact .and_or ih
  | or _ ht _ ihe ihf => exact .or ihe ht ihf
  | not_and _ ih => exact .not_and ih
  | and _ ht _ ihe ihf => exact .and ihe ht ihf
  | atom_not _ ih => exact .atom_not ih
  | not ht _ ih => exact .not ht ih
  | paren hl _ hr ih => exact .paren hl ih hr
  | atom ha => exact .atom ha

theorem Stops.of_kind {k : Kind} {t : τ} {ts : List τ} (h : G.kind t ≠ k) :
    G.Stops k (t :: ts) := h

theorem Stops.absurd {k : Kind} {t : τ} {ts : List τ} {C : Prop} (h : G.Stops k (t :: ts))
    (ht : G.kind t = k) : C := (h ht).elim

/-- An atom is not a parenthesis. -/
theorem IsAtom.absurd {l : τ} {ts us r : List τ} {a : α} {C : Prop} (h : G.IsAtom us a)
    (hus : us ++ r = l :: ts) (hl : G.kind l = .lparen) : C := by
  obtain ⟨t, us, rfl, ht⟩ := G.head h
  obtain ⟨rfl, -⟩ := List.cons.inj hus
  rw [ht] at hl
  cases hl

/-- **Reading has one result.** -/
theorem Reads.unique {g : Goal α} {ts r r' : List τ} {e e' : Formula α}
    (h : G.Reads g ts e r) (h' : G.Reads g ts e' r') : e = e' ∧ r = r' := by
  induction h generalizing e' r' with
  | or _ _ ih ih' =>
      cases h' with
      | or h₁ h₂ =>
          obtain ⟨rfl, rfl⟩ := ih h₁
          exact ih' h₂
  | or_stop hs =>
      cases h' with
      | or_stop _ => exact ⟨rfl, rfl⟩
      | or_more ht _ _ => exact hs.absurd ht
  | or_more ht _ _ ih ih' =>
      cases h' with
      | or_stop hs => exact hs.absurd ht
      | or_more _ h₁ h₂ =>
          obtain ⟨rfl, rfl⟩ := ih h₁
          exact ih' h₂
  | and _ _ ih ih' =>
      cases h' with
      | and h₁ h₂ =>
          obtain ⟨rfl, rfl⟩ := ih h₁
          exact ih' h₂
  | and_stop hs =>
      cases h' with
      | and_stop _ => exact ⟨rfl, rfl⟩
      | and_more ht _ _ => exact hs.absurd ht
  | and_more ht _ _ ih ih' =>
      cases h' with
      | and_stop hs => exact hs.absurd ht
      | and_more _ h₁ h₂ =>
          obtain ⟨rfl, rfl⟩ := ih h₁
          exact ih' h₂
  | not ht _ ih =>
      cases h' with
      | not _ h₁ =>
          obtain ⟨rfl, rfl⟩ := ih h₁
          exact ⟨rfl, rfl⟩
      | not_stop hs _ => exact hs.absurd ht
  | not_stop hs _ ih =>
      cases h' with
      | not ht _ => exact hs.absurd ht
      | not_stop _ h₁ => exact ih h₁
  | @paren l us c r e hl _ _ ih =>
      generalize hts : l :: us = ts at h'
      cases h' with
      | paren _ h₁ _ =>
          obtain ⟨rfl, rfl⟩ := List.cons.inj hts
          obtain ⟨rfl, hr⟩ := ih h₁
          exact ⟨rfl, (List.cons.inj hr).2⟩
      | atom ha => exact IsAtom.absurd ha hts.symm hl
  | @atom us a r ha =>
      generalize hts : us ++ r = ts at h'
      cases h' with
      | paren hl _ _ => exact IsAtom.absurd ha hts hl
      | atom hb =>
          obtain ⟨rfl, rfl⟩ := G.unique ha hb hts
          exact ⟨rfl, rfl⟩

/-- What reading at a level does with a derivation followed by `r`: it goes on with the operands in
`r`, if the level has any. -/
def Follows (G : Grammar τ α) (l : Level) (ts : List τ) (e : Formula α) : Prop :=
  match l with
  | .or => ∀ r f r', G.Stops .and r → G.Reads (.orTail e) r f r' →
      G.Reads (.level .or) (ts ++ r) f r'
  | .and => ∀ r f r', G.Reads (.andTail e) r f r' → G.Reads (.level .and) (ts ++ r) f r'
  | .not => ∀ r, G.Reads (.level .not) (ts ++ r) e r
  | .atom => ∀ r, G.Stops .not (ts ++ r) ∧ G.Reads (.level .atom) (ts ++ r) e r

theorem Derives.follows {l : Level} {ts : List τ} {e : Formula α} (h : G.Derives l ts e) :
    Follows G l ts e := by
  induction h with
  | and_or _ ih => exact fun r f r' hs ht => .or (ih r _ r (.and_stop hs)) ht
  | @or ts t us e f _ ht _ ihe ihf =>
      intro r g r' hs hr
      have hand : G.Reads (.level .and) (us ++ r) f r := ihf r f r (.and_stop hs)
      have := ihe (t :: us ++ r) g r' (.of_kind (by simp [ht])) (.or_more ht hand hr)
      simpa using this
  | not_and _ ih => exact fun r f r' ht => .and (ih r) ht
  | @and ts t us e f _ ht _ ihe ihf =>
      intro r g r' hr
      have := ihe (t :: us ++ r) g r' (.and_more ht (ihf r) hr)
      simpa using this
  | atom_not _ ih => exact fun r => .not_stop (ih r).1 (ih r).2
  | not ht _ ih => exact fun r => .not ht (ih r)
  | @paren l ts c e hl _ hc ih =>
      intro r
      have hor : G.Reads (.level .or) (ts ++ c :: r) e (c :: r) :=
        ih (c :: r) e (c :: r) (.of_kind (by simp [hc])) (.or_stop (.of_kind (by simp [hc])))
      rw [List.append_assoc, List.singleton_append]
      exact ⟨.of_kind (by simp [hl]), .paren hl hor hc⟩
  | @atom ts a ha =>
      intro r
      obtain ⟨t, us, rfl, ht⟩ := G.head ha
      exact ⟨.of_kind (by simp [ht]), .atom ha⟩

theorem Derives.reads {ts : List τ} {e : Formula α} (h : G.Derives .or ts e) :
    G.Reads (.level .or) ts e [] := by
  have := h.follows [] e [] trivial (.or_stop trivial)
  rwa [List.append_nil] at this

/-- **The grammar is unambiguous.** -/
theorem Derives.unique {ts : List τ} {e e' : Formula α} (h : G.Derives .or ts e)
    (h' : G.Derives .or ts e') : e = e' :=
  (h.reads.unique h'.reads).1

end Grammar

end Qiftop.Lib
