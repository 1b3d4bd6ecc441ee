import Qiftop.Util.FilterGrammar

/-!
# Util — what the filter parser accepts

The parser as the source runs it: `Runs` has one rule for each way through `parseOr`, `parseAnd`,
`parseNot`, `parseAtom` and the two loops, and no fuel.  A lone `&` or `|` is an empty word at which
the lexer stands still, so that a run does not end because the input does.

* `runs_parse`: every call returns, and what it returns is what the functions with fuel compute.
* `sound_runs`: a run without an error read a derivation within its budget.
* `complete_runs`: a derivation within the budget is run through without an error.
* `parse_accepts`: `parse` ends, and accepts blank texts and those the grammar derives in 64 levels.
-/

namespace Qiftop.Filter
open Qt Lib

/-- A loop of the parser. -/
inductive Join where
  | or | and

/-- What is running. -/
inductive Call (F : Type) where
  /-- `parseOr` or `parseAnd`. -/
  | chain (j : Join)
  /-- The loop of either, with the left operand so far. -/
  | loop (j : Join) (lhs : ExprPtr F)
  | not
  | atom

namespace Join
variable {F : Type}

/-- The operator's token. -/
def type : Join → TokType
  | or => .Or
  | and => .And

def node : Join → ExprPtr F → ExprPtr F → ExprPtr F
  | or => .or
  | and => .and

/-- What reads an operand. -/
def operand : Join → Call F
  | or => .chain .and
  | and => .not

end Join

section
variable {F : Type} [Double F] (T : TextOps F)

/-- The guard of a loop. -/
def Join.Goes (j : Join) (p : Parser) : Prop := p.error = [] ∧ p.cur.type = j.type

/-- `Runs c n p r`: the call `c` with `n` levels left, made at `p`, returns `r`.  A loop has the
levels of its operands. -/
inductive Runs : Call F → Nat → Parser → ExprPtr F × Parser → Prop where
  | chain_deep {j p} : Runs (.chain j) 0 p (.null, p.tooDeep)
  | chain {j n p lhs q r} : Runs j.operand n p (lhs, q) → Runs (.loop j lhs) n q r →
      Runs (.chain j) (n + 1) p r
  | loop_stop {j lhs n p} : ¬j.Goes p → Runs (.loop j lhs) n p (lhs, p)
  | loop_more {j lhs n p rhs q r} : j.Goes p → Runs j.operand n (p.advance T) (rhs, q) →
      Runs (.loop j (j.node lhs rhs)) n q r → Runs (.loop j lhs) n p r
  | not_deep {p} : Runs .not 0 p (.null, p.tooDeep)
  | not {n p child q} : p.cur.type = .Not → Runs .not n (p.advance T) (child, q) →
      Runs .not (n + 1) p (.not child, q)
  | not_atom {n p r} : p.cur.type ≠ .Not → Runs .atom n p r → Runs .not (n + 1) p r
  | atom_deep {p} : Runs .atom 0 p (.null, p.tooDeep)
  | paren {n p e q} : p.cur.type = .LParen → Runs (.chain .or) n (p.advance T) (e, q) →
      q.cur.type = .RParen → Runs .atom (n + 1) p (e, q.advance T)
  | unclosed {n p e q} : p.cur.type = .LParen → Runs (.chain .or) n (p.advance T) (e, q) →
      q.cur.type ≠ .RParen → Runs .atom (n + 1) p (.null, q.fail "expected ')'".toList q.cur.pos)
  | predicate {n p} : p.cur.type ≠ .LParen → Runs .atom (n + 1) p (p.parsePredicate T)

/-- `Parses p r`: `Parser::parse` at `p` returns `r`. -/
inductive Parses : Parser → ParseResult F → Prop where
  | blank {p} : p.cur.type = .End → Parses p {}
  | error {p e q} : p.cur.type ≠ .End → Runs T (.chain .or) kMaxExprDepth p (e, q) →
      q.error ≠ [] → Parses p { error := q.error, errorPos := q.errorPos }
  | left {p e q} : p.cur.type ≠ .End → Runs T (.chain .or) kMaxExprDepth p (e, q) →
      q.error = [] → q.cur.type ≠ .End →
      Parses p { error := arg "unexpected '%1'".toList q.cur.text, errorPos := q.cur.pos }
  | expr {p e q} : p.cur.type ≠ .End → Runs T (.chain .or) kMaxExprDepth p (e, q) →
      q.error = [] → q.cur.type = .End → Parses p { expr := e }

/-! ### Runs end -/

variable {T}

/-- **A call returns once.** -/
theorem Runs.unique {c : Call F} {n : Nat} {p : Parser} {r r' : ExprPtr F × Parser}
    (h : Runs T c n p r) (h' : Runs T c n p r') : r = r' := by
  induction h generalizing r' with
  | chain_deep => cases h'; rfl
  | chain _ _ ih ih' =>
      cases h' with
      | chain h₁ h₂ =>
          obtain ⟨rfl, rfl⟩ := Prod.mk.inj (ih h₁)
          exact ih' h₂
  | loop_stop hstop =>
      cases h' with
      | loop_stop _ => rfl
      | loop_more hgo _ _ => exact absurd hgo hstop
  | loop_more hgo _ _ ih ih' =>
      cases h' with
      | loop_stop hstop => exact absurd hgo hstop
      | loop_more _ h₁ h₂ =>
          obtain ⟨rfl, rfl⟩ := Prod.mk.inj (ih h₁)
          exact ih' h₂
  | not_deep => cases h'; rfl
  | not ht _ ih =>
      cases h' with
      | not _ h₁ =>
          obtain ⟨rfl, rfl⟩ := Prod.mk.inj (ih h₁)
          rfl
      | not_atom hne _ => exact absurd ht hne
  | not_atom hne _ ih =>
      cases h' with
      | not ht _ => exact absurd ht hne
      | not_atom _ h₁ => exact ih h₁
  | atom_deep => cases h'; rfl
  | paren hl _ hr ih =>
      cases h' with
      | paren _ h₁ _ =>
          obtain ⟨rfl, rfl⟩ := Prod.mk.inj (ih h₁)
          rfl
      | unclosed _ h₁ hne =>
          obtain ⟨rfl, rfl⟩ := Prod.mk.inj (ih h₁)
          exact absurd hr hne
      | predicate hne => exact absurd hl hne
  | unclosed hl _ hne ih =>
      cases h' with
      | paren _ h₁ hr =>
          obtain ⟨rfl, rfl⟩ := Prod.mk.inj (ih h₁)
          exact absurd hr hne
      | unclosed _ h₁ _ =>
          obtain ⟨rfl, rfl⟩ := Prod.mk.inj (ih h₁)
          rfl
      | predicate hne => exact absurd hl hne
  | predicate hne =>
      cases h' with
      | paren hl _ _ => exact absurd hl hne
      | unclosed hl _ _ => exact absurd hl hne
      | predicate _ => rfl

omit [Double F] in
theorem Join.joins_type (j : Join) : j.type.joins = 1 := by
  cases j <;> rfl

theorem runs_joinLoop {j : Join} {n : Nat} {next : Parser → ExprPtr F × Parser}
    (hruns : ∀ p, Runs T j.operand n p (next p)) (hnext : Shrinks next) {fuel : Nat}
    (lhs : ExprPtr F) {p : Parser} (hfuel : p.weight ≤ fuel) :
    Runs T (.loop j lhs) n p (Parser.joinLoop T j.type j.node next fuel lhs p) := by
  induction fuel generalizing lhs p with
  | zero =>
      refine .loop_stop ?_
      rintro ⟨-, ht⟩
      have hj := j.joins_type
      simp only [Parser.weight, ht] at hfuel
      omega
  | succ fuel ih =>
      rw [Parser.joinLoop]
      split
      · rename_i hgo
        have hstep := weight_advance T p
        rw [hgo.2, j.joins_type] at hstep
        exact .loop_more ⟨List.isEmpty_iff.mp hgo.1, hgo.2⟩ (hruns _)
          (ih _ ((hnext _).trans (by omega)))
      · rename_i hstop
        exact .loop_stop fun hgo => hstop ⟨List.isEmpty_iff.mpr hgo.1, hgo.2⟩

theorem runs_chain {j : Join} {n : Nat} {next : Parser → ExprPtr F × Parser}
    (hruns : ∀ p, Runs T j.operand n p (next p)) (hnext : Shrinks next) (p : Parser) :
    Runs T (.chain j) (n + 1) p (Parser.chain T j.type j.node next p) := by
  refine .chain (hruns p) (runs_joinLoop hruns hnext _ ?_)
  have : (next p).2.cur.type.joins ≤ 1 := by cases (next p).2.cur.type <;> decide
  simp only [Parser.weight]
  omega

/-- **Every call returns**, and what it returns is what the functions with fuel compute. -/
theorem runs_parse (n : Nat) :
    (∀ p, Runs T (.chain .or) n p (Parser.parseOr T n p)) ∧
      (∀ p, Runs T (.chain .and) n p (Parser.parseAnd T n p)) ∧
      (∀ p, Runs T .not n p (Parser.parseNot T n p)) ∧
      ∀ p, Runs T .atom n p (Parser.parseAtom T n p) := by
  induction n with
  | zero =>
      refine ⟨?_, ?_, ?_, ?_⟩ <;> intro p
      · rw [Parser.parseOr]; exact .chain_deep
      · rw [Parser.parseAnd]; exact .chain_deep
      · rw [Parser.parseNot]; exact .not_deep
      · rw [Parser.parseAtom]; exact .atom_deep
  | succ n ih =>
      obtain ⟨hor, hand, hnot, hatom⟩ := ih
      obtain ⟨-, sand, snot, -⟩ := shrinks_parse T n
      refine ⟨?_, ?_, ?_, ?_⟩ <;> intro p
      · rw [Parser.parseOr]; exact runs_chain (j := .or) hand sand p
      · rw [Parser.parseAnd]; exact runs_chain (j := .and) hnot snot p
      · rw [Parser.parseNot]
        split
        · rename_i ht
          exact .not ht (hnot _)
        · rename_i ht
          exact .not_atom ht (hatom p)
      · rw [Parser.parseAtom]
        split
        · rename_i hl
          dsimp only
          split
          · rename_i hr
            exact .unclosed hl (hor _) hr
          · rename_i hr
            exact .paren hl (hor _) (not_not.mp hr)
        · rename_i hl
          exact .predicate hl

theorem runs_parseOr_iff {n : Nat} {p : Parser} {r : ExprPtr F × Parser} :
    Runs T (.chain .or) n p r ↔ r = Parser.parseOr T n p :=
  ⟨fun h => h.unique ((runs_parse n).1 p), fun h => h ▸ (runs_parse n).1 p⟩

/-! ### Soundness -/

def Join.level : Join → Level
  | .or => .or
  | .and => .and

/-- The operator of the formula. -/
def Join.op : Join → Formula (Predicate F) → Formula (Predicate F) → Formula (Predicate F)
  | .or => .or
  | .and => .and

/-- The nonterminal a call reads. -/
def Call.level : Call F → Level
  | .chain j | .loop j _ => j.level
  | .not => .not
  | .atom => .atom

variable (T) in
/-- What was read from `p` on derives what is returned, within `n` levels. -/
def ReadsIn (n : Nat) (l : Level) (p : Parser) (r : ExprPtr F × Parser) : Prop :=
  ∃ ts e, Consumes T p ts r.2 ∧ (grammar T).DerivesIn n l ts e ∧ r.1 = .ofFormula e

variable (T) in
/-- A call that reads what it returns.  A loop goes on with what its left operand has read, whatever
that was. -/
def Call.ReadsIn (n : Nat) (p : Parser) (r : ExprPtr F × Parser) : Call F → Prop
  | .loop j lhs => ∀ start, Filter.ReadsIn T (n + 1) j.level start (lhs, p) →
      Filter.ReadsIn T (n + 1) j.level start r
  | c => Filter.ReadsIn T n c.level p r

theorem Join.readsIn_operand {j : Join} {n : Nat} {p : Parser} {r : ExprPtr F × Parser} :
    j.operand.ReadsIn T n p r ↔ ReadsIn T n (j.operand (F := F)).level p r := by
  cases j <;> rfl

/-- One operand. -/
theorem Join.derives_one (j : Join) {n : Nat} {ts : List Token} {e : Formula (Predicate F)}
    (h : (grammar T).DerivesIn n (j.operand (F := F)).level ts e) :
    (grammar T).DerivesIn (n + 1) j.level ts e := by
  cases j with
  | or => exact .and_or h
  | and => exact .not_and h

/-- One more operand. -/
theorem Join.derives_more (j : Join) {n : Nat} {ts us : List Token} {t : Token}
    {e f : Formula (Predicate F)} (he : (grammar T).DerivesIn (n + 1) j.level ts e)
    (ht : t.type = j.type) (hf : (grammar T).DerivesIn n (j.operand (F := F)).level us f) :
    (grammar T).DerivesIn (n + 1) j.level (ts ++ t :: us) (j.op e f) := by
  cases j with
  | or => exact .or he (kind_of_type ht) hf
  | and => exact .and he (kind_of_type ht) hf

omit [Double F] in
theorem Join.ofFormula_op (j : Join) (e f : Formula (Predicate F)) :
    j.node (.ofFormula e) (.ofFormula f) = .ofFormula (j.op e f) := by
  cases j <;> rfl

/-- **A run without an error reads a derivation** within the levels it has. -/
theorem sound_runs {c : Call F} {n : Nat} {p : Parser} {r : ExprPtr F × Parser}
    (h : Runs T c n p r) : r.2.error = [] → p.error = [] ∧ c.ReadsIn T n p r := by
  induction h with
  | chain_deep | not_deep | atom_deep => exact fun hr => absurd hr (error_tooDeep _)
  | @chain j n p lhs q r _ _ ih ih' =>
      intro hr
      obtain ⟨hq, hloop⟩ := ih' hr
      obtain ⟨hp, hread⟩ := ih hq
      obtain ⟨ts, e, hts, he, hlhs⟩ := j.readsIn_operand.mp hread
      exact ⟨hp, hloop p ⟨ts, e, hts, j.derives_one he, hlhs⟩⟩
  | loop_stop _ => exact fun hr => ⟨hr, fun _ hlhs => hlhs⟩
  | @loop_more j lhs n p rhs q r hgo _ _ ih ih' =>
      intro hr
      obtain ⟨hq, hloop⟩ := ih' hr
      obtain ⟨-, hread⟩ := ih hq
      obtain ⟨us, f, hus, hf, hrhs⟩ := j.readsIn_operand.mp hread
      refine ⟨hgo.1, fun start ⟨ts, e, hts, he, hlhs⟩ => hloop start ⟨ts ++ p.cur :: us, j.op e f,
        hts.append (.cons ?_ hus), j.derives_more he hgo.2 hf, ?_⟩⟩
      · rw [hgo.2]
        cases j <;> simp [Join.type]
      · rw [← j.ofFormula_op, ← hlhs, ← hrhs]
  | @not n p child q ht _ ih =>
      intro hr
      obtain ⟨hp, ts, e, hts, he, hchild⟩ := ih hr
      exact ⟨hp, p.cur :: ts, e.not, .cons (by simp [ht]) hts, .not (kind_of_type ht) he,
        congrArg ExprPtr.not hchild⟩
  | not_atom _ _ ih =>
      intro hr
      obtain ⟨hp, ts, e, hts, he, hchild⟩ := ih hr
      exact ⟨hp, ts, e, hts, .atom_not he, hchild⟩
  | @paren n p e q hl _ hc ih =>
      intro hr
      obtain ⟨hp, ts, f, hts, hf, he⟩ := ih hr
      exact ⟨hp, _, f, .cons (by simp [hl]) (hts.append (.one (by simp [hc]))),
        .paren (kind_of_type hl) hf (kind_of_type hc), he⟩
  | unclosed _ _ _ _ => exact fun hr => absurd hr (error_of_fail (by simp))
  | predicate _ =>
      intro hr
      obtain ⟨hp, f, o, v, it, pr, hts, hpr, he⟩ := read_parsePredicate hr
      exact ⟨hp, _, .atom pr, hts, .atom ⟨f, o, v, it, rfl, hpr⟩, he⟩

/-- What one of the parser's functions computes without an error has been read. -/
theorem Sound.of_runs {c : Call F} {n : Nat} {f : Parser → ExprPtr F × Parser}
    (hread : ∀ {p r}, c.ReadsIn T n p r → ReadsIn T n c.level p r)
    (h : ∀ p, Runs T c n p (f p)) : Sound T c.level f := by
  intro p hok
  obtain ⟨hp, hc⟩ := sound_runs (h p) hok
  obtain ⟨ts, e, hts, he, hexpr⟩ := hread hc
  exact ⟨hp, ts, e, hts, he.derives, hexpr⟩

/-- **The parser follows the grammar**, whatever its budget. -/
theorem sound_parse (n : Nat) :
    Sound T .or (Parser.parseOr T n) ∧ Sound T .and (Parser.parseAnd T n) ∧
      Sound T .not (Parser.parseNot T n) ∧ Sound T .atom (Parser.parseAtom T n) := by
  obtain ⟨hor, hand, hnot, hatom⟩ := runs_parse (T := T) n
  exact ⟨.of_runs id hor, .of_runs id hand, .of_runs id hnot, .of_runs id hatom⟩

/-- **What is accepted has a reading**: an accepted text is blank and gives no expression, or it
reads as a formula and that formula is the expression. -/
theorem parse_reading {s : QString} (h : (parse T s).error = []) :
    (Tokens T ⟨s, 0⟩ [] ∧ (parse T s).expr = .null) ∨
      ∃ e, Reading T s e ∧ (parse T s).expr = .ofFormula e := by
  unfold parse Parser.parse at h ⊢
  split at h
  · rename_i hend
    rw [if_pos hend]
    exact .inl ⟨.done hend, rfl⟩
  rename_i hend
  rw [if_neg hend]
  dsimp only at h ⊢
  split at h
  · rename_i herr
    exact absurd (List.isEmpty_iff.mpr h) herr
  rename_i herr
  rw [if_neg herr]
  split at h
  · dsimp only at h
    exact absurd h (arg_ne_nil rfl (by decide) _)
  rename_i hlast
  rw [if_neg hlast]
  obtain ⟨-, ts, e, hts, he, hexpr⟩ :=
    (sound_parse kMaxExprDepth).1 (Parser.ofInput T s) (by simpa using herr)
  exact .inr ⟨e, ⟨ts, hts.tokens rfl (not_not.mp hlast), he⟩, hexpr⟩

/-! ### Completeness -/

omit [Double F] in
theorem Consumes.split {p q : Parser} {ts us : List Token} (h : Consumes T p (ts ++ us) q) :
    ∃ m, Consumes T p ts m ∧ Consumes T m us q := by
  induction ts generalizing p with
  | nil => exact ⟨p, .nil, h⟩
  | cons t ts ih =>
      cases h with
      | cons hne h =>
          obtain ⟨m, hts, hus⟩ := ih h
          exact ⟨m, .cons hne hts, hus⟩

omit [Double F] in
theorem Consumes.error_eq {p q : Parser} {ts : List Token} (h : Consumes T p ts q) :
    q.error = p.error := by
  induction h with
  | nil => rfl
  | cons _ _ ih => exact ih

omit [Double F] in
/-- The tokens of the input are what the parser can advance over. -/
theorem Tokens.consumes {l : Lexer} {ts : List Token} (h : Tokens T l ts) {p : Parser}
    (hp : (p.cur, p.lex) = l.next T) : ∃ q, Consumes T p ts q ∧ q.cur.type = .End := by
  induction h generalizing p with
  | @done l hend => exact ⟨p, .nil, by rwa [← hp] at hend⟩
  | @more l ts hne _ ih =>
      obtain ⟨q, hq, hend⟩ := ih (p := p.advance T) (by rw [← hp]; rfl)
      rw [← hp] at hne ⊢
      exact ⟨q, .cons hne hq, hend⟩

/-- The type of a token, where its kind is that of one type only. -/
theorem type_of_kind (ty : TokType) {t : Token} (h : (grammar T).kind t = kind ⟨ty, [], 0⟩)
    (hty : kind ⟨ty, [], 0⟩ ≠ .other) : t.type = ty := by
  obtain ⟨type, text, pos⟩ := t
  change kind ⟨type, text, pos⟩ = _ at h
  cases ty <;> first | exact absurd rfl hty | cases type <;> first | rfl | cases h

variable (T) in
/-- What a call does with a derivation that lies ahead: `or` and `and` go on with their loops. -/
def Goes (n : Nat) (ts : List Token) (e : Formula (Predicate F)) : Level → Prop
  | .or => ∀ p q r, Consumes T p ts q → p.error = [] → q.cur.type ≠ .And →
      Runs T (.loop .or (.ofFormula e)) (n - 1) q r → Runs T (.chain .or) n p r
  | .and => ∀ p q r, Consumes T p ts q → p.error = [] →
      Runs T (.loop .and (.ofFormula e)) (n - 1) q r → Runs T (.chain .and) n p r
  | .not => ∀ p q, Consumes T p ts q → p.error = [] → Runs T .not n p (.ofFormula e, q)
  | .atom => ∀ p q, Consumes T p ts q → p.error = [] →
      p.cur.type ≠ .Not ∧ Runs T .atom n p (.ofFormula e, q)

theorem loop_stop_of_ne {j : Join} {lhs : ExprPtr F} {n : Nat} {p : Parser}
    (h : p.cur.type ≠ j.type) : Runs T (.loop j lhs) n p (lhs, p) :=
  .loop_stop fun hgo => h hgo.2

/-- **A derivation within the budget is run through.** -/
theorem complete_runs {n : Nat} {l : Level} {ts : List Token} {e : Formula (Predicate F)}
    (h : (grammar T).DerivesIn n l ts e) : Goes T n ts e l := by
  induction h with
  | and_or _ ih =>
      intro p q r hts hp hq hloop
      exact .chain (ih p q _ hts hp (loop_stop_of_ne hq)) hloop
  | @or n ts t us e f _ ht _ ihe ihf =>
      intro p q r hread hp hq hloop
      obtain ⟨m, hts, hus⟩ := hread.split
      have hm := hts.error_eq.trans hp
      cases hus with
      | cons _ hus =>
          have hor := type_of_kind .Or ht (by simp [kind])
          have hrhs := ihf _ q _ hus hm (loop_stop_of_ne hq)
          exact ihe p m r hts hp (by simp [hor]) (.loop_more ⟨hm, hor⟩ hrhs hloop)
  | not_and _ ih =>
      intro p q r hts hp hloop
      exact .chain (ih p q hts hp) hloop
  | @and n ts t us e f _ ht _ ihe ihf =>
      intro p q r hread hp hloop
      obtain ⟨m, hts, hus⟩ := hread.split
      have hm := hts.error_eq.trans hp
      cases hus with
      | cons _ hus =>
          have hand := type_of_kind .And ht (by simp [kind])
          exact ihe p m r hts hp (.loop_more ⟨hm, hand⟩ (ihf _ q hus hm) hloop)
  | atom_not _ ih =>
      intro p q hts hp
      exact .not_atom (ih p q hts hp).1 (ih p q hts hp).2
  | not ht _ ih =>
      intro p q hts hp
      cases hts with
      | cons _ hts => exact .not (type_of_kind .Not ht (by simp [kind])) (ih _ q hts hp)
  | @paren n l ts c e hl _ hc ih =>
      intro p q hread hp
      cases hread with
      | cons _ hread =>
          obtain ⟨m, hts, hlast⟩ := hread.split
          cases hlast with
          | cons _ hnil =>
              cases hnil
              have hl := type_of_kind .LParen hl (by simp [kind])
              have hc := type_of_kind .RParen hc (by simp [kind])
              have hor := ih _ m _ hts hp (by simp [hc])
                (loop_stop_of_ne (by simp [hc, Join.type]))
              exact ⟨by simp [hl], .paren hl hor hc⟩
  | atom ha =>
      intro p q hts hp
      obtain ⟨f, o, v, it, rfl, hpr⟩ := ha
      cases hts with
      | cons _ hts =>
        cases hts with
        | cons _ hts =>
          cases hts with
          | cons _ hnil =>
            cases hnil
            have hrun := Runs.predicate (T := T) (n := ‹Nat›) (p := p) (by simp [hpr.name.1])
            rw [parsePredicate_of_isPredicate T hpr] at hrun
            exact ⟨by simp [hpr.name.1], hrun⟩

/-! ### Acceptance -/

variable (T) in
/-- The text is blank, or its tokens are derived within the parser's levels. -/
def Accepted (s : QString) : Prop :=
  Tokens T ⟨s, 0⟩ [] ∨
    ∃ ts e, Tokens T ⟨s, 0⟩ ts ∧ (grammar T).DerivesIn kMaxExprDepth .or ts e

omit [Double F] in
/-- No child of a node is null. -/
def ExprPtr.Linked : ExprPtr F → Prop
  | .null | .pred _ => True
  | .not child => child ≠ .null ∧ child.Linked
  | .and lhs rhs | .or lhs rhs => lhs ≠ .null ∧ rhs ≠ .null ∧ lhs.Linked ∧ rhs.Linked

omit [Double F] in
theorem ExprPtr.ofFormula_ne_null (e : Formula (Predicate F)) : ofFormula e ≠ .null := by
  cases e <;> simp [ofFormula]

omit [Double F] in
theorem ExprPtr.linked_ofFormula (e : Formula (Predicate F)) : (ofFormula e).Linked := by
  induction e with
  | atom p => trivial
  | not e ih => exact ⟨ofFormula_ne_null e, ih⟩
  | and e f ihe ihf => exact ⟨ofFormula_ne_null e, ofFormula_ne_null f, ihe, ihf⟩
  | or e f ihe ihf => exact ⟨ofFormula_ne_null e, ofFormula_ne_null f, ihe, ihf⟩

/-- `parse` returns, once. -/
theorem parses_iff {p : Parser} {r : ParseResult F} : Parses T p r ↔ r = p.parse T := by
  constructor
  · intro h
    rw [Parser.parse]
    cases h with
    | blank hend => rw [if_pos hend]
    | error hend hrun herr =>
        rw [if_neg hend, ← runs_parseOr_iff.mp hrun]
        simp [herr]
    | left hend hrun herr hleft =>
        rw [if_neg hend, ← runs_parseOr_iff.mp hrun]
        simp [herr, hleft]
    | expr hend hrun herr hleft =>
        rw [if_neg hend, ← runs_parseOr_iff.mp hrun]
        simp [herr, hleft]
  · rintro rfl
    rw [Parser.parse]
    have hrun := (runs_parse (T := T) kMaxExprDepth).1 p
    generalize Parser.parseOr T kMaxExprDepth p = r at hrun ⊢
    obtain ⟨e, q⟩ := r
    split
    · rename_i hend
      exact .blank hend
    rename_i hend
    dsimp only
    split
    · rename_i herr
      exact .error hend hrun (by simpa using herr)
    rename_i herr
    split
    · rename_i hleft
      exact .left hend hrun (by simpa using herr) hleft
    · rename_i hleft
      exact .expr hend hrun (by simpa using herr) (not_not.mp hleft)

/-- What an accepted text gives: nothing if it is blank, and else what its tokens derive. -/
theorem parse_of_accepted {s : QString} (h : Accepted T s) :
    (parse T s).error = [] ∧ (parse T s).expr.Linked := by
  rcases h with hblank | ⟨ts, e, hts, he⟩
  · have hrun := Parses.blank (T := T) (p := Parser.ofInput T s) hblank.blank
    rw [parse, ← parses_iff.mp hrun]
    exact ⟨rfl, trivial⟩
  obtain ⟨q, hq, hend⟩ := hts.consumes (p := Parser.ofInput T s) rfl
  by_cases hfirst : (Parser.ofInput T s).cur.type = .End
  · rw [parse, ← parses_iff.mp (.blank hfirst)]
    exact ⟨rfl, trivial⟩
  have hor := complete_runs he _ q _ hq rfl (by simp [hend])
    (loop_stop_of_ne (by simp [hend, Join.type]))
  rw [parse, ← parses_iff.mp (.expr hfirst hor hq.error_eq hend)]
  exact ⟨rfl, ExprPtr.linked_ofFormula e⟩

/-- What any other text gives. -/
theorem parse_of_not_accepted {s : QString} (h : ¬Accepted T s) :
    (parse T s).error ≠ [] ∧ (parse T s).expr = .null := by
  have hrun : Parses T (Parser.ofInput T s) (parse T s) := parses_iff.mpr rfl
  generalize parse T s = r at hrun ⊢
  cases hrun with
  | blank hend => exact absurd (.inl (.done hend)) h
  | error _ _ herr => exact ⟨herr, rfl⟩
  | left _ _ _ _ =>
      refine ⟨?_, rfl⟩
      dsimp only
      exact arg_ne_nil rfl (by decide) _
  | expr _ hrun herr hend =>
      obtain ⟨-, ts, e, hts, he, -⟩ := sound_runs hrun herr
      exact absurd (.inr ⟨ts, e, hts.tokens rfl hend, he⟩) h

variable (T) in
/-- **What the parser accepts**: on every text `parse` ends with one result.  It reports no error
if and only if the text is blank or the grammar derives its tokens within 64 levels.  Then no node
of the expression has a null child; otherwise there is an error and no expression. -/
theorem parse_accepts (s : QString) :
    (∀ r, Parses T (Parser.ofInput T s) r ↔ r = parse T s) ∧
      ((parse T s).error = [] ↔ Accepted T s) ∧
      (Accepted T s → (parse T s).expr.Linked) ∧
      (¬Accepted T s → (parse T s).expr = .null ∧ (parse T s).error ≠ []) := by
  refine ⟨fun r => parses_iff, ⟨fun hok => ?_, fun h => (parse_of_accepted h).1⟩,
    fun h => (parse_of_accepted h).2, fun h => (parse_of_not_accepted h).symm⟩
  by_contra h
  exact (parse_of_not_accepted h).1 hok

end

end Qiftop.Filter
