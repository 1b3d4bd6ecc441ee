import Qiftop.Lib.Formula
import Qiftop.Util.ConnectionFilter

/-!
# Util — the filter grammar

The grammar of the filter language over the lexer's tokens (`grammar`), and what the parser has to
do with it.

* `IsPredicate`: field, operator and value of a predicate the language admits.
* `Reading T s e`: the tokens of the text `s` derive `e`.  There is at most one (`Reading.unique`).
* `shrinks_parse`: no call reads more than it was given, so the fuel of the loops outlasts the operators.
* `read_parsePredicate`, `parsePredicate_of_isPredicate`: a predicate is read if and only if its
  three tokens are one.
-/

namespace Qiftop.Filter
open Qt Lib

/-! ### Progress

The lexer may stay where it is, but not at an `and` or an `or`: what is left of the input, and one
more while the current token is one of the two, never grows and falls with every turn of a loop. -/

def TokType.joins : TokType → Nat
  | .And | .Or => 1
  | _ => 0

def Parser.weight (p : Parser) : Nat := p.lex.rest.length + p.cur.type.joins

theorem length_readQuoted (quote : Char) (s : QString) :
    (readQuoted quote s).2.length ≤ s.length := by
  fun_induction readQuoted quote s <;> simp_all <;> omega

section
variable {F : Type} (T : TextOps F)

/-- The empty word is no keyword. -/
theorem joins_wordType (word : QString) : (Lexer.wordType T word).joins ≤ word.length := by
  cases word with
  | nil => rfl
  | cons c word =>
      unfold Lexer.wordType
      dsimp only
      split_ifs <;> simp [TokType.joins]

/-- A token read off an input of `n` characters: an `and` or an `or` took one of them. -/
def Lexer.Took (n : Nat) (r : Token × Lexer) : Prop := r.2.rest.length + r.1.type.joins ≤ n

theorem took_tok {l : Lexer} {type : TokType} {text : String} (h : type.joins ≤ text.toList.length)
    (hl : l.rest ≠ []) : Lexer.Took l.rest.length (l.tok type text) := by
  have := List.length_pos_iff.mpr hl
  have hj : type.joins ≤ 1 := by cases type <;> decide
  simp only [Lexer.Took, Lexer.tok, Lexer.skip, List.length_drop]
  omega

theorem took_next (l : Lexer) : Lexer.Took l.rest.length (l.next T) := by
  have hws : (l.skipWs T).rest.length ≤ l.rest.length := by simp [Lexer.skipWs, Lexer.skip]
  suffices h : Lexer.Took (l.skipWs T).rest.length (l.next T) from le_trans h hws
  unfold Lexer.next
  dsimp only
  generalize l.skipWs T = l
  split
  · simp [Lexer.Took, TokType.joins]
  · rename_i ch rest hl
    have htok {type : TokType} {text : String} (h : type.joins ≤ text.toList.length) :
        Lexer.Took l.rest.length (l.tok type text) := took_tok h (by simp [hl])
    -- Every branch but the last two is a token of fixed text.
    iterate 5 refine iteInduction (fun _ => htok (by decide)) fun _ => ?_
    iterate 3
      refine iteInduction (fun _ => ?_) fun _ => ?_
      · exact iteInduction (fun _ => htok (by decide)) fun _ => htok (by decide)
    iterate 2 refine iteInduction (fun _ => htok (by decide)) fun _ => ?_
    refine iteInduction (fun _ => ?_) fun _ => ?_
    · have hquoted := length_readQuoted ch rest
      simp only [Lexer.Took, TokType.joins, hl, List.length_cons]
      omega
    · have hkey := joins_wordType T (l.rest.takeWhile (Lexer.wordChar T))
      have hword := (List.takeWhile_sublist (Lexer.wordChar T) (l := l.rest)).length_le
      simp only [Lexer.Took, Lexer.skip, List.length_drop]
      omega

theorem weight_advance (p : Parser) : (p.advance T).weight + p.cur.type.joins ≤ p.weight := by
  have := took_next T p.lex
  simp only [Lexer.Took] at this
  simp only [Parser.weight, Parser.advance]
  omega

theorem weight_iterate_advance (p : Parser) (k : Nat) :
    ((Parser.advance T)^[k] p).weight ≤ p.weight := by
  induction k with
  | zero => exact le_rfl
  | succ k ih =>
      rw [Function.iterate_succ_apply']
      have := weight_advance T ((Parser.advance T)^[k] p)
      omega

end

theorem error_advance {F : Type} (T : TextOps F) (p : Parser) : (p.advance T).error = p.error := rfl

@[simp] theorem weight_fail (p : Parser) (msg : QString) (pos : Nat) :
    (p.fail msg pos).weight = p.weight := by
  unfold Parser.fail
  split <;> rfl

theorem error_of_fail {p : Parser} {msg : QString} {pos : Nat} (hmsg : msg ≠ []) :
    (p.fail msg pos).error ≠ [] := by
  unfold Parser.fail
  split
  · exact hmsg
  · rename_i h
    simpa using h

/-! ### Predicates -/

section
variable {F : Type} [Double F] (T : TextOps F)

/-- A field the table has, an operator, and a value: the field has to be numeric for an ordering,
the value a number for a numeric field and a pattern for a regular expression. -/
structure IsPredicate (f o v : Token) (it : FieldInfo) (p : Predicate F) : Prop where
  name : f.type = .Ident ∧ findField (T.toLower f.text) = some it ∧ p.field = it.f
  op : o.type = .Op ∧ Parser.opOf o.text = some p.op
  text : (v.type = .Ident ∨ v.type = .String) ∧ p.textValue = v.text
  number : p.numValue = Parser.numValueOf T it v.text
  numeric : it.isNumeric → p.numValue ≠ none
  pattern : p.rx = if p.op = .Regex then v.text else []
  regex : Parser.rxErrorOf T p.op v.text = none
  ordering : Parser.isOrdering p.op → it.isNumeric

theorem IsPredicate.unique {f o v : Token} {it it' : FieldInfo} {p p' : Predicate F}
    (h : IsPredicate T f o v it p) (h' : IsPredicate T f o v it' p') : p = p' := by
  obtain rfl : it = it' := Option.some.inj (h.name.2.1.symm.trans h'.name.2.1)
  have hop : p.op = p'.op := Option.some.inj (h.op.2.symm.trans h'.op.2)
  obtain ⟨field, op, text, num, rx⟩ := p
  obtain ⟨field', op', text', num', rx'⟩ := p'
  obtain rfl : op = op' := hop
  simp only [Predicate.mk.injEq, true_and]
  exact ⟨h.name.2.2.trans h'.name.2.2.symm, h.text.2.trans h'.text.2.symm,
    h.number.trans h'.number.symm, h.pattern.trans h'.pattern.symm⟩

/-- A message with a place for a text is not empty. -/
theorem arg_ne_nil {c : Char} {msg s : QString} (hmsg : msg = c :: s) (hc : c ≠ '%') (a : QString) :
    arg msg a ≠ [] := by
  have := arg_append (p := [c]) (by simpa using Ne.symm hc) s a
  rw [List.singleton_append] at this
  simp [hmsg, this]

/-- **What `parsePredicate` does**: it reads up to three tokens and fails, or it reads the three
tokens of a predicate. -/
theorem parsePredicate_cases (p : Parser) :
    (∃ k msg pos, msg ≠ [] ∧
      Parser.parsePredicate T p = (.null, ((Parser.advance T)^[k] p).fail msg pos)) ∨
    ∃ it pr, IsPredicate T p.cur (p.advance T).cur ((p.advance T).advance T).cur it pr ∧
      Parser.parsePredicate T p = (.pred pr, ((p.advance T).advance T).advance T) := by
  unfold Parser.parsePredicate
  dsimp only
  split
  · exact .inl ⟨0, _, _, by decide, rfl⟩
  rename_i hname
  split
  · exact .inl ⟨0, _, _, arg_ne_nil rfl (by decide) _, rfl⟩
  rename_i it hit
  split
  · exact .inl ⟨1, _, _, arg_ne_nil rfl (by decide) _, rfl⟩
  rename_i hop
  split
  · exact .inl ⟨1, _, _, arg_ne_nil rfl (by decide) _, rfl⟩
  rename_i op hopOf
  split
  · exact .inl ⟨2, _, _, by decide, rfl⟩
  rename_i hval
  split
  · exact .inl ⟨3, _, _, arg_ne_nil rfl (by decide) _, rfl⟩
  rename_i hnum
  split
  · exact .inl ⟨3, _, _, arg_ne_nil rfl (by decide) _, rfl⟩
  rename_i hrx
  split
  · exact .inl ⟨3, _, _, arg_ne_nil rfl (by decide) _, rfl⟩
  rename_i hord
  refine .inr ⟨it, _, ⟨⟨not_not.mp hname, hit, rfl⟩, ⟨not_not.mp hop, hopOf⟩, ⟨?_, rfl⟩, rfl, ?_,
    rfl, hrx, ?_⟩, rfl⟩
  · exact Decidable.or_iff_not_not_and_not.mpr hval
  · exact fun h hnone => hnum ⟨h, hnone⟩
  · exact fun h => by_contra fun hn => hord ⟨h, hn⟩

/-- The three tokens of a predicate are read as it. -/
theorem parsePredicate_of_isPredicate {p : Parser} {it : FieldInfo} {pr : Predicate F}
    (h : IsPredicate T p.cur (p.advance T).cur ((p.advance T).advance T).cur it pr) :
    Parser.parsePredicate T p = (.pred pr, ((p.advance T).advance T).advance T) := by
  obtain ⟨field, op, text, num, rx⟩ := pr
  obtain ⟨⟨hname, hit, rfl⟩, ⟨hop, hopOf⟩, ⟨hval, rfl⟩, rfl, hneed, hpat, hrx, hord⟩ := h
  have hval : ¬(((p.advance T).advance T).cur.type ≠ .Ident ∧
      ((p.advance T).advance T).cur.type ≠ .String) := by
    rintro ⟨hident, hstring⟩
    exact hval.elim hident hstring
  have hnum : ¬(it.isNumeric ∧
      (Parser.numValueOf T it ((p.advance T).advance T).cur.text : Option F) = none) :=
    fun h => hneed h.1 h.2
  have hord : ¬(Parser.isOrdering op ∧ ¬it.isNumeric) := fun h => h.2 (hord h.1)
  unfold Parser.parsePredicate
  dsimp only at hopOf hpat hrx ⊢
  rw [if_neg (not_not.mpr hname), hit]
  dsimp only
  rw [if_neg (not_not.mpr hop), hopOf]
  dsimp only
  rw [if_neg hval, if_neg hnum, hrx]
  dsimp only
  rw [if_neg hord, hpat]

/-! ### The loops end -/

/-- A parser function that reads on. -/
def Shrinks (f : Parser → ExprPtr F × Parser) : Prop := ∀ p, (f p).2.weight ≤ p.weight

omit [Double F] in
theorem shrinks_tooDeep : Shrinks fun p => ((.null : ExprPtr F), p.tooDeep) :=
  fun p => (weight_fail p _ _).le

theorem shrinks_parsePredicate : Shrinks (Parser.parsePredicate T) := by
  intro p
  rcases parsePredicate_cases T p with ⟨k, msg, pos, -, h⟩ | ⟨it, pr, -, h⟩
  · rw [h, weight_fail]
    exact weight_iterate_advance T p k
  · rw [h]
    exact weight_iterate_advance T p 3

section
variable {type : TokType} {join : ExprPtr F → ExprPtr F → ExprPtr F}
  {next : Parser → ExprPtr F × Parser}

omit [Double F] in
theorem weight_joinLoop (hnext : Shrinks next) (fuel : Nat) (lhs : ExprPtr F) (p : Parser) :
    (Parser.joinLoop T type join next fuel lhs p).2.weight ≤ p.weight := by
  induction fuel generalizing lhs p with
  | zero => exact le_rfl
  | succ fuel ih =>
      unfold Parser.joinLoop
      split
      · have := weight_advance T p
        exact (ih _ _).trans ((hnext _).trans (by omega))
      · exact le_rfl

omit [Double F] in
theorem shrinks_chain (hnext : Shrinks next) : Shrinks (Parser.chain T type join next) :=
  fun p => (weight_joinLoop T hnext _ _ _).trans (hnext p)

end

theorem shrinks_parse (n : Nat) :
    Shrinks (Parser.parseOr T n) ∧ Shrinks (Parser.parseAnd T n) ∧
      Shrinks (Parser.parseNot T n) ∧ Shrinks (Parser.parseAtom T n) := by
  induction n with
  | zero =>
      refine ⟨?_, ?_, ?_, ?_⟩ <;> intro p
      · rw [Parser.parseOr]; exact shrinks_tooDeep p
      · rw [Parser.parseAnd]; exact shrinks_tooDeep p
      · rw [Parser.parseNot]; exact shrinks_tooDeep p
      · rw [Parser.parseAtom]; exact shrinks_tooDeep p
  | succ n ih =>
      obtain ⟨hor, hand, hnot, hatom⟩ := ih
      refine ⟨?_, ?_, ?_, ?_⟩ <;> intro p <;> have hadv := weight_advance T p
      · rw [Parser.parseOr]; exact shrinks_chain T hand p
      · rw [Parser.parseAnd]; exact shrinks_chain T hnot p
      · rw [Parser.parseNot]
        split
        · exact (hnot _).trans (by omega)
        · exact hatom p
      · rw [Parser.parseAtom]
        split
        · have hor := hor (p.advance T)
          dsimp only
          split
          · rw [weight_fail]
            omega
          · have := weight_advance T (Parser.parseOr T n (p.advance T)).2
            dsimp only
            omega
        · exact shrinks_parsePredicate T p

/-! ### Tokens and readings -/

/-- The tokens of an input up to its end.  There are none where the lexer does not move on. -/
inductive Tokens : Lexer → List Token → Prop where
  | done {l} : (l.next T).1.type = .End → Tokens l []
  | more {l ts} : (l.next T).1.type ≠ .End → Tokens (l.next T).2 ts →
      Tokens l ((l.next T).1 :: ts)

variable {T} in
omit [Double F] in
theorem Tokens.blank {l : Lexer} (h : Tokens T l []) : (l.next T).1.type = .End := by
  cases h
  assumption

omit [Double F] in
theorem Tokens.unique {l : Lexer} {ts us : List Token} (h : Tokens T l ts) (h' : Tokens T l us) :
    ts = us := by
  induction h generalizing us with
  | done hend =>
      cases h' with
      | done _ => rfl
      | more hne _ => exact absurd hend hne
  | more hne _ ih =>
      cases h' with
      | done hend => exact absurd hend hne
      | more _ h' => rw [ih h']

def kind (t : Token) : Kind :=
  match t.type with
  | .Or => .or
  | .And => .and
  | .Not => .not
  | .LParen => .lparen
  | .RParen => .rparen
  | _ => .other

/-- The grammar of the filter language. -/
def grammar : Grammar Token (Predicate F) where
  kind := kind
  IsAtom ts p := ∃ f o v it, ts = [f, o, v] ∧ IsPredicate T f o v it p
  head := by
    rintro ts p ⟨f, o, v, it, rfl, h⟩
    exact ⟨f, [o, v], rfl, by rw [kind, h.name.1]⟩
  unique := by
    rintro ts us p p' r r' ⟨f, o, v, it, rfl, h⟩ ⟨f', o', v', it', rfl, h'⟩ heq
    simp only [List.cons_append, List.nil_append, List.cons.injEq] at heq
    obtain ⟨rfl, rfl, rfl, rfl⟩ := heq
    exact ⟨h.unique T h', rfl⟩

/-- The text `s` reads as the formula `e`. -/
def Reading (s : QString) (e : Formula (Predicate F)) : Prop :=
  ∃ ts, Tokens T ⟨s, 0⟩ ts ∧ (grammar T).Derives .or ts e

variable {T} in
theorem Reading.unique {s : QString} {e e' : Formula (Predicate F)} (h : Reading T s e)
    (h' : Reading T s e') : e = e' := by
  obtain ⟨ts, hts, he⟩ := h
  obtain ⟨us, hus, he'⟩ := h'
  obtain rfl := hts.unique T hus
  exact he.unique he'

/-! ### Soundness -/

omit [Double F] in
/-- A formula as the parser builds it. -/
def ExprPtr.ofFormula : Formula (Predicate F) → ExprPtr F
  | .atom p => .pred p
  | .not e => .not (ofFormula e)
  | .and e f => .and (ofFormula e) (ofFormula f)
  | .or e f => .or (ofFormula e) (ofFormula f)

/-- `Consumes p ts q`: advancing over the tokens `ts` takes the parser from `p` to `q`. -/
inductive Consumes : Parser → List Token → Parser → Prop where
  | nil {p} : Consumes p [] p
  | cons {p ts q} : p.cur.type ≠ .End → Consumes (p.advance T) ts q →
      Consumes p (p.cur :: ts) q

variable {T}

omit [Double F] in
theorem Consumes.append {p q r : Parser} {ts us : List Token} (h : Consumes T p ts q)
    (h' : Consumes T q us r) : Consumes T p (ts ++ us) r := by
  induction h with
  | nil => exact h'
  | cons hne _ ih => exact .cons hne (ih h')

omit [Double F] in
theorem Consumes.one {p : Parser} (h : p.cur.type ≠ .End) : Consumes T p [p.cur] (p.advance T) :=
  .cons h .nil

omit [Double F] in
theorem Consumes.tokens {l : Lexer} {p q : Parser} {ts : List Token} (h : Consumes T p ts q)
    (hp : (p.cur, p.lex) = l.next T) (hq : q.cur.type = .End) : Tokens T l ts := by
  induction h generalizing l with
  | nil => exact .done (by rwa [← hp])
  | @cons p ts q hne _ ih =>
      have htail : Tokens T (l.next T).2 ts := ih (by rw [← hp]; rfl) hq
      rw [show p.cur = (l.next T).1 by rw [← hp]]
      exact .more (by rwa [← hp]) htail

variable (T) in
/-- A parser function for the nonterminal `l`: where it ends without an error there was none before,
and what it read derives what it returns. -/
def Sound (l : Level) (f : Parser → ExprPtr F × Parser) : Prop :=
  ∀ p, (f p).2.error = [] → p.error = [] ∧ ∃ ts e, Consumes T p ts (f p).2 ∧
    (grammar T).Derives l ts e ∧ (f p).1 = .ofFormula e

/-- A predicate read without an error is three tokens of the input. -/
theorem read_parsePredicate {p : Parser} (hp : (Parser.parsePredicate T p).2.error = []) :
    p.error = [] ∧ ∃ f o v it pr, Consumes T p [f, o, v] (Parser.parsePredicate T p).2 ∧
      IsPredicate T f o v it pr ∧ (Parser.parsePredicate T p).1 = .pred pr := by
  rcases parsePredicate_cases T p with ⟨k, msg, pos, hmsg, h⟩ | ⟨it, pr, hpr, h⟩
  · rw [h] at hp
    exact absurd hp (error_of_fail hmsg)
  · rw [h] at hp ⊢
    have hne {t : Token} {ty : TokType} (ht : t.type = ty) (hty : ty ≠ .End) : t.type ≠ .End :=
      ht ▸ hty
    have hval : ((p.advance T).advance T).cur.type ≠ .End := by
      rcases hpr.text.1 with hv | hv
      · exact hne hv (by decide)
      · exact hne hv (by decide)
    have hread := Consumes.cons (hne hpr.name.1 (by decide))
      (.cons (hne hpr.op.1 (by decide)) (.one hval))
    rw [error_advance, error_advance, error_advance] at hp
    exact ⟨hp, _, _, _, it, pr, hread, hpr, rfl⟩

omit [Double F] in
theorem error_tooDeep (p : Parser) : p.tooDeep.error ≠ [] :=
  error_of_fail (arg_ne_nil rfl (by decide) _)

theorem kind_of_type {t : Token} {ty : TokType} (h : t.type = ty) :
    (grammar T).kind t = kind ⟨ty, [], 0⟩ := by
  subst h
  rfl

end

end Qiftop.Filter
