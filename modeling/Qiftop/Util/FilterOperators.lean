import Qiftop.Util.FilterDepth

/-!
# Util — the operators of the filter language

`field op value` alone, for each field, operator and value: whether the parser takes it, and what
the evaluator makes of it.

* `Writes T s it op val`: the text `s` is the field `it`, the operator `op` and the value `val`.
  Every value can be written (`writes_predicateText`).
* `parse_writes`: the parser takes the text if and only if the field admits operator and value.
* `notEquals_iff_not_equals`: `!=` is the negation of `=`, on every field.
* `regex_works_iff`: where `~` does what it says.  A numeric field wants a number also here, and all
  but `port` match the pattern against the empty text.
-/

namespace Qiftop.Filter
open Qt Backend

section
variable {F : Type} [Double F] (T : TextOps F)

/-! ### Predicates as texts -/

omit [Double F] in
/-- The text `s` has three tokens: the name of a field, an operator and a value. -/
def Writes (s : QString) (it : FieldInfo) (op : Op) (val : QString) : Prop :=
  ∃ f o v, Tokens T ⟨s, 0⟩ [f, o, v] ∧
    (f.type = .Ident ∧ findField (T.toLower f.text) = some it) ∧
    (o.type = .Op ∧ Parser.opOf o.text = some op) ∧
    (v.type = .Ident ∨ v.type = .String) ∧ v.text = val

/-- The field admits the operator and the value. -/
structure Admits (it : FieldInfo) (op : Op) (val : QString) : Prop where
  numeric : it.isNumeric → (Parser.numValueOf T it val : Option F) ≠ none
  regex : Parser.rxErrorOf T op val = none
  ordering : Parser.isOrdering op → it.isNumeric

/-- The predicate of a field, an operator and a value. -/
def predicateOf (it : FieldInfo) (op : Op) (val : QString) : Predicate F where
  field := it.f
  op := op
  textValue := val
  numValue := Parser.numValueOf T it val
  rx := if op = .Regex then val else []

variable {T}

/-- What `parseOr` does at the name of a field, with nothing behind the predicate. -/
theorem runs_predicate {p : Parser} (hf : p.cur.type = .Ident)
    (hend : (p.parsePredicate T).2.error = [] → (p.parsePredicate T).2.cur.type = .End) :
    Runs T (.chain .or) kMaxExprDepth p (p.parsePredicate T) := by
  have hstop (j : Join) : ¬j.Goes (p.parsePredicate T).2 := by
    rintro ⟨herr, htype⟩
    rw [hend herr] at htype
    cases j <;> cases htype
  have hatom : Runs T .atom 61 p (p.parsePredicate T) := .predicate (by simp [hf])
  have hnot : Runs T .not 62 p (p.parsePredicate T) := .not_atom (by simp [hf]) hatom
  have hand : Runs T (.chain .and) 63 p (p.parsePredicate T) := .chain hnot (.loop_stop (hstop .and))
  exact .chain hand (.loop_stop (hstop .or))

/-- A predicate is all there is: it is taken if and only if field, operator and value are one. -/
theorem parse_predicate {p : Parser} (herr : p.error = []) (hf : p.cur.type = .Ident)
    (hend : (((p.advance T).advance T).advance T).cur.type = .End) :
    (∃ it pr, IsPredicate T p.cur (p.advance T).cur ((p.advance T).advance T).cur it pr ∧
      p.parse T = { expr := .pred pr }) ∨
    (∀ it pr, ¬IsPredicate T p.cur (p.advance T).cur ((p.advance T).advance T).cur it pr) ∧
      (p.parse T).error ≠ [] := by
  have hne : p.cur.type ≠ .End := by simp [hf]
  rcases parsePredicate_cases T p with ⟨k, msg, pos, hmsg, hfail⟩ | ⟨it, pr, hpr, heq⟩
  · have hbad : (p.parsePredicate T).2.error ≠ [] := by
      rw [hfail]
      exact error_of_fail hmsg
    have hrun := runs_predicate hf fun h => absurd h hbad
    rw [← parses_iff.mp (.error hne hrun hbad)]
    refine .inr ⟨fun it pr hpr => ?_, hbad⟩
    have := parsePredicate_of_isPredicate T hpr
    rw [hfail] at this
    cases this
  · have hrun := runs_predicate (T := T) hf (by rw [heq]; exact fun _ => hend)
    rw [heq] at hrun
    have hok : (((p.advance T).advance T).advance T).error = [] := by
      rw [error_advance, error_advance, error_advance, herr]
    exact .inl ⟨it, pr, hpr, (parses_iff.mp (.expr hne hrun hok hend)).symm⟩

/-- Three tokens that name a field, an operator and a value the field admits are a predicate. -/
theorem Admits.isPredicate {f o v : Token} {it : FieldInfo} {op : Op}
    (h : Admits T it op v.text) (hf : f.type = .Ident ∧ findField (T.toLower f.text) = some it)
    (ho : o.type = .Op ∧ Parser.opOf o.text = some op) (hv : v.type = .Ident ∨ v.type = .String) :
    IsPredicate T f o v it (predicateOf T it op v.text) :=
  ⟨⟨hf.1, hf.2, rfl⟩, ho, ⟨hv, rfl⟩, rfl, h.numeric, rfl, h.regex, h.ordering⟩

/-- **A predicate as a text**: it is taken if and only if the field admits operator and value. -/
theorem parse_writes {s : QString} {it : FieldInfo} {op : Op} {val : QString}
    (h : Writes T s it op val) :
    (Admits T it op val ∧ parse T s = { expr := .pred (predicateOf T it op val) }) ∨
      (¬Admits T it op val ∧ (parse T s).error ≠ []) := by
  obtain ⟨f, o, v, hts, hf, ho, hv, rfl⟩ := h
  obtain ⟨q, hq, hend⟩ := hts.consumes (p := Parser.ofInput T s) rfl
  have herr : (Parser.ofInput T s).error = [] := rfl
  rw [parse]
  generalize Parser.ofInput T s = p at hq herr ⊢
  cases hq with
  | cons _ hq =>
  cases hq with
  | cons _ hq =>
  cases hq with
  | cons _ hnil =>
  cases hnil
  rcases parse_predicate herr hf.1 hend with ⟨it', pr, hpr, hparse⟩ | ⟨hno, hbad⟩
  · obtain rfl : it' = it := Option.some.inj (hpr.name.2.1.symm.trans hf.2)
    obtain rfl : pr.op = op := Option.some.inj (hpr.op.2.symm.trans ho.2)
    have hadm : Admits T it' pr.op ((p.advance T).advance T).cur.text :=
      ⟨fun h => hpr.number ▸ hpr.numeric h, hpr.regex, hpr.ordering⟩
    rw [← hpr.unique T (hadm.isPredicate hf ho hv)]
    exact .inl ⟨hadm, hparse⟩
  · refine .inr ⟨fun hadm => ?_, hbad⟩
    exact hno it _ (hadm.isPredicate hf ho hv)

/-- An accepted predicate is evaluated as such. -/
theorem matches_writes {s : QString} {it : FieldInfo} {op : Op} {val : QString}
    (h : Writes T s it op val) (hok : Admits T it op val) (ctx : Context F) :
    (parse T s).error = [] ∧
      «matches» T (parse T s).expr ctx = evalPredicate T (predicateOf T it op val) ctx := by
  rcases parse_writes h with ⟨-, hparse⟩ | ⟨hno, -⟩
  · rw [hparse]
    exact ⟨rfl, rfl⟩
  · exact absurd hok hno

theorem admits_of_ok {s : QString} {it : FieldInfo} {op : Op} {val : QString}
    (h : Writes T s it op val) (hok : (parse T s).error = []) : Admits T it op val := by
  rcases parse_writes h with ⟨hadm, -⟩ | ⟨-, herr⟩
  · exact hadm
  · exact absurd hok herr

/-! ### Every predicate can be written -/

/-- What Qt answers about the ASCII characters the language is written in. -/
structure TextOps.Plain (T : TextOps F) : Prop where
  isSpace : ∀ c : Char, 33 ≤ c.toNat → c.toNat ≤ 126 → T.isSpace c = false
  lower : ∀ c : Char, c = '_' ∨ 97 ≤ c.toNat ∧ c.toNat ≤ 122 → T.lower c = [c]

def Op.text : Op → QString
  | .Contains => ":".toList | .Equals => "=".toList | .NotEquals => "!=".toList
  | .Regex => "~".toList | .Lt => "<".toList | .Le => "<=".toList | .Gt => ">".toList
  | .Ge => ">=".toList

/-- A character of a value in quotes. -/
def escaped (c : Char) : QString :=
  if c = Char.ofNat 34 ∨ c = Char.ofNat 92 then [Char.ofNat 92, c] else [c]

/-- A value in quotes. -/
def quoted (val : QString) : QString := Char.ofNat 34 :: val.flatMap escaped ++ [Char.ofNat 34]

def predicateText (name : QString) (op : Op) (val : QString) : QString :=
  name ++ (op.text ++ quoted val)

theorem readQuoted_escaped (val r : QString) :
    readQuoted (Char.ofNat 34) (val.flatMap escaped ++ Char.ofNat 34 :: r) = (val, r) := by
  induction val with
  | nil => cases r <;> simp [readQuoted]
  | cons c val ih =>
      rw [List.flatMap_cons]
      by_cases hc : c = Char.ofNat 34 ∨ c = Char.ofNat 92
      · rw [escaped, if_pos hc]
        simp only [List.cons_append, List.nil_append, readQuoted, ih]
        simp
      · rw [escaped, if_neg hc]
        push Not at hc
        -- The quote is behind what is left, so there is a character after `c`.
        obtain ⟨d, rest, hrest⟩ := List.exists_cons_of_ne_nil
          (List.append_ne_nil_of_right_ne_nil (val.flatMap escaped)
            (List.cons_ne_nil (Char.ofNat 34) r))
        rw [hrest] at ih
        simp [hrest, readQuoted, hc.1, hc.2, ih]

omit [Double F] in
theorem skipWs_of_head {c : Char} (hc : T.isSpace c = false) (s : QString) (pos : Nat) :
    Lexer.skipWs T ⟨c :: s, pos⟩ = ⟨c :: s, pos⟩ := by
  simp [Lexer.skipWs, Lexer.skip, hc]

omit [Double F] in
/-- A word is read up to the next character that is not of a word. -/
theorem next_word {c : Char} {word r : QString} (hdquote : c ≠ Char.ofNat 34)
    (hquote : c ≠ Char.ofNat 39) (hword : ∀ d ∈ c :: word, Lexer.wordChar T d)
    (hr : ∀ d ∈ r.head?, Lexer.wordChar T d = false) (pos : Nat) :
    Lexer.next T ⟨c :: word ++ r, pos⟩ =
      (⟨Lexer.wordType T (c :: word), c :: word, pos⟩, ⟨r, pos + (c :: word).length⟩) := by
  have htake : (c :: word ++ r).takeWhile (Lexer.wordChar T) = c :: word := by
    rw [List.takeWhile_append_of_pos hword]
    cases r with
    | nil => simp
    | cons d r => simp [hr d (by simp)]
  have hc := hword c (by simp)
  have hsymbols : "()<>=!~:&|".toList = ['(', ')', '<', '>', '=', '!', '~', ':', '&', '|'] := rfl
  simp only [Lexer.wordChar, hsymbols, List.contains_cons, List.contains_nil, Bool.or_false,
    Bool.not_or, Bool.and_eq_true, Bool.not_eq_true', beq_eq_false_iff_ne, ne_eq] at hc
  obtain ⟨hspace, h₁, h₂, h₃, h₄, h₅, h₆, h₇, h₈, h₉, h₁₀⟩ := hc
  rw [Lexer.next, List.cons_append, skipWs_of_head hspace]
  rw [List.cons_append] at htake
  simp only [h₁, h₂, h₃, h₄, h₅, h₆, h₇, h₈, h₉, h₁₀, hdquote, hquote, false_and, or_self, if_false,
    htake, Lexer.skip]
  simp

omit [Double F] in
theorem next_op (hT : T.Plain) (op : Op) (val : QString) (pos : Nat) :
    Lexer.next T ⟨op.text ++ quoted val, pos⟩ =
      (⟨.Op, op.text, pos⟩, ⟨quoted val, pos + op.text.length⟩) := by
  have hskip : Lexer.skipWs T ⟨op.text ++ quoted val, pos⟩ = ⟨op.text ++ quoted val, pos⟩ := by
    cases op <;> exact skipWs_of_head (hT.isSpace _ (by decide) (by decide)) _ _
  rw [Lexer.next, hskip]
  cases op <;> rfl

omit [Double F] in
theorem next_quoted (hT : T.Plain) (val : QString) (pos : Nat) :
    ∃ pos', Lexer.next T ⟨quoted val, pos⟩ = (⟨.String, val, pos⟩, ⟨[], pos'⟩) := by
  have hskip : Lexer.skipWs T ⟨quoted val, pos⟩ = ⟨quoted val, pos⟩ :=
    skipWs_of_head (hT.isSpace _ (by decide) (by decide)) _ _
  have hread := readQuoted_escaped val []
  refine ⟨pos + (quoted val).length, ?_⟩
  rw [Lexer.next, hskip]
  simp [quoted, hread]

/-- The name of a field is a word of lower-case letters. -/
def isFieldName (name : QString) : Bool :=
  name.all fun c => c = '_' ∨ 97 ≤ c.toNat ∧ c.toNat ≤ 122

theorem isFieldName_of_findField {name : QString} {it : FieldInfo}
    (h : findField name = some it) :
    isFieldName name ∧ name ≠ [] ∧ it.isNumeric = isNumericField it.f ∧
      ∀ k ∈ ["and", "or", "not"], name ≠ k.toList := by
  rw [findField, Option.map_eq_some_iff] at h
  obtain ⟨e, he, rfl⟩ := h
  have hname := List.find?_some he
  simp only [decide_eq_true_eq] at hname
  subst hname
  have htable : ∀ e ∈ fieldTable, isFieldName e.1.toList ∧ e.1.toList ≠ [] ∧
      e.2.isNumeric = isNumericField e.2.f ∧ ∀ k ∈ ["and", "or", "not"], e.1.toList ≠ k.toList := by
    decide
  exact htable e (List.mem_of_find?_eq_some he)

omit [Double F] in
theorem toLower_fieldName (hT : T.Plain) {name : QString} (h : isFieldName name) :
    T.toLower name = name := by
  have hletter : ∀ c ∈ name, T.lower c = [c] := by
    intro c hc
    have := List.all_eq_true.mp h c hc
    exact hT.lower c (by simpa using this)
  rw [TextOps.toLower, List.flatMap_congr hletter, List.flatMap_singleton']

omit [Double F] in
theorem wordChar_fieldName (hT : T.Plain) {name : QString} (h : isFieldName name) {c : Char}
    (hc : c ∈ name) : Lexer.wordChar T c ∧ c ≠ Char.ofNat 34 ∧ c ≠ Char.ofNat 39 := by
  have hletter := List.all_eq_true.mp h c hc
  simp only [decide_eq_true_eq] at hletter
  rcases hletter with rfl | ⟨hlo, hhi⟩
  · simp [Lexer.wordChar, hT.isSpace '_' (by decide) (by decide)]
  have hne {d : Char} (hd : ¬(97 ≤ d.toNat ∧ d.toNat ≤ 122)) : c ≠ d := by
    rintro rfl
    exact hd ⟨hlo, hhi⟩
  refine ⟨?_, hne (by decide), hne (by decide)⟩
  have hsymbol : ∀ d ∈ "()<>=!~:&|".toList, c ≠ d := by
    have hall : ("()<>=!~:&|".toList.all fun d => decide ¬(97 ≤ d.toNat ∧ d.toNat ≤ 122)) = true :=
      rfl
    exact fun d hd => hne (of_decide_eq_true (List.all_eq_true.mp hall d hd))
  simp only [Lexer.wordChar, hT.isSpace c (by omega) (by omega), Bool.not_false, Bool.true_and,
    Bool.not_eq_true', List.contains_eq_mem, decide_eq_false_iff_not]
  exact fun hmem => hsymbol c hmem rfl

omit [Double F] in
theorem not_wordChar_op (op : Op) (s : QString) :
    ∀ d ∈ (op.text ++ s).head?, Lexer.wordChar T d = false := by
  have hsymbol {c : Char} (hc : "()<>=!~:&|".toList.contains c) :
      ∀ d ∈ some c, Lexer.wordChar T d = false := by
    rintro d ⟨⟩
    rw [Lexer.wordChar, hc, Bool.not_true, Bool.and_false]
  cases op <;> exact hsymbol (by decide)

omit [Double F] in
theorem Tokens.of_next {l l' : Lexer} {t : Token} {ts : List Token} (h : l.next T = (t, l'))
    (ht : t.type ≠ .End) (hts : Tokens T l' ts) : Tokens T l (t :: ts) := by
  have := Tokens.more (T := T) (l := l) (by rwa [h]) (by rwa [h])
  rwa [h] at this

omit [Double F] in
/-- **Every predicate can be written**, whatever its value. -/
theorem writes_predicateText (hT : T.Plain) {name : QString} {it : FieldInfo}
    (hname : findField name = some it) (op : Op) (val : QString) :
    Writes T (predicateText name op val) it op val := by
  obtain ⟨hletters, hne, -, hkey⟩ := isFieldName_of_findField hname
  have hlower := toLower_fieldName hT hletters
  have htype : Lexer.wordType T name = .Ident := by
    simp only [Lexer.wordType, hlower]
    rw [if_neg (hkey "and" (by simp)), if_neg (hkey "or" (by simp)), if_neg (hkey "not" (by simp))]
  obtain ⟨c, word, rfl⟩ := List.exists_cons_of_ne_nil hne
  have hfirst := wordChar_fieldName hT hletters (c := c) (by simp)
  have hf := next_word hfirst.2.1 hfirst.2.2
    (fun d hd => (wordChar_fieldName hT hletters hd).1) (not_wordChar_op (T := T) op (quoted val)) 0
  rw [htype] at hf
  have ho := next_op hT op val (0 + (c :: word).length)
  obtain ⟨pos', hv⟩ := next_quoted hT val (0 + (c :: word).length + op.text.length)
  have htokens := Tokens.of_next hf (by simp) (.of_next ho (by simp) (.of_next hv (by simp)
    (.done rfl)))
  refine ⟨_, _, _, htokens, ⟨rfl, ?_⟩, ⟨rfl, ?_⟩, .inr rfl, rfl⟩
  · rw [hlower, hname]
  · cases op <;> rfl

/-! ### Inequality -/

omit [Double F] in
theorem all_notEquals (val : QString) (lines : List QString) :
    lines.all (cmpLine T .NotEquals val) = !lines.any (cmpLine T .Equals val) := by
  rw [List.not_any_eq_all_not]
  rfl

/-- **`!=` is the negation of `=`** on every predicate. -/
theorem evalPredicate_notEquals {p q : Predicate F} (hp : p.op = .Equals)
    (hq : q = { p with op := .NotEquals }) (ctx : Context F) :
    evalPredicate T q ctx = !evalPredicate T p ctx := by
  subst hq
  obtain ⟨field, op, text, num, rx⟩ := p
  obtain rfl : op = .Equals := hp
  simp only [evalPredicate, reduceCtorEq, if_false, if_true]
  split
  · -- A number: both ends for `port`, one for the others.
    split
    · simp only [cmpNumber, Bool.not_or]
    · rfl
  · -- A text: all of several lines, or the one.
    split
    · exact all_notEquals text _
    · rfl

/-- **Inequality is the negation of equality**: whatever the field, where `field = val` is accepted
so is `field != val`, and in every context it matches just when the other does not. -/
theorem notEquals_iff_not_equals {s s' : QString} {it : FieldInfo} {val : QString}
    (h : Writes T s it .Equals val) (h' : Writes T s' it .NotEquals val)
    (hok : (parse T s).error = []) :
    (parse T s').error = [] ∧
      ∀ ctx, «matches» T (parse T s').expr ctx = true ↔ ¬«matches» T (parse T s).expr ctx = true := by
  have hadm := admits_of_ok h hok
  have hadm' : Admits T it .NotEquals val := ⟨hadm.numeric, rfl, nofun⟩
  refine ⟨(matches_writes h' hadm' ⟨{}, Double.ofInt 0, Double.ofInt 0, [], []⟩).1, fun ctx => ?_⟩
  have hneg := evalPredicate_notEquals (T := T) (p := predicateOf T it .Equals val)
    (q := predicateOf T it .NotEquals val) rfl rfl ctx
  rw [(matches_writes h hadm ctx).2, (matches_writes h' hadm' ctx).2, hneg, Bool.not_eq_true,
    Bool.not_eq_true']

end

theorem TextOps.plain_ascii : TextOps.ascii.Plain := by
  constructor
  · intro c hlo hhi
    simp only [TextOps.ascii, decide_eq_false_iff_not]
    omega
  · intro c hc
    have : c.toLower = c := by
      rcases hc with rfl | ⟨hlo, -⟩
      · rfl
      · have hupper : ¬(c.val ≥ 'A'.val ∧ c.val ≤ 'Z'.val) := by
          rintro ⟨-, hZ⟩
          have : c.toNat ≤ 90 := hZ
          omega
        exact dif_neg hupper
    simp only [TextOps.ascii, this]

theorem port_notEquals_443 :
    let eq := predicateText "port".toList .Equals "443".toList
    let ne := predicateText "port".toList .NotEquals "443".toList
    (parse .ascii eq).error = [] ∧ (parse .ascii ne).error = [] ∧
      ∀ ctx, «matches» .ascii (parse .ascii ne).expr ctx = true ↔
        ¬«matches» .ascii (parse .ascii eq).expr ctx = true := by
  intro eq ne
  have hok : (parse .ascii eq).error = [] := by decide +kernel
  have hwrites : ∀ op, Writes .ascii (predicateText "port".toList op "443".toList) ⟨.Port, true⟩ op
      "443".toList := fun op => writes_predicateText TextOps.plain_ascii rfl op _
  exact ⟨hok, notEquals_iff_not_equals (hwrites .Equals) (hwrites .NotEquals) hok⟩

/-! ### Regular expressions -/

section
variable {F : Type} [Double F] (T : TextOps F)

/-- `QString::number` of a signed integer. -/
def numberInt (n : Int) : QString := if n < 0 then '-' :: number n.natAbs else number n.natAbs

omit [Double F] in
/-- The texts of a field: the lines of one with several, both ends for `port`, the decimal text of
an integer.  The rates have none. -/
def fieldTexts (f : Field) (ctx : Context F) : Option (List QString) :=
  let c := ctx.c
  match f with
  | .Port => some [number c.local.port.toNat, number c.remote.port.toNat]
  | .Sport => some [number c.local.port.toNat]
  | .Dport => some [number c.remote.port.toNat]
  | .BytesIn => some [number c.rxBytes.toNat]
  | .BytesOut => some [number c.txBytes.toNat]
  | .Bytes => some [number (c.rxBytes + c.txBytes).toNat]
  | .PktsIn => some [number c.rxPackets.toNat]
  | .PktsOut => some [number c.txPackets.toNat]
  | .Pkts => some [number (c.rxPackets + c.txPackets).toNat]
  | .Pid => some [numberInt c.process.pid.toInt]
  | .Uid => some [number c.process.uid.toNat]
  | .RateIn | .RateOut | .Rate => none
  | .Host | .Container | .ChainHas => some ((extractText f ctx).splitOn '\n')
  | f => some [extractText f ctx]

/-- `field ~ val` does what it says in a context: it is accepted, and matches just when the pattern
matches one of the field's texts. -/
def RegexWorks (s : QString) (it : FieldInfo) (val : QString) (ctx : Context F) : Prop :=
  (parse T s).error = [] ∧
    ∀ texts ∈ fieldTexts it.f ctx, «matches» T (parse T s).expr ctx = texts.any (T.rxMatch val)

/-- A text field; or the pattern is a number, and the field is `port`, or has no text, or the empty
text makes no difference. -/
def RegexReaches (it : FieldInfo) (val : QString) (ctx : Context F) : Prop :=
  it.isNumeric = false ∨ (Parser.numValueOf T it val : Option F) ≠ none ∧
    (it.f = .Port ∨ ∀ texts ∈ fieldTexts it.f ctx, T.rxMatch val [] = texts.any (T.rxMatch val))

variable {T}

/-- A pattern on a text field, or on `port`, is matched against the field's texts. -/
theorem evalPredicate_regex {it : FieldInfo} (htable : it.isNumeric = isNumericField it.f)
    (h : it.isNumeric = false ∨ it.f = .Port) (val : QString) {ctx : Context F}
    {texts : List QString} (htexts : texts ∈ fieldTexts it.f ctx) :
    evalPredicate T (predicateOf T it .Regex val) ctx = texts.any (T.rxMatch val) := by
  obtain ⟨f, numeric⟩ := it
  rcases h with rfl | rfl
  · cases f <;> first
      | exact absurd htable (by decide)
      | cases htexts; simp [evalPredicate, predicateOf, isMultiLineField]
  · cases htexts
    simp [evalPredicate, predicateOf]

/-- A pattern on any other field is matched against the empty text. -/
theorem evalPredicate_regex_numeric {it : FieldInfo} (htable : it.isNumeric = isNumericField it.f)
    (hnum : it.isNumeric) (hport : it.f ≠ .Port) (val : QString) (ctx : Context F) :
    evalPredicate T (predicateOf T it .Regex val) ctx = T.rxMatch val [] := by
  obtain ⟨f, numeric⟩ := it
  obtain rfl : numeric = true := hnum
  cases f <;> first | exact absurd htable (by decide) | exact absurd rfl hport | rfl

/-- **Where a regular expression works**: on every text field; on a numeric field only if the
pattern is a number, and then it is matched against both ends for `port` and else against the empty
text. -/
theorem regex_works_iff {s : QString} {it : FieldInfo} {val : QString}
    (h : Writes T s it .Regex val) (hrx : T.rxError val = none) (ctx : Context F) :
    RegexWorks T s it val ctx ↔ RegexReaches T it val ctx := by
  obtain ⟨f, -, -, -, ⟨-, hname⟩, -⟩ := id h
  obtain ⟨-, -, htable, -⟩ := isFieldName_of_findField hname
  have hadm : Admits T it .Regex val ↔
      (it.isNumeric → (Parser.numValueOf T it val : Option F) ≠ none) :=
    ⟨fun h => h.numeric, fun h => ⟨h, hrx, nofun⟩⟩
  constructor
  · rintro ⟨hok, hmatch⟩
    have hA := admits_of_ok h hok
    rw [(matches_writes h hA ctx).2] at hmatch
    by_cases hnum : it.isNumeric
    · refine .inr ⟨hA.numeric hnum, ?_⟩
      by_cases hport : it.f = .Port
      · exact .inl hport
      · rw [evalPredicate_regex_numeric htable hnum hport] at hmatch
        exact .inr hmatch
    · exact .inl (by simpa using hnum)
  · intro hreach
    have hA : Admits T it .Regex val := by
      refine hadm.mpr fun hnum => ?_
      rcases hreach with htext | ⟨hvalue, -⟩
      · rw [htext] at hnum
        cases hnum
      · exact hvalue
    refine ⟨(matches_writes h hA ctx).1, fun texts htexts => ?_⟩
    rw [(matches_writes h hA ctx).2]
    rcases hreach with htext | ⟨-, hport | hempty⟩
    · exact evalPredicate_regex htable (.inl htext) val htexts
    · exact evalPredicate_regex htable (.inr hport) val htexts
    · by_cases hplain : it.isNumeric = false ∨ it.f = .Port
      · exact evalPredicate_regex htable hplain val htexts
      · push Not at hplain
        rw [evalPredicate_regex_numeric htable (by simpa using hplain.1) hplain.2]
        exact hempty texts htexts

end

/-- A connection of nginx to a remote port 443. -/
def nginxContext : Context ℚ where
  c := { remote := { port := 443 }, process := { pid := 7, comm := "nginx".toList } }
  rxRate := 0
  txRate := 0

theorem comm_regex_nginx :
    RegexWorks .ascii (predicateText "comm".toList .Regex "nginx".toList) ⟨.Comm, false⟩
      "nginx".toList nginxContext :=
  (regex_works_iff (writes_predicateText TextOps.plain_ascii rfl _ _) rfl _).mpr (.inl rfl)

/-- **Two patterns that do not work**: an alternative of ports is no number and is refused, and the
number of the remote port is looked for in the empty text. -/
theorem port_patterns_fail :
    let port := predicateText "port".toList .Regex "80|443".toList
    let dport := predicateText "dport".toList .Regex "443".toList
    (Writes .ascii port ⟨.Port, true⟩ .Regex "80|443".toList ∧
      (parse .ascii port).error = "expected numeric value for field 'port'".toList ∧
      ¬RegexWorks .ascii port ⟨.Port, true⟩ "80|443".toList nginxContext) ∧
    Writes .ascii dport ⟨.Dport, true⟩ .Regex "443".toList ∧ (parse .ascii dport).error = [] ∧
      ¬RegexWorks .ascii dport ⟨.Dport, true⟩ "443".toList nginxContext := by
  intro port dport
  have hport : (parse .ascii port).error = "expected numeric value for field 'port'".toList := by
    decide +kernel
  have hdport : (parse .ascii dport).error = [] ∧
      «matches» .ascii (parse .ascii dport).expr nginxContext = false := by decide +kernel
  have htext : fieldTexts .Dport nginxContext = some ["443".toList] := by decide +kernel
  refine ⟨⟨writes_predicateText TextOps.plain_ascii rfl _ _, hport, fun h => ?_⟩,
    writes_predicateText TextOps.plain_ascii rfl _ _, hdport.1, fun h => ?_⟩
  · rw [h.1] at hport
    exact absurd hport (by decide)
  · have := h.2 _ htext
    rw [hdport.2] at this
    exact absurd this (by decide)

end Qiftop.Filter
