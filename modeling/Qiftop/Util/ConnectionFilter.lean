import Mathlib.Data.List.Infix
import Qiftop.Backend.Connection

/-!
# Util — the filter language

`util/ConnectionFilter.cpp`: a lexer that reads tokens on demand, a recursive-descent parser with a
depth budget, and an evaluator with a depth cut-off of its own.

What Qt's text functions answer is an argument (`TextOps`).  A null `ExprPtr` is a constructor; it
stands for "no filter" and for what a failed parse returns.  The parser's budget is what is left of
`kMaxExprDepth`.  The two loops for `or` and `and` get the length of the input as fuel, which never
runs out (`runs_parse`).
-/

namespace Qiftop.Filter
open Qt Backend

/-- What Qt answers about texts: white space, case, numbers and regular expressions. -/
structure TextOps (F : Type) where
  isSpace : Char → Bool
  /-- The lower case of a character, which may be several. -/
  lower : Char → QString
  caseFold : Char → Char
  toDouble : QString → Option F
  /-- The error of a pattern that does not compile. -/
  rxError : QString → Option QString
  rxMatch : QString → QString → Bool

namespace TextOps
variable {F : Type} (T : TextOps F)

def toLower (s : QString) : QString := s.flatMap T.lower

def trimmed (s : QString) : QString :=
  ((s.dropWhile T.isSpace).reverse.dropWhile T.isSpace).reverse

/-- `QString::endsWith` without regard to case. -/
def endsWith (s suffix : QString) : Bool :=
  (suffix.map T.caseFold).isSuffixOf (s.map T.caseFold)

/-- `QString::compare` without regard to case is zero. -/
def same (a b : QString) : Bool := a.map T.caseFold == b.map T.caseFold

/-- `QString::contains` without regard to case. -/
def contains (s val : QString) : Bool := decide (val.map T.caseFold <:+: s.map T.caseFold)

end TextOps

/-! ### Expressions -/

inductive Field where
  | Proto | Src | Dst | Host | Sport | Dport | Port | Iface | Family | Direction
  | BytesIn | BytesOut | Bytes | PktsIn | PktsOut | Pkts | RateIn | RateOut | Rate
  | Pid | Uid | Comm | Runtime | Container | ChainHas | Reason
  deriving DecidableEq, Repr

inductive Op where
  | Contains | Equals | NotEquals | Regex | Lt | Le | Gt | Ge
  deriving DecidableEq, Repr

structure Predicate (F : Type) where
  field : Field
  op : Op
  textValue : QString
  numValue : Option F := none
  /-- The pattern, for a regular expression. -/
  rx : QString := []
  deriving DecidableEq

inductive ExprPtr (F : Type) where
  | null
  | pred (p : Predicate F)
  | not (child : ExprPtr F)
  | and (lhs rhs : ExprPtr F)
  | or (lhs rhs : ExprPtr F)
  deriving DecidableEq

structure FieldInfo where
  f : Field
  isNumeric : Bool

def fieldTable : List (String × FieldInfo) :=
  [("proto", ⟨.Proto, false⟩), ("src", ⟨.Src, false⟩), ("dst", ⟨.Dst, false⟩),
    ("host", ⟨.Host, false⟩), ("iface", ⟨.Iface, false⟩), ("family", ⟨.Family, false⟩),
    ("direction", ⟨.Direction, false⟩), ("sport", ⟨.Sport, true⟩), ("dport", ⟨.Dport, true⟩),
    ("port", ⟨.Port, true⟩), ("bytes_in", ⟨.BytesIn, true⟩), ("bytes_out", ⟨.BytesOut, true⟩),
    ("bytes", ⟨.Bytes, true⟩), ("pkts_in", ⟨.PktsIn, true⟩), ("pkts_out", ⟨.PktsOut, true⟩),
    ("pkts", ⟨.Pkts, true⟩), ("rate_in", ⟨.RateIn, true⟩), ("rate_out", ⟨.RateOut, true⟩),
    ("rate", ⟨.Rate, true⟩), ("pid", ⟨.Pid, true⟩), ("uid", ⟨.Uid, true⟩),
    ("comm", ⟨.Comm, false⟩), ("runtime", ⟨.Runtime, false⟩),
    ("container", ⟨.Container, false⟩), ("chain_has", ⟨.ChainHas, false⟩),
    ("reason", ⟨.Reason, false⟩)]

def findField (name : QString) : Option FieldInfo :=
  (fieldTable.find? fun e => e.1.toList = name).map Prod.snd

/-! ### Values -/

structure Context (F : Type) where
  c : Connection
  rxRate : F
  txRate : F
  hostnameLocal : QString := []
  hostnameRemote : QString := []

def protoName : L4Proto → QString
  | .Tcp => "tcp".toList | .Udp => "udp".toList | .Icmp => "icmp".toList
  | .IcmpV6 => "icmpv6".toList | .Unknown => "?".toList

def directionName : Backend.Direction → QString
  | .Outbound => "out".toList | .Inbound => "in".toList | .Unknown => "?".toList

def familyName (c : Connection) : QString :=
  if c.local.address.protocol = .IPv6Protocol ∨ c.remote.address.protocol = .IPv6Protocol then
    "v6".toList
  else "v4".toList

def attributionReasonToString : AttributionReason → QString
  | .Resolved => "resolved".toList | .NoLocalSocket => "nosocket".toList
  | .Orphaned => "orphaned".toList | .Forwarded => "forwarded".toList

section
variable {F : Type} [Double F] (T : TextOps F)

/-- Suffixes with what they multiply by, longer ones first. -/
def suffixes : List (String × Int) :=
  [("KiB", 1024), ("MiB", 1048576), ("GiB", 1073741824), ("TiB", 1099511627776),
    ("Ki", 1024), ("Mi", 1048576), ("Gi", 1073741824), ("Ti", 1099511627776),
    ("KB", 1000), ("MB", 1000000), ("GB", 1000000000), ("TB", 1000000000000),
    ("K", 1000), ("M", 1000000), ("G", 1000000000), ("T", 1000000000000),
    ("B", 1)]

/-- A number with its suffix; `none` is NaN. -/
def parseNumeric (s : QString) : Option F :=
  let s := T.trimmed s
  if s.isEmpty then none
  else
    match suffixes.find? fun e => T.endsWith s e.1.toList with
    | some (suf, m) =>
        (T.toDouble (T.trimmed (s.take (s.length - suf.length)))).map (Double.mul · (Double.ofInt m))
    | none => (T.toDouble s).map (Double.mul · (Double.ofInt 1))

omit [Double F] in
def extractText (f : Field) (ctx : Context F) : QString :=
  let c := ctx.c
  match f with
  | .Proto => protoName c.proto
  | .Src => c.local.address.toString
  | .Dst => c.remote.address.toString
  | .Host => c.local.address.toString ++ '\n' :: c.remote.address.toString ++
      '\n' :: ctx.hostnameLocal ++ '\n' :: ctx.hostnameRemote
  | .Iface => c.iface
  | .Family => familyName c
  | .Direction => directionName c.direction
  | .Comm => c.process.comm
  | .Reason => attributionReasonToString c.reason
  | .Runtime => c.container.runtime
  | .Container =>
      if c.container.runtime.isEmpty ∧ c.container.id.isEmpty ∧ c.container.name.isEmpty then []
      else c.container.runtime ++ '\n' :: c.container.id ++ '\n' :: c.container.name
  | .ChainHas =>
      c.containerChain.foldl (fun out ci =>
        (if out.isEmpty then out else out ++ ['\n']) ++
          (ci.runtime ++ '\n' :: ci.id ++ '\n' :: ci.name)) []
  | _ => []

def extractNumber (f : Field) (ctx : Context F) : F :=
  let c := ctx.c
  let ofUInt64 (n : UInt64) : F := Double.ofInt n.toNat
  match f with
  | .Sport => Double.ofInt c.local.port.toNat
  | .Dport => Double.ofInt c.remote.port.toNat
  | .Port => Double.ofInt c.local.port.toNat
  | .BytesIn => ofUInt64 c.rxBytes
  | .BytesOut => ofUInt64 c.txBytes
  | .Bytes => ofUInt64 (c.rxBytes + c.txBytes)
  | .PktsIn => ofUInt64 c.rxPackets
  | .PktsOut => ofUInt64 c.txPackets
  | .Pkts => ofUInt64 (c.rxPackets + c.txPackets)
  | .RateIn => ctx.rxRate
  | .RateOut => ctx.txRate
  | .Rate => Double.add ctx.rxRate ctx.txRate
  | .Pid => Double.ofInt c.process.pid.toInt
  | .Uid => Double.ofInt c.process.uid.toNat
  | _ => Double.ofInt 0

/-- The text of the field is a list of lines, any of which may match. -/
def isMultiLineField : Field → Bool
  | .Host | .Container | .ChainHas => true
  | _ => false

def isNumericField : Field → Bool
  | .Sport | .Dport | .Port | .BytesIn | .BytesOut | .Bytes | .PktsIn | .PktsOut | .Pkts
  | .RateIn | .RateOut | .Rate | .Pid | .Uid => true
  | _ => false

/-- A number against a predicate's number. -/
def cmpNumber (op : Op) (v n : F) : Bool :=
  match op with
  | .Contains | .Equals => Double.eq v n
  | .NotEquals => !Double.eq v n
  | .Lt => Double.lt v n
  | .Le => Double.le v n
  | .Gt => Double.lt n v
  | .Ge => Double.le n v
  | .Regex => false

omit [Double F] in
/-- A line against a predicate's text. -/
def cmpLine (op : Op) (val line : QString) : Bool :=
  match op with
  | .Equals => T.same line val
  | .NotEquals => !T.same line val
  | _ => T.contains line val

def evalPredicate (p : Predicate F) (ctx : Context F) : Bool :=
  let s := extractText p.field ctx
  if p.op = .Regex then
    if p.field = .Port then
      T.rxMatch p.rx (number ctx.c.local.port.toNat) ||
        T.rxMatch p.rx (number ctx.c.remote.port.toNat)
    else if isMultiLineField p.field then (s.splitOn '\n').any (T.rxMatch p.rx)
    else T.rxMatch p.rx s
  else
    match isNumericField p.field, p.numValue with
    | true, some n =>
        if p.field = .Port then
          let lo := cmpNumber p.op (Double.ofInt ctx.c.local.port.toNat) n
          let ro := cmpNumber p.op (Double.ofInt ctx.c.remote.port.toNat) n
          if p.op = .NotEquals then lo && ro else lo || ro
        else cmpNumber p.op (extractNumber p.field ctx) n
    | _, _ =>
        if isMultiLineField p.field then
          let lines := (s.splitOn '\n').filter fun line => !line.isEmpty
          if p.op = .NotEquals then lines.all (cmpLine T p.op p.textValue)
          else lines.any (cmpLine T p.op p.textValue)
        else
          match p.op with
          | .Contains => T.contains s p.textValue
          | .Equals => T.same s p.textValue
          | .NotEquals => !T.same s p.textValue
          | _ => false

def kMaxExprDepth : Nat := 64

def evalExpr (ctx : Context F) : ExprPtr F → Nat → Bool
  | .null, _ => true
  | .pred p, depth => if kMaxExprDepth ≤ depth then false else evalPredicate T p ctx
  | .not child, depth =>
      if kMaxExprDepth ≤ depth then false else !evalExpr ctx child (depth + 1)
  | .and lhs rhs, depth =>
      if kMaxExprDepth ≤ depth then false
      else evalExpr ctx lhs (depth + 1) && evalExpr ctx rhs (depth + 1)
  | .or lhs rhs, depth =>
      if kMaxExprDepth ≤ depth then false
      else evalExpr ctx lhs (depth + 1) || evalExpr ctx rhs (depth + 1)

def «matches» (expr : ExprPtr F) (ctx : Context F) : Bool := evalExpr T ctx expr 0

end

/-! ### Tokens -/

inductive TokType where
  | Ident | String | Number | Op | LParen | RParen | And | Or | Not | End
  deriving DecidableEq, Repr

structure Token where
  type : TokType
  text : QString
  /-- The start column in the input. -/
  pos : Nat
  deriving DecidableEq

/-- What is still to be read of the input, and the column it starts at. -/
structure Lexer where
  rest : QString
  pos : Nat := 0

/-- The text up to the closing quote, and what follows the quote. -/
def readQuoted (quote : Char) : QString → QString × QString
  | [] => ([], [])
  | [c] => if c = quote then ([], []) else ([c], [])
  | c :: d :: rest =>
      if c = quote then ([], d :: rest)
      else if c = Char.ofNat 92 then
        -- A backslash takes the next character as it is.
        let (s, r) := readQuoted quote rest
        (d :: s, r)
      else
        let (s, r) := readQuoted quote (d :: rest)
        (c :: s, r)

namespace Lexer
variable {F : Type} (T : TextOps F)

def skip (l : Lexer) (n : Nat) : Lexer := ⟨l.rest.drop n, l.pos + n⟩

def skipWs (l : Lexer) : Lexer := l.skip (l.rest.takeWhile T.isSpace).length

/-- A character of a bare word. -/
def wordChar (c : Char) : Bool := !T.isSpace c && !"()<>=!~:&|".toList.contains c

/-- The keywords; the parser decides what any other word is. -/
def wordType (word : QString) : TokType :=
  let lw := T.toLower word
  if lw = "and".toList then .And
  else if lw = "or".toList then .Or
  else if lw = "not".toList then .Not
  else .Ident

/-- A token of fixed text. -/
def tok (l : Lexer) (type : TokType) (text : String) : Token × Lexer :=
  (⟨type, text.toList, l.pos⟩, l.skip text.toList.length)

def next (l : Lexer) : Token × Lexer :=
  let l := l.skipWs T
  match l.rest with
  | [] => (⟨.End, [], l.pos⟩, l)
  | ch :: rest =>
      let eq := rest.head? = some '='
      if ch = '(' then l.tok .LParen "("
      else if ch = ')' then l.tok .RParen ")"
      else if ch = ':' then l.tok .Op ":"
      else if ch = '~' then l.tok .Op "~"
      else if ch = '=' then l.tok .Op "="
      else if ch = '!' then if eq then l.tok .Op "!=" else l.tok .Not "!"
      else if ch = '<' then if eq then l.tok .Op "<=" else l.tok .Op "<"
      else if ch = '>' then if eq then l.tok .Op ">=" else l.tok .Op ">"
      else if ch = '&' ∧ rest.head? = some '&' then l.tok .And "&&"
      else if ch = '|' ∧ rest.head? = some '|' then l.tok .Or "||"
      else if ch = Char.ofNat 34 ∨ ch = Char.ofNat 39 then
        let (s, r) := readQuoted ch rest
        (⟨.String, s, l.pos⟩, ⟨r, l.pos + (l.rest.length - r.length)⟩)
      else
        -- The word is empty at a lone `&` or `|`, and nothing is consumed.
        let word := l.rest.takeWhile (wordChar T)
        (⟨wordType T word, word, l.pos⟩, l.skip word.length)

end Lexer

/-! ### The parser -/

structure Parser where
  cur : Token
  lex : Lexer
  error : QString := []
  errorPos : Int := -1

structure ParseResult (F : Type) where
  expr : ExprPtr F := .null
  error : QString := []
  errorPos : Int := -1
  deriving DecidableEq

namespace Parser
variable {F : Type} [Double F] (T : TextOps F)

omit [Double F] in
def advance (p : Parser) : Parser :=
  let (t, l) := p.lex.next T
  { p with cur := t, lex := l }

def fail (p : Parser) (msg : QString) (pos : Nat) : Parser :=
  if p.error.isEmpty then { p with error := msg, errorPos := pos } else p

/-- The error of a parser whose budget is spent. -/
def tooDeep (p : Parser) : Parser :=
  p.fail (arg "expression nested too deeply (max %1)".toList (number kMaxExprDepth)) p.cur.pos

def opOf (opStr : QString) : Option Op :=
  if opStr = ":".toList then some .Contains
  else if opStr = "=".toList then some .Equals
  else if opStr = "!=".toList then some .NotEquals
  else if opStr = "~".toList then some .Regex
  else if opStr = "<".toList then some .Lt
  else if opStr = "<=".toList then some .Le
  else if opStr = ">".toList then some .Gt
  else if opStr = ">=".toList then some .Ge
  else none

def isOrdering : Op → Bool
  | .Lt | .Le | .Gt | .Ge => true
  | _ => false

/-- The number a value is on a numeric field. -/
def numValueOf (it : FieldInfo) (val : QString) : Option F :=
  if it.isNumeric then (parseNumeric T val).filter fun n => Double.eq n n else none

omit [Double F] in
/-- The error of a value as a regular expression. -/
def rxErrorOf (op : Op) (val : QString) : Option QString :=
  if op = .Regex then T.rxError val else none

def parsePredicate (p : Parser) : ExprPtr F × Parser :=
  if p.cur.type ≠ .Ident then (.null, p.fail "expected field name".toList p.cur.pos)
  else
    let fname := T.toLower p.cur.text
    match findField fname with
    | none => (.null, p.fail (arg "unknown field '%1'".toList p.cur.text) p.cur.pos)
    | some it =>
        let p := p.advance T
        if p.cur.type ≠ .Op then
          (.null, p.fail (arg "expected operator after field '%1'".toList fname) p.cur.pos)
        else
          let opPos := p.cur.pos
          match opOf p.cur.text with
          | none => (.null, p.fail (arg "unknown operator '%1'".toList p.cur.text) opPos)
          | some op =>
              let p := p.advance T
              if p.cur.type ≠ .Ident ∧ p.cur.type ≠ .String then
                (.null, p.fail "expected value after operator".toList p.cur.pos)
              else
                let val := p.cur.text
                let valPos := p.cur.pos
                let p := p.advance T
                let num : Option F := numValueOf T it val
                if it.isNumeric ∧ num = none then
                  (.null, p.fail (arg "expected numeric value for field '%1'".toList fname) valPos)
                else
                  match rxErrorOf T op val with
                  | some e => (.null, p.fail (arg "invalid regex: %1".toList e) valPos)
                  | none =>
                      if isOrdering op ∧ ¬it.isNumeric then
                        (.null, p.fail (arg "field '%1' is not numeric".toList fname) opPos)
                      else
                        (.pred { field := it.f, op := op, textValue := val, numValue := num,
                                 rx := if op = .Regex then val else [] }, p)

omit [Double F] in
/-- The loops of `parseOr` and `parseAnd`: while the current token is `type`, `next` reads another
operand. -/
def joinLoop (type : TokType) (join : ExprPtr F → ExprPtr F → ExprPtr F)
    (next : Parser → ExprPtr F × Parser) : Nat → ExprPtr F → Parser → ExprPtr F × Parser
  | 0, lhs, p => (lhs, p)
  | fuel + 1, lhs, p =>
      if p.error.isEmpty ∧ p.cur.type = type then
        let (rhs, q) := next (p.advance T)
        joinLoop type join next fuel (join lhs rhs) q
      else (lhs, p)

omit [Double F] in
/-- An operand and the loop after it. -/
def chain (type : TokType) (join : ExprPtr F → ExprPtr F → ExprPtr F)
    (next : Parser → ExprPtr F × Parser) (p : Parser) : ExprPtr F × Parser :=
  let (lhs, q) := next p
  joinLoop T type join next (q.lex.rest.length + 1) lhs q

mutual

def parseOr : Nat → Parser → ExprPtr F × Parser
  | 0, p => (.null, p.tooDeep)
  | n + 1, p => chain T .Or .or (parseAnd n) p

def parseAnd : Nat → Parser → ExprPtr F × Parser
  | 0, p => (.null, p.tooDeep)
  | n + 1, p => chain T .And .and (parseNot n) p

def parseNot : Nat → Parser → ExprPtr F × Parser
  | 0, p => (.null, p.tooDeep)
  | n + 1, p =>
      if p.cur.type = .Not then
        let (child, q) := parseNot n (p.advance T)
        (.not child, q)
      else parseAtom n p

def parseAtom : Nat → Parser → ExprPtr F × Parser
  | 0, p => (.null, p.tooDeep)
  | n + 1, p =>
      if p.cur.type = .LParen then
        let (e, q) := parseOr n (p.advance T)
        if q.cur.type ≠ .RParen then (.null, q.fail "expected ')'".toList q.cur.pos)
        else (e, q.advance T)
      else parsePredicate T p

end

omit [Double F] in
/-- The parser at the first token. -/
def ofInput (src : QString) : Parser :=
  let (t, l) := Lexer.next T ⟨src, 0⟩
  ⟨t, l, [], -1⟩

def parse (p : Parser) : ParseResult F :=
  if p.cur.type = .End then {}
  else
    let (e, q) := parseOr T kMaxExprDepth p
    if ¬q.error.isEmpty then { error := q.error, errorPos := q.errorPos }
    else if q.cur.type ≠ .End then
      { error := arg "unexpected '%1'".toList q.cur.text, errorPos := q.cur.pos }
    else { expr := e }

end Parser

/-- `qiftop::filter::parse`. -/
def parse {F : Type} [Double F] (T : TextOps F) (input : QString) : ParseResult F :=
  (Parser.ofInput T input).parse T

end Qiftop.Filter
