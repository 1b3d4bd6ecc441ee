import Qiftop.Qt.Prelude

/-!
# Qt — texts and bytes

The operations on `QString` and `QByteArray` the agent's configuration and the hand-over protocol
use: trimming, splitting and reading numbers, and searching in a buffer.  `QString::toInt` and
`QString::toLongLong` read a decimal number in the C locale and answer `0` for anything else.
-/

namespace Qiftop.Qt

/-! ### Texts -/

/-- `QChar::isSpace`. -/
def isSpace (c : Char) : Bool :=
  (9 ≤ c.toNat && c.toNat ≤ 13) || (8192 ≤ c.toNat && c.toNat ≤ 8202) ||
    c.toNat ∈ [32, 133, 160, 5760, 8232, 8233, 8239, 8287, 12288]

/-- A list without the leading and trailing elements `p` holds of. -/
def trimmedBy {α : Type} (p : α → Bool) (s : List α) : List α :=
  ((s.dropWhile p).reverse.dropWhile p).reverse

/-- `QString::trimmed`. -/
def trimmed (s : QString) : QString := trimmedBy isSpace s

/-- `QString::toLower`, as far as ASCII goes: the keywords a lowered text is compared with have no
letter that another script's capital lowers to. -/
def toLower (s : QString) : QString := s.map Char.toLower

/-- `QString::replace` of a character. -/
def replaceChar (s : QString) (c : Char) (after : QString) : QString :=
  s.flatMap fun d => if d = c then after else [d]

/-- `QStringList::join`. -/
def join (parts : List QString) (sep : Char) : QString := [sep].intercalate parts

/-- The UTF-16 code units of a character. -/
def utf16 (c : Char) : List ℕ :=
  if c.toNat < 0x10000 then [c.toNat]
  else [0xD800 + (c.toNat - 0x10000) / 0x400, 0xDC00 + (c.toNat - 0x10000) % 0x400]

/-- `operator<` of texts, by code units. -/
def textLess (a b : QString) : Bool := (a.flatMap utf16).lex (b.flatMap utf16)

theorem textLess_weak : StrictWeak textLess where
  asymm a b hab := by
    rw [textLess, List.lex_eq_true_iff_lt] at hab
    rw [textLess, List.lex_eq_false_iff_ge]
    exact List.lt_asymm hab
  negTrans a b c hba hcb := by
    rw [textLess, List.lex_eq_false_iff_ge] at *
    exact List.le_trans hba hcb

/-- The value of a text of decimal digits, at least one. -/
def digits (s : QString) : Option ℕ :=
  if s ≠ [] ∧ s.all Char.isDigit then some (s.foldl (fun n c => 10 * n + (c.toNat - 48)) 0) else none

/-- A decimal number with an optional sign. -/
def integer (s : QString) : Option Int :=
  match trimmed s with
  | '-' :: s => (digits s).map fun n => -(n : Int)
  | '+' :: s => (digits s).map Int.ofNat
  | s => (digits s).map Int.ofNat

/-- `QString::toLongLong`. -/
def toLongLong (s : QString) : Int :=
  match integer s with
  | some n => if -9223372036854775808 ≤ n ∧ n ≤ 9223372036854775807 then n else 0
  | none => 0

/-- `QString::toInt`. -/
def toInt (s : QString) : Int :=
  match integer s with
  | some n => if -2147483648 ≤ n ∧ n ≤ 2147483647 then n else 0
  | none => 0

/-- `QVariant::toInt` of a text: a 64-bit number, of which the lower 32 bits are taken. -/
def variantToInt (s : QString) : Int := (Int32.ofInt (toLongLong s)).toInt

/-! ### Bytes -/

/-- A byte array. -/
abbrev QByteArray := List UInt8

/-- `QString::toLatin1`, for texts of characters below 256. -/
def toLatin1 (s : QString) : QByteArray := s.map fun c => UInt8.ofNat c.toNat

/-- `QString::toUtf8`. -/
def toUtf8 (s : QString) : QByteArray := s.flatMap String.utf8EncodeChar

/-- The text of bytes in UTF-8. -/
def fromUtf8 (b : QByteArray) : Option QString := b.toByteArray.utf8Decode?.map Array.toList

theorem fromUtf8_toUtf8 (s : QString) : fromUtf8 (toUtf8 s) = some s := by
  have h : (toUtf8 s).toByteArray = s.utf8Encode := rfl
  rw [fromUtf8, h, List.utf8Decode?_utf8Encode]
  rfl

/-- `isspace` of the C locale. -/
def isAsciiSpace (b : UInt8) : Bool := (9 ≤ b && b ≤ 13) || b == 32

/-- `QByteArray::trimmed`. -/
def trimmedBytes (s : QByteArray) : QByteArray := trimmedBy isAsciiSpace s

/-- The line feed. -/
def lf : UInt8 := 10

/-- The tab. -/
def tab : UInt8 := 9

/-- The space. -/
def space : UInt8 := 32

/-- `QByteArray::indexOf` of a byte, from a position on. -/
def indexOf (s : QByteArray) (b : UInt8) (start : ℕ) : Option ℕ :=
  ((s.drop start).idxOf? b).map (start + ·)

/-- `QByteArray::lastIndexOf` of a byte. -/
def lastIndexOf (s : QByteArray) (b : UInt8) : Option ℕ :=
  (s.reverse.idxOf? b).map fun i => s.length - 1 - i

/-- `QByteArray::simplified`: the words with one space between them. -/
def simplified (s : QByteArray) : QByteArray :=
  [space].intercalate ((s.splitOnP isAsciiSpace).filter fun w => !w.isEmpty)

def isAsciiDigit (b : UInt8) : Bool := 48 ≤ b && b ≤ 57

/-- `QByteArray::toULongLong`, nothing where it fails: white space, an optional plus and decimal digits
of a number below 2⁶⁴. -/
def toULongLong (s : QByteArray) : Option UInt64 :=
  let s := s.dropWhile isAsciiSpace
  let ds := if s.head? = some 43 then s.tail else s
  let n := ds.foldl (fun n b => 10 * n + (b.toNat - 48)) 0
  if ds ≠ [] ∧ ds.all isAsciiDigit ∧ n < 2 ^ 64 then some (UInt64.ofNat n) else none

end Qiftop.Qt
