import Mathlib.Data.List.Basic

/-!
# Lib — comma-separated values

RFC 4180 with records ended by a line feed: a record is one or more fields with commas between them;
a field is text without quotes, commas and line breaks, or any text in quotes with its quotes
doubled.  `parse` reads a whole text and fails on any other.

`Reads enc cell` says that `enc` is a field for `cell`, whatever follows; `parse_records` reads back a
text made of such fields.
-/

namespace Qiftop.Lib.Csv

def dquote : Char := Char.ofNat 34

theorem dquote_ne : ¬dquote = ',' ∧ ¬dquote = '\n' := by decide

/-- A character a field without quotes does not have. -/
def special (c : Char) : Bool := c = dquote ∨ c = ',' ∨ c = '\n' ∨ c = '\r'

/-- Where in a field the parser is: before it, in one without quotes, in quotes, behind a quote. -/
inductive State where
  | start | plain | quoted | closed
  deriving DecidableEq, Repr

/-- The records of a text, `cell` and `row` being what has been read of the current ones. -/
def parse (st : State) (cell : List Char) (row : List (List Char)) :
    List Char → Option (List (List (List Char)))
  | [] => if st = .start ∧ row = [] then some [] else none
  | c :: s =>
      if st = .quoted then
        if c = dquote then parse .closed cell row s else parse .quoted (cell ++ [c]) row s
      else if c = ',' then parse .start [] (row ++ [cell]) s
      else if c = '\n' then (parse .start [] [] s).map ((row ++ [cell]) :: ·)
      else if c = dquote ∧ st = .start then parse .quoted cell row s
      else if c = dquote ∧ st = .closed then parse .quoted (cell ++ [c]) row s
      else if special c ∨ st = .closed then none
      else parse .plain (cell ++ [c]) row s

/-- What a delimiter behind a field does. -/
def finish (c : Char) (cell : List Char) (row : List (List Char)) (s : List Char) :
    Option (List (List (List Char))) :=
  if c = ',' then parse .start [] (row ++ [cell]) s
  else (parse .start [] [] s).map ((row ++ [cell]) :: ·)

/-- A delimiter of fields. -/
def delimits (c : Char) : Bool := c = ',' ∨ c = '\n'

theorem parse_delimiter {c : Char} (hc : delimits c) {st : State} (hst : st ≠ .quoted)
    (cell : List Char) (row : List (List Char)) (s : List Char) :
    parse st cell row (c :: s) = finish c cell row s := by
  simp only [delimits, decide_eq_true_eq] at hc
  rw [parse, if_neg hst, finish]
  rcases hc with rfl | rfl
  · rfl
  · rfl

/-- `enc` is a field for `cell`: read from the start of a field up to a delimiter it gives `cell`. -/
def Reads (enc cell : List Char) : Prop :=
  ∀ row c s, delimits c → parse .start [] row (enc ++ c :: s) = finish c cell row s

theorem parse_plain {enc : List Char} (h : ∀ c ∈ enc, special c = false) {st : State}
    (hst : st = .start ∨ st = .plain) (cell : List Char) (row : List (List Char)) {c : Char}
    (hc : delimits c) (s : List Char) :
    parse st cell row (enc ++ c :: s) = finish c (cell ++ enc) row s := by
  induction enc generalizing st cell with
  | nil =>
      rw [List.nil_append, List.append_nil]
      exact parse_delimiter hc (by rcases hst with rfl | rfl <;> simp) cell row s
  | cons d enc ih =>
      have hd := h d (by simp)
      simp only [special, decide_eq_false_iff_not, not_or] at hd
      have hstep : parse st cell row (d :: (enc ++ c :: s)) =
          parse .plain (cell ++ [d]) row (enc ++ c :: s) := by
        rcases hst with rfl | rfl
        · rw [parse]
          simp [hd, special]
        · rw [parse]
          simp [hd, special]
      rw [List.cons_append, hstep, ih (fun e he => h e (by simp [he])) (.inr rfl)]
      simp

/-- Text without quotes, commas and line breaks is a field as it is. -/
theorem reads_plain {enc : List Char} (h : ∀ c ∈ enc, special c = false) : Reads enc enc :=
  fun row _ s hc => by rw [parse_plain h (.inl rfl) [] row hc s, List.nil_append]

/-- Any text with its quotes doubled. -/
def doubled (text : List Char) : List Char :=
  text.flatMap fun c => if c = dquote then [dquote, dquote] else [c]

theorem parse_doubled (text cell : List Char) (row : List (List Char)) (s : List Char) :
    parse .quoted cell row (doubled text ++ dquote :: s) = parse .closed (cell ++ text) row s := by
  induction text generalizing cell with
  | nil =>
      rw [doubled, List.flatMap_nil, List.nil_append, List.append_nil, parse]
      simp
  | cons c text ih =>
      rw [doubled, List.flatMap_cons, ← doubled, List.append_assoc]
      split
      · rename_i hc
        rw [List.cons_append, parse]
        simp only [if_true]
        rw [List.singleton_append, parse]
        simp only [reduceCtorEq, dquote_ne, if_false, true_and, if_true, and_false]
        rw [ih, hc]
        simp
      · rename_i hc
        rw [List.singleton_append, parse]
        simp only [hc, if_false]
        rw [ih]
        simp

/-- Any text in quotes, with its own doubled, is a field. -/
theorem reads_quoted (text : List Char) : Reads (dquote :: doubled text ++ [dquote]) text := by
  intro row c s hc
  have hopen : parse .start [] row (dquote :: (doubled text ++ dquote :: c :: s)) =
      parse .quoted [] row (doubled text ++ dquote :: c :: s) := by
    rw [parse]
    simp [dquote_ne]
  rw [List.append_assoc, List.singleton_append, List.cons_append, hopen, parse_doubled,
    List.nil_append]
  exact parse_delimiter hc (by simp) text row s

/-- A record of fields. -/
theorem parse_record {encs cells : List (List Char)} (h : List.Forall₂ Reads encs cells)
    (hne : encs ≠ []) (row : List (List Char)) (s : List Char) :
    parse .start [] row ([','].intercalate encs ++ '\n' :: s) =
      (parse .start [] [] s).map ((row ++ cells) :: ·) := by
  induction h generalizing row with
  | nil => exact absurd rfl hne
  | @cons enc cell encs cells hread hrest ih =>
      cases encs with
      | nil =>
          cases hrest
          rw [List.intercalate_singleton, hread row '\n' s (by decide)]
          simp [finish]
      | cons enc' encs =>
          rw [List.intercalate_cons_cons, List.append_assoc, List.append_assoc,
            List.singleton_append, hread row ',' _ (by decide), finish, if_pos rfl, ih (by simp)]
          simp

/-- **A text of records is read back.** -/
theorem parse_records {encs cells : List (List (List Char))}
    (h : List.Forall₂ (List.Forall₂ Reads) encs cells) (hne : ∀ row ∈ encs, row ≠ []) :
    parse .start [] [] (encs.flatMap fun row => [','].intercalate row ++ ['\n']) = some cells := by
  induction h with
  | nil => rfl
  | @cons enc cell encs cells hrow hrest ih =>
      rw [List.flatMap_cons, List.append_assoc, List.singleton_append,
        parse_record hrow (hne enc (by simp)), ih fun row hr => hne row (by simp [hr])]
      rfl

end Qiftop.Lib.Csv
