import Mathlib.Data.List.Basic

/-!
# Lib — the words of a shell command

The POSIX rules by which a shell takes a command text apart: blanks separate words, single quotes keep
everything up to the next one, double quotes everything but dollar signs, backquotes and backslashes, a
backslash the character behind it.  `read` follows them as long as every character stands for itself.
It stops at the first one that does not: an operator, a line break, an expansion, a pattern, a comment,
an assignment.

A word of which any character is quoted is no reserved word and no alias; `Word.quoted` records that.

* `spells_quote`: a text in single quotes, with its own written as `'\''`, is a word for that text.
* `read_words`: a text of such words with blanks between them is read as these words.
-/

namespace Qiftop.Lib.Shell

def squote : Char := Char.ofNat 39
def dquote : Char := Char.ofNat 34
def backslash : Char := Char.ofNat 92

def blank (c : Char) : Bool := c = ' ' ∨ c = '\t'

/-- The characters that, unquoted, may do something other than stand for themselves. -/
def active : List Char := "\n|&;<>()$`*?[]#~=%!^,\x7b\x7d".toList

/-- The characters that keep their meaning in double quotes. -/
def activeInDouble : List Char := "$`".toList

structure Word where
  text : List Char
  quoted : Bool
  deriving DecidableEq, Repr

/-- The empty word before its first character. -/
def Word.empty : Word := ⟨[], false⟩

def Word.push (w : Word) (c : Char) : Word := { w with text := w.text ++ [c] }

def Word.quote (w : Word) : Word := { w with quoted := true }

/-- What reading a command comes to. -/
inductive Outcome where
  /-- Every character stands for itself, and these are the words. -/
  | words (ws : List Word)
  /-- The first character that does not. -/
  | active (c : Char)
  /-- A quote without an end. -/
  | unterminated
  deriving DecidableEq, Repr

/-- Where in a word the shell is: outside quotes, behind a backslash, in single or in double quotes,
behind a backslash in double quotes. -/
inductive Mode where
  | unquoted | escaped | single | double | doubleEscaped
  deriving DecidableEq, Repr

/-- The words of a text, `cur` being what has been read of the current one. -/
def read : Mode → Option Word → List Word → List Char → Outcome
  | m, cur, ws, [] => if m = .unquoted then .words (ws ++ cur.toList) else .unterminated
  | .unquoted, cur, ws, c :: s =>
      if c = squote then read .single (some (cur.getD .empty).quote) ws s
      else if c = dquote then read .double (some (cur.getD .empty).quote) ws s
      else if c = backslash then read .escaped cur ws s
      else if blank c then read .unquoted none (ws ++ cur.toList) s
      else if c ∈ active then .active c
      else read .unquoted (some ((cur.getD .empty).push c)) ws s
  | .escaped, cur, ws, c :: s =>
      -- a backslash before a line break joins the lines
      if c = '\n' then read .unquoted cur ws s
      else read .unquoted (some ((cur.getD .empty).quote.push c)) ws s
  | .single, cur, ws, c :: s =>
      if c = squote then read .unquoted cur ws s
      else read .single (some ((cur.getD .empty).push c)) ws s
  | .double, cur, ws, c :: s =>
      if c = dquote then read .unquoted cur ws s
      else if c = backslash then read .doubleEscaped cur ws s
      else if c ∈ activeInDouble then .active c
      else read .double (some ((cur.getD .empty).push c)) ws s
  | .doubleEscaped, cur, ws, c :: s =>
      if c = '\n' then read .double cur ws s
      else if c = dquote ∨ c = backslash ∨ c ∈ activeInDouble then
        read .double (some ((cur.getD .empty).push c)) ws s
      else read .double (some (((cur.getD .empty).push backslash).push c)) ws s

/-! ### Single quotes -/

/-- The way out of single quotes and back in around a single quote. -/
def quoteEscape : List Char := [squote, backslash, squote, squote]

/-- A text in single quotes, its own escaped. -/
def quote (text : List Char) : List Char :=
  squote :: (text.flatMap fun c => if c = squote then quoteEscape else [c]) ++ [squote]

theorem read_open (cur : Option Word) (ws : List Word) (s : List Char) :
    read .unquoted cur ws (squote :: s) = read .single (some (cur.getD .empty).quote) ws s := by
  rw [read, if_pos rfl]

theorem read_close (cur : Option Word) (ws : List Word) (s : List Char) :
    read .single cur ws (squote :: s) = read .unquoted cur ws s := by
  rw [read, if_pos rfl]

theorem read_escaped_squote (cur : Option Word) (ws : List Word) (s : List Char) :
    read .unquoted cur ws (backslash :: squote :: s) =
      read .unquoted (some ((cur.getD .empty).quote.push squote)) ws s := by
  have hb : backslash ≠ squote ∧ backslash ≠ dquote ∧ squote ≠ '\n' := by decide
  rw [read, if_neg hb.1, if_neg hb.2.1, if_pos rfl, read, if_neg hb.2.2]

theorem read_quoteEscape (t : List Char) (ws : List Word) (s : List Char) :
    read .single (some ⟨t, true⟩) ws (quoteEscape ++ s) =
      read .single (some ⟨t ++ [squote], true⟩) ws s := by
  simp only [quoteEscape, List.cons_append, List.nil_append]
  rw [read_close, read_escaped_squote, read_open]
  rfl

/-- What stands between the quotes is read as the text, up to the closing one. -/
theorem read_escapedText (text t : List Char) (ws : List Word) (s : List Char) :
    read .single (some ⟨t, true⟩) ws
        ((text.flatMap fun c => if c = squote then quoteEscape else [c]) ++ squote :: s) =
      read .unquoted (some ⟨t ++ text, true⟩) ws s := by
  induction text generalizing t with
  | nil => rw [List.flatMap_nil, List.nil_append, List.append_nil, read_close]
  | cons c text ih =>
      rw [List.flatMap_cons, List.append_assoc]
      split
      · rename_i hc
        rw [read_quoteEscape, ih, hc, List.append_assoc, List.singleton_append]
      · rename_i hc
        have hstep : ∀ s, read .single (some ⟨t, true⟩) ws (c :: s) =
            read .single (some ⟨t ++ [c], true⟩) ws s := by
          intro s
          rw [read, if_neg hc]
          rfl
        rw [List.singleton_append, hstep, ih, List.append_assoc, List.singleton_append]

/-! ### Commands -/

/-- `enc` is a way to write the word `w`: read where a word may begin it leaves `w` there. -/
def Spells (enc : List Char) (w : Word) : Prop :=
  ∀ ws s, read .unquoted none ws (enc ++ s) = read .unquoted (some w) ws s

/-- **A quoted text** is a word for it, whatever its characters. -/
theorem spells_quote (text : List Char) : Spells (quote text) ⟨text, true⟩ := by
  intro ws s
  rw [quote, List.append_assoc, List.cons_append, List.singleton_append, read_open]
  exact read_escapedText text [] ws s

theorem read_blank (cur : Option Word) (ws : List Word) (s : List Char) :
    read .unquoted cur ws (' ' :: s) = read .unquoted none (ws ++ cur.toList) s := by
  have hb : ' ' ≠ squote ∧ ' ' ≠ dquote ∧ ' ' ≠ backslash ∧ blank ' ' = true := by decide
  rw [read, if_neg hb.1, if_neg hb.2.1, if_neg hb.2.2.1, if_pos hb.2.2.2]

/-- **A command of words** with blanks between them is read as these words. -/
theorem read_words {encs : List (List Char)} {words : List Word}
    (h : List.Forall₂ Spells encs words) (ws : List Word) :
    read .unquoted none ws ([' '].intercalate encs) = .words (ws ++ words) := by
  induction h generalizing ws with
  | nil => rfl
  | @cons enc w encs words hspell hrest ih =>
      cases encs with
      | nil =>
          cases hrest
          have hend := hspell ws []
          rw [List.append_nil] at hend
          rw [List.intercalate_singleton, hend]
          rfl
      | cons enc' encs =>
          rw [List.intercalate_cons_cons, List.append_assoc, List.singleton_append, hspell,
            read_blank, ih]
          simp

end Qiftop.Lib.Shell
