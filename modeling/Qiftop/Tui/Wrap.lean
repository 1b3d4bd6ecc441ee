import Mathlib.Data.List.Basic

/-!
# Tui — wrapping

`wrapToWidth` of `tui/TuiFormat.h`: a text broken into lines at its blanks, and within a word that is
longer than a line.  Characters are any, with one of them the blank; `QString` has UTF-16 code units.

* `length_le_of_mem_wrapToWidth`: no line is longer than the width.
* `wrapToWidth_spec`: and nothing but blanks is lost or moved.
-/

namespace Qiftop.Tui

variable {C : Type} [DecidableEq C] (space : C)

/-- The lines finished, and the one begun. -/
structure Wrapping (C : Type) where
  out : List (List C) := []
  line : List C := []

namespace Wrapping

def flush (s : Wrapping C) : Wrapping C := { out := s.out ++ [s.line] }

/-- The line begun is finished, if there is any of it. -/
def finishLine (s : Wrapping C) : Wrapping C := if s.line = [] then s else s.flush

/-- The loop over a word that is too long.  What is left of the word comes with the lines. -/
def hardBreak {width : ℕ} (hwidth : 0 < width) (s : Wrapping C) (word : List C) :
    Wrapping C × List C :=
  if width < word.length then
    hardBreak hwidth { s.finishLine with out := s.finishLine.out ++ [word.take width] }
      (word.drop width)
  else (s, word)
termination_by word.length
decreasing_by
  rw [List.length_drop]
  omega

def addWord {width : ℕ} (hwidth : 0 < width) (s : Wrapping C) (w : List C) : Wrapping C :=
  let (s, word) := s.hardBreak hwidth w
  if s.line = [] then { s with line := word }
  else if s.line.length + 1 + word.length ≤ width then { s with line := s.line ++ space :: word }
  else { s.flush with line := word }

end Wrapping

/-- The width in use. -/
def clampWidth (width : Int) : ℕ := (max 1 width).toNat

theorem clampWidth_pos (width : Int) : 0 < clampWidth width := by
  unfold clampWidth
  omega

def wrapToWidth (text : List C) (width : Int) : List (List C) :=
  if text = [] then [[]]
  else
    let s := (text.splitOn space).foldl (Wrapping.addWord space (clampWidth_pos width)) {}
    let out := s.flush.out
    if out = [] then [[]] else out

/-! ### One word -/

namespace Wrapping
variable {width : ℕ} (hwidth : 0 < width)

/-- No line is longer than the width. -/
def Fits (width : ℕ) (s : Wrapping C) : Prop :=
  (∀ l ∈ s.out, l.length ≤ width) ∧ s.line.length ≤ width

/-- What the lines have beside blanks. -/
def letters (s : Wrapping C) : List C := (s.out.flatten ++ s.line).filter (· ≠ space)

omit [DecidableEq C] in
theorem fits_empty (width : ℕ) : Fits (C := C) width {} :=
  ⟨fun _ hl => absurd hl List.not_mem_nil, Nat.zero_le _⟩

omit [DecidableEq C] in
theorem Fits.flush {s : Wrapping C} (h : Fits width s) : Fits width s.flush := by
  refine ⟨fun l hl => ?_, Nat.zero_le _⟩
  rcases List.mem_append.mp hl with hl | hl
  · exact h.1 l hl
  · rw [List.mem_singleton.mp hl]
    exact h.2

theorem letters_flush (s : Wrapping C) : s.flush.letters space = s.letters space := by
  simp [letters, flush]

theorem finishLine_spec {s : Wrapping C} (h : Fits width s) :
    Fits width s.finishLine ∧ s.finishLine.line = [] ∧
      s.finishLine.letters space = s.letters space := by
  rw [finishLine]
  split
  · exact ⟨h, ‹_›, rfl⟩
  · exact ⟨h.flush, rfl, letters_flush space s⟩

/-- A line is finished in the middle of a word. -/
theorem letters_piece {s : Wrapping C} (h : s.line = []) (word : List C) (k : ℕ) :
    Wrapping.letters space { s with out := s.out ++ [word.take k] } ++
        (word.drop k).filter (· ≠ space) =
      s.letters space ++ word.filter (· ≠ space) := by
  have hword : (word.take k).filter (· ≠ space) ++ (word.drop k).filter (· ≠ space) =
      word.filter (· ≠ space) := by
    rw [← List.filter_append, List.take_append_drop]
  rw [← hword]
  simp [letters, h]

theorem hardBreak_spec (s : Wrapping C) (word : List C) (h : Fits width s) :
    Fits width (s.hardBreak hwidth word).1 ∧ (s.hardBreak hwidth word).2.length ≤ width ∧
      (s.hardBreak hwidth word).1.letters space ++ (s.hardBreak hwidth word).2.filter (· ≠ space) =
        s.letters space ++ word.filter (· ≠ space) := by
  induction s, word using hardBreak.induct hwidth with
  | case1 s word hlong ih =>
      obtain ⟨hfits, hline, hletters⟩ := finishLine_spec space h
      have hpiece : Fits width { s.finishLine with out := s.finishLine.out ++ [word.take width] } := by
        refine ⟨fun l hl => ?_, hfits.2⟩
        rcases List.mem_append.mp hl with hl | hl
        · exact hfits.1 l hl
        · rw [List.mem_singleton.mp hl]
          exact List.length_take_le _ _
      obtain ⟨hfits', hshort, hsame⟩ := ih hpiece
      rw [hardBreak, if_pos hlong]
      exact ⟨hfits', hshort, by rw [hsame, letters_piece space hline, hletters]⟩
  | case2 s word hshort =>
      rw [hardBreak, if_neg hshort]
      exact ⟨h, Nat.not_lt.mp hshort, rfl⟩

/-- **One word** more. -/
theorem addWord_spec (s : Wrapping C) (w : List C) (h : Fits width s) :
    Fits width (s.addWord space hwidth w) ∧
      (s.addWord space hwidth w).letters space = s.letters space ++ w.filter (· ≠ space) := by
  obtain ⟨hfits, hshort, hsame⟩ := hardBreak_spec space hwidth s w h
  rw [addWord, ← hsame]
  generalize s.hardBreak hwidth w = broken at hfits hshort
  obtain ⟨s', word⟩ := broken
  dsimp only at hfits hshort ⊢
  split
  · rename_i hnil
    refine ⟨⟨hfits.1, hshort⟩, ?_⟩
    simp [letters, hnil]
  split
  · rename_i hroom
    refine ⟨⟨hfits.1, ?_⟩, by simp [letters]⟩
    rw [List.length_append, List.length_cons]
    omega
  · refine ⟨⟨hfits.flush.1, hshort⟩, ?_⟩
    rw [← letters_flush]
    simp [letters, flush]

theorem foldl_addWord_spec (ws : List (List C)) (s : Wrapping C) (h : Fits width s) :
    Fits width (ws.foldl (addWord space hwidth) s) ∧
      (ws.foldl (addWord space hwidth) s).letters space =
        s.letters space ++ ws.flatten.filter (· ≠ space) := by
  induction ws generalizing s with
  | nil => exact ⟨h, by simp⟩
  | cons w ws ih =>
      obtain ⟨hfits, hletters⟩ := addWord_spec space hwidth s w h
      obtain ⟨hall, hsame⟩ := ih (s.addWord space hwidth w) hfits
      refine ⟨hall, ?_⟩
      rw [List.foldl_cons, hsame, hletters, List.flatten_cons, List.filter_append, List.append_assoc]

end Wrapping

/-! ### The text -/

/-- Blanks between words are no letters. -/
theorem filter_intercalate (ws : List (List C)) :
    ([space].intercalate ws).filter (· ≠ space) = ws.flatten.filter (· ≠ space) := by
  induction ws with
  | nil => rfl
  | cons w ws ih =>
      cases ws with
      | nil => rw [List.intercalate_singleton, List.flatten_singleton]
      | cons w' ws =>
          rw [List.intercalate_cons_cons, List.filter_append, List.filter_append, ih,
            List.flatten_cons, List.filter_append, List.append_assoc]
          simp

theorem filter_splitOn (text : List C) :
    (text.splitOn space).flatten.filter (· ≠ space) = text.filter (· ≠ space) := by
  rw [← filter_intercalate, List.intercalate_splitOn]

/-- **A wrapped text**: whatever the text and the width, which counts as one if it is less, no line is
longer than the width, and the lines together have the text's characters, blanks apart, in their
order. -/
theorem wrapToWidth_spec (text : List C) (width : Int) :
    (∀ line ∈ wrapToWidth space text width, (line.length : Int) ≤ max 1 width) ∧
      (wrapToWidth space text width).flatten.filter (· ≠ space) = text.filter (· ≠ space) := by
  rw [wrapToWidth]
  split
  · rename_i hnil
    refine ⟨fun line hline => ?_, by rw [hnil]; rfl⟩
    rw [List.mem_singleton.mp hline]
    simp only [List.length_nil]
    omega
  obtain ⟨hfits, hletters⟩ := Wrapping.foldl_addWord_spec space (clampWidth_pos width)
    (text.splitOn space) {} (Wrapping.fits_empty _)
  rw [filter_splitOn] at hletters
  dsimp only
  split
  · rename_i hnone
    exact absurd hnone (by simp [Wrapping.flush])
  refine ⟨fun line hline => ?_, ?_⟩
  · have hle := hfits.flush.1 line hline
    unfold clampWidth at hle
    omega
  · rw [← Wrapping.letters_flush] at hletters
    simpa [Wrapping.letters, Wrapping.flush] using hletters

end Qiftop.Tui
