import Mathlib.Data.List.Induction
import Mathlib.Data.Nat.Digits.Defs
import Qiftop.Qt.Text

/-!
# Backend — the start time of a process

`backend/linux/ProcSnapshot.h` and `backend/linux/ProcDetails.cpp` each read the start time of a process
off `/proc/<pid>/stat`, a line `pid (comm) state ppid …`.  A pid with another start time is another
process, so the two must agree; and the process chooses `comm`.

`startTime_parsed`: whatever `comm` is, both give the field numbered 22.
-/

namespace Qiftop.Backend
open Qt

/-! ### The two parsers -/

def leftParenthesis : UInt8 := 40

def rightParenthesis : UInt8 := 41

/-- Where the field after `n` more starts. -/
def fieldStart (rest : QByteArray) : ℕ → ℕ → Option ℕ
  | 0, pos => some pos
  | n + 1, pos => (indexOf rest space pos).bind fun sp => fieldStart rest n (sp + 1)

/-- The field that starts at a position, up to the next space. -/
def fieldAt (rest : QByteArray) (pos : ℕ) : QByteArray :=
  match indexOf rest space pos with
  | none => rest.drop pos
  | some fin => (rest.drop pos).take (fin - pos)

/-- `procsnap::parseStartTime`. -/
def parseStartTime (stat : QByteArray) : Option UInt64 :=
  match lastIndexOf stat rightParenthesis with
  | none => none
  | some rp =>
    if rp + 2 ≥ stat.length then none
    else
      let rest := stat.drop (rp + 2)
      (fieldStart rest 19 0).bind fun pos => toULongLong (fieldAt rest pos)

def kStartTimeFieldOffset : ℕ := 19

/-- `readStartTimeJiffies`, of the bytes it read: 0 where it fails. -/
def startTimeJiffies (data : QByteArray) : UInt64 :=
  match lastIndexOf data rightParenthesis with
  | none => 0
  | some rparen =>
    if rparen + 2 ≥ data.length then 0
    else
      let rest := (simplified (data.drop (rparen + 2))).splitOn space
      match rest[kStartTimeFieldOffset]? with
      | none => 0
      | some tok => (toULongLong tok).getD 0

/-! ### The line -/

/-- Decimal digits, the most significant first. -/
structure Digits where
  digits : List ℕ
  nonempty : digits ≠ []
  small : ∀ d ∈ digits, d < 10

def Digits.value (d : Digits) : ℕ := Nat.ofDigits 10 d.digits.reverse

def Digits.text (d : Digits) : QByteArray := d.digits.map fun n => UInt8.ofNat (48 + n)

/-- A decimal integer. -/
inductive Decimal : QByteArray → Prop
  | natural (d : Digits) : Decimal d.text
  | negative (d : Digits) : Decimal (45 :: d.text)

def isAsciiLetter (b : UInt8) : Bool := (65 ≤ b && b ≤ 90) || (97 ≤ b && b ≤ 122)

/-- The fields after `comm`. -/
structure StatFields where
  state : UInt8
  letter : isAsciiLetter state = true
  numbers : List QByteArray
  decimal : ∀ f ∈ numbers, Decimal f
  enough : 20 ≤ numbers.length

def StatFields.texts (fields : StatFields) : List QByteArray := [fields.state] :: fields.numbers

/-- `pid (comm) state …`. -/
def statLine (pid : ℕ) (comm : QByteArray) (fields : StatFields) : QByteArray :=
  toLatin1 (number pid) ++ [space, leftParenthesis] ++ comm ++ [rightParenthesis, space] ++
    [space].intercalate fields.texts

/-! ### Fields -/

/-- A field that both parsers take as one. -/
structure Plain (f : QByteArray) : Prop where
  nonempty : f ≠ []
  noSpace : ∀ b ∈ f, isAsciiSpace b = false
  noParenthesis : rightParenthesis ∉ f

theorem Plain.space_notMem {f : QByteArray} (h : Plain f) : space ∉ f := by
  intro hm
  exact absurd (h.noSpace space hm) (by decide)

theorem digit_byte : ∀ n < 10, isAsciiDigit (UInt8.ofNat (48 + n)) = true ∧
    isAsciiSpace (UInt8.ofNat (48 + n)) = false ∧ UInt8.ofNat (48 + n) ≠ rightParenthesis ∧
    UInt8.ofNat (48 + n) ≠ 43 ∧ (UInt8.ofNat (48 + n)).toNat - 48 = n := by
  decide

theorem Digits.plain (d : Digits) : Plain d.text where
  nonempty := by simpa [Digits.text] using d.nonempty
  noSpace b hb := by
    obtain ⟨n, hn, rfl⟩ := List.mem_map.mp hb
    exact (digit_byte n (d.small n hn)).2.1
  noParenthesis hb := by
    obtain ⟨n, hn, e⟩ := List.mem_map.mp hb
    exact (digit_byte n (d.small n hn)).2.2.1 e

theorem Decimal.plain {f : QByteArray} (h : Decimal f) : Plain f := by
  cases h with
  | natural d => exact d.plain
  | negative d =>
      refine ⟨List.cons_ne_nil _ _, fun b hb => ?_, fun hb => ?_⟩
      · rcases List.mem_cons.mp hb with rfl | hb
        · rfl
        · exact d.plain.noSpace b hb
      · rcases List.mem_cons.mp hb with e | hb
        · exact absurd e (by decide)
        · exact d.plain.noParenthesis hb

theorem plain_letter {b : UInt8} (h : isAsciiLetter b = true) : Plain [b] := by
  simp only [isAsciiLetter, Bool.or_eq_true, Bool.and_eq_true, decide_eq_true_eq,
    UInt8.le_iff_toNat_le] at h
  change 65 ≤ b.toNat ∧ b.toNat ≤ 90 ∨ 97 ≤ b.toNat ∧ b.toNat ≤ 122 at h
  refine ⟨List.cons_ne_nil _ _, fun b' hb' => ?_, fun hb => ?_⟩
  · rw [List.mem_singleton.mp hb', ← Bool.not_eq_true]
    simp only [isAsciiSpace, Bool.or_eq_true, Bool.and_eq_true, decide_eq_true_eq,
      UInt8.le_iff_toNat_le, beq_iff_eq]
    rintro (⟨-, hle⟩ | e)
    · change b.toNat ≤ 13 at hle
      omega
    · rw [e] at h
      exact absurd h (by decide)
  · rw [← List.mem_singleton.mp hb] at h
    exact absurd h (by decide)

theorem StatFields.plain (fields : StatFields) : ∀ f ∈ fields.texts, Plain f := by
  intro f hf
  rcases List.mem_cons.mp hf with rfl | hf
  · exact plain_letter fields.letter
  · exact (fields.decimal f hf).plain

/-- Reading digits. -/
theorem foldl_digits (ds : List ℕ) (h : ∀ d ∈ ds, d < 10) :
    (ds.map fun n => UInt8.ofNat (48 + n)).foldl (fun n b => 10 * n + (b.toNat - 48)) 0 =
      Nat.ofDigits 10 ds.reverse := by
  induction ds using List.reverseRecOn with
  | nil => rfl
  | append_singleton ds d ih =>
      have hd := (digit_byte d (h d (List.mem_append_right _ List.mem_cons_self))).2.2.2.2
      rw [List.map_append, List.foldl_append, ih fun d' hd' => h d' (List.mem_append_left _ hd'),
        List.reverse_append, List.map_singleton, List.foldl_cons, List.foldl_nil, hd]
      exact (Nat.add_comm _ _).trans Nat.ofDigits_cons.symm

theorem toULongLong_text (d : Digits) (h : d.value < 2 ^ 64) :
    toULongLong d.text = some (UInt64.ofNat d.value) := by
  obtain ⟨n, ds, hds⟩ := List.exists_cons_of_ne_nil d.nonempty
  have hn := digit_byte n (d.small n (hds ▸ List.mem_cons_self))
  have hspaces : d.text.dropWhile isAsciiSpace = d.text := by
    rw [Digits.text, hds, List.map_cons, List.dropWhile_cons_of_neg (by rw [hn.2.1]; exact Bool.false_ne_true)]
  have hplus : d.text.head? ≠ some 43 := by
    rw [Digits.text, hds, List.map_cons, List.head?_cons]
    exact fun e => hn.2.2.2.1 (Option.some.inj e)
  have hdigits : d.text.all isAsciiDigit = true := by
    rw [List.all_eq_true]
    intro b hb
    obtain ⟨n, hn, rfl⟩ := List.mem_map.mp hb
    exact (digit_byte n (d.small n hn)).1
  simp only [toULongLong, hspaces, if_neg hplus]
  have hvalue : d.text.foldl (fun n b => 10 * n + (b.toNat - 48)) 0 = d.value :=
    foldl_digits d.digits d.small
  rw [hvalue, if_pos ⟨d.plain.nonempty, hdigits, h⟩]

/-! ### Finding the fields -/

theorem idxOf?_append_cons {b : UInt8} {f : QByteArray} (hf : b ∉ f) (more : QByteArray) :
    (f ++ b :: more).idxOf? b = some f.length := by
  induction f with
  | nil => simp [List.idxOf?_cons]
  | cons c f ih =>
      have hc : c ≠ b := fun e => hf (e ▸ List.mem_cons_self)
      rw [List.cons_append, List.idxOf?_cons, ih fun hm => hf (List.mem_cons_of_mem c hm)]
      simp [hc]

/-- The rest of a text after a last parenthesis. -/
theorem lastIndexOf_append {b : UInt8} (before : QByteArray) {after : QByteArray} (h : b ∉ after) :
    lastIndexOf (before ++ b :: after) b = some before.length := by
  have hrev : (before ++ b :: after).reverse = after.reverse ++ b :: before.reverse := by simp
  have hidx : (after.reverse ++ b :: before.reverse).idxOf? b = some after.length := by
    rw [idxOf?_append_cons (mt List.mem_reverse.mp h), List.length_reverse]
  rw [lastIndexOf, hrev, hidx, Option.map_some, List.length_append, List.length_cons]
  congr 1
  omega

/-- The next space after a field that has none. -/
theorem indexOf_space {rest : QByteArray} {pos : ℕ} {f more : QByteArray}
    (h : rest.drop pos = f ++ space :: more) (hf : space ∉ f) :
    indexOf rest space pos = some (pos + f.length) := by
  rw [indexOf, h, idxOf?_append_cons hf]
  rfl

theorem indexOf_space_none {rest : QByteArray} {pos : ℕ} (h : space ∉ rest.drop pos) :
    indexOf rest space pos = none := by
  rw [indexOf, List.idxOf?_eq_none_iff.mpr h]
  rfl

theorem intercalate_cons (f : QByteArray) {fs : List QByteArray} (h : fs ≠ []) :
    [space].intercalate (f :: fs) = f ++ space :: [space].intercalate fs := by
  obtain ⟨g, gs, rfl⟩ := List.exists_cons_of_ne_nil h
  simp [List.intercalate]

/-- Skipping fields. -/
theorem fieldStart_intercalate {rest : QByteArray} {fs : List QByteArray} (hfs : ∀ f ∈ fs, Plain f)
    {n : ℕ} (hn : n < fs.length) {pos : ℕ} (h : rest.drop pos = [space].intercalate fs) :
    ∃ start, fieldStart rest n pos = some start ∧
      rest.drop start = [space].intercalate (fs.drop n) := by
  induction n generalizing fs pos with
  | zero => exact ⟨pos, rfl, h⟩
  | succ n ih =>
      cases fs with
      | nil => cases hn
      | cons f fs =>
          have hne : fs ≠ [] := by
            rintro rfl
            simp at hn
          rw [intercalate_cons f hne] at h
          have hskip : rest.drop (pos + f.length + 1) = [space].intercalate fs := by
            rw [← List.drop_drop, ← List.drop_drop, h, List.drop_left, List.drop_one, List.tail_cons]
          obtain ⟨start, hstart, hrest⟩ := ih (fun g hg => hfs g (List.mem_cons_of_mem f hg))
            (Nat.lt_of_succ_lt_succ hn) hskip
          refine ⟨start, ?_, by rw [hrest, List.drop_succ_cons]⟩
          rw [fieldStart, indexOf_space h (hfs f List.mem_cons_self).space_notMem]
          exact hstart

theorem fieldAt_intercalate {rest : QByteArray} {f : QByteArray} {fs : List QByteArray} (hf : Plain f)
    {pos : ℕ} (h : rest.drop pos = [space].intercalate (f :: fs)) : fieldAt rest pos = f := by
  unfold fieldAt
  by_cases hne : fs = []
  · subst hne
    have hdrop : rest.drop pos = f := by
      rw [h]
      simp [List.intercalate]
    rw [indexOf_space_none (by rw [hdrop]; exact hf.space_notMem)]
    exact hdrop
  · rw [intercalate_cons f hne] at h
    rw [indexOf_space h hf.space_notMem, h]
    simp

theorem splitOnP_intercalate {fs : List QByteArray} (hfs : ∀ f ∈ fs, Plain f) (hne : fs ≠ []) :
    ([space].intercalate fs).splitOnP isAsciiSpace = fs := by
  induction fs with
  | nil => exact absurd rfl hne
  | cons f fs ih =>
      have hf := hfs f List.mem_cons_self
      by_cases hlast : fs = []
      · subst hlast
        simpa [List.intercalate] using List.splitOnP_eq_singleton hf.noSpace
      · rw [intercalate_cons f hlast,
          List.splitOnP_append_cons_of_forall_mem hf.noSpace space (by decide),
          ih (fun g hg => hfs g (List.mem_cons_of_mem f hg)) hlast]

theorem simplified_intercalate {fs : List QByteArray} (hfs : ∀ f ∈ fs, Plain f) (hne : fs ≠ []) :
    simplified ([space].intercalate fs) = [space].intercalate fs := by
  rw [simplified, splitOnP_intercalate hfs hne, List.filter_eq_self.mpr]
  intro f hf
  simpa using (hfs f hf).nonempty

/-! ### The start time -/

/-- The line up to the parenthesis after `comm`. -/
theorem statLine_eq (pid : ℕ) (comm : QByteArray) (fields : StatFields) :
    ∃ before, statLine pid comm fields =
      before ++ rightParenthesis :: space :: [space].intercalate fields.texts :=
  ⟨toLatin1 (number pid) ++ [space, leftParenthesis] ++ comm, by simp [statLine]⟩

theorem rightParenthesis_notMem {fs : List QByteArray} (hfs : ∀ f ∈ fs, Plain f) :
    rightParenthesis ∉ space :: [space].intercalate fs := by
  induction fs with
  | nil => decide
  | cons f fs ih =>
      have hf := (hfs f List.mem_cons_self).noParenthesis
      have hrest := ih fun g hg => hfs g (List.mem_cons_of_mem f hg)
      have hspace : rightParenthesis ≠ space := by decide
      by_cases hlast : fs = []
      · subst hlast
        simpa [List.intercalate, hspace] using hf
      · rw [intercalate_cons f hlast]
        simp only [List.mem_cons, List.mem_append, not_or] at hrest ⊢
        exact ⟨hspace, hf, hrest⟩

/-- **Both parsers give the field numbered 22**, the one at 19 after `comm`, whatever `comm` is. -/
theorem startTime_parsed (pid : ℕ) (comm : QByteArray) (fields : StatFields) {d : Digits}
    (hfield : fields.texts[19]? = some d.text) (hd : d.value < 2 ^ 64) :
    parseStartTime (statLine pid comm fields) = some (UInt64.ofNat d.value) ∧
      startTimeJiffies (statLine pid comm fields) = UInt64.ofNat d.value := by
  obtain ⟨before, hline⟩ := statLine_eq pid comm fields
  have hplain := fields.plain
  have hne : fields.texts ≠ [] := List.cons_ne_nil _ _
  obtain ⟨hlt, hget⟩ := List.getElem?_eq_some_iff.mp hfield
  -- the last parenthesis is the one after `comm`, which may hold others
  have hlast : lastIndexOf (statLine pid comm fields) rightParenthesis = some before.length := by
    rw [hline]
    exact lastIndexOf_append before (rightParenthesis_notMem hplain)
  have hrest : (statLine pid comm fields).drop (before.length + 2) =
      [space].intercalate fields.texts := by
    rw [hline, ← List.drop_drop, List.drop_left]
    rfl
  have hlong : ¬ before.length + 2 ≥ (statLine pid comm fields).length := by
    have hnumbers : fields.numbers ≠ [] := by
      intro e
      have henough := fields.enough
      rw [e] at henough
      cases henough
    rw [hline, StatFields.texts, intercalate_cons _ hnumbers]
    simp
  constructor
  · -- one parser counts spaces
    have hzero : ([space].intercalate fields.texts).drop 0 = [space].intercalate fields.texts := rfl
    obtain ⟨start, hstart, hdrop⟩ := fieldStart_intercalate hplain hlt hzero
    rw [List.drop_eq_getElem_cons hlt, hget] at hdrop
    simp only [parseStartTime, hlast, if_neg hlong, hrest, hstart, Option.bind_some]
    rw [fieldAt_intercalate d.plain hdrop, toULongLong_text d hd]
  · -- the other collapses them first, but there is one between any two fields already
    have hsplit : (simplified ([space].intercalate fields.texts)).splitOn space = fields.texts := by
      rw [simplified_intercalate hplain hne]
      exact List.splitOn_intercalate space (fun f hf => (hplain f hf).space_notMem) hne
    simp only [startTimeJiffies, hlast, if_neg hlong, hrest, hsplit]
    rw [kStartTimeFieldOffset, hfield]
    dsimp only
    rw [toULongLong_text d hd]
    rfl

/-- A process that calls itself after the fields of another. -/
def forgedComm : QByteArray := toLatin1 ") R 1 1 1 0 -1 0 0 0 0 0 0 0 0 0 20 0 1 0 99 (".toList

/-- A number of two digits. -/
def fortyTwo : Digits where
  digits := [4, 2]
  nonempty := List.cons_ne_nil 4 [2]
  small := by decide

def forgedFields : StatFields where
  state := 83
  letter := rfl
  numbers := List.replicate 22 fortyTwo.text
  decimal f hf := by
    rw [List.eq_of_mem_replicate hf]
    exact .natural fortyTwo
  enough := by decide

theorem forgedComm_parsed :
    parseStartTime (statLine 7 forgedComm forgedFields) = some (UInt64.ofNat fortyTwo.value) ∧
      startTimeJiffies (statLine 7 forgedComm forgedFields) = UInt64.ofNat fortyTwo.value :=
  startTime_parsed 7 forgedComm forgedFields rfl (by decide)

end Qiftop.Backend
