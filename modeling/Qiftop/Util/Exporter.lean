import Qiftop.Lib.Csv
import Qiftop.Qt.Text

/-!
# Util — CSV export

`toCsv` of `util/Exporter.cpp`: a table as comma-separated values, with cells a spreadsheet would take
for formulas marked by an apostrophe.

* `reads_csvEscape`: an escaped cell is a field for the sanitised one.
* `parse_toCsv`: the text reads back as the sanitised table, no cell of which begins a formula.
-/

namespace Qiftop.Util.Exporter
open Qt Lib

/-- A value of a table: a list of texts, or anything else as the text it is shown as. -/
inductive Value where
  | text (s : QString)
  | stringList (ss : List QString)
  deriving DecidableEq, Repr

structure Exportable where
  exportHeaders : List QString
  exportRows : List (List Value)

/-- The characters that make a spreadsheet read a formula. -/
def formulaStarts : List Char := ['=', '+', '-', '@', '\t', '\r']

def csvSanitise (field : QString) : QString :=
  match field with
  | [] => []
  | c0 :: rest => if c0 ∈ formulaStarts then Char.ofNat 39 :: c0 :: rest else c0 :: rest

def csvEscape (raw : QString) : QString :=
  let field := csvSanitise raw
  let needsQuoting := field.contains ',' || field.contains (Char.ofNat 34) ||
    field.contains '\n' || field.contains '\r'
  if !needsQuoting then field
  else Char.ofNat 34 :: replaceChar field (Char.ofNat 34) [Char.ofNat 34, Char.ofNat 34] ++
    [Char.ofNat 34]

def csvFlatten : Value → QString
  | .text s => s
  | .stringList ss => join ss ' '

def toCsv (src : Exportable) : QByteArray :=
  let header := join (src.exportHeaders.map csvEscape) ','
  let rows := src.exportRows.map fun values =>
    join (values.map fun v => csvEscape (csvFlatten v)) ','
  toUtf8 (join (header :: rows) '\n' ++ ['\n'])

/-- The table as it is meant to be read. -/
def sanitised (src : Exportable) : List (List QString) :=
  src.exportHeaders.map csvSanitise ::
    src.exportRows.map fun values => values.map fun v => csvSanitise (csvFlatten v)

/-! ### Reading back -/

/-- **An escaped cell** is a field for the sanitised one. -/
theorem reads_csvEscape (raw : QString) : Csv.Reads (csvEscape raw) (csvSanitise raw) := by
  unfold csvEscape
  dsimp only
  split
  · rename_i hplain
    refine Csv.reads_plain fun c hc => ?_
    simp only [Bool.not_eq_true', Bool.or_eq_false_iff, List.contains_eq_mem,
      decide_eq_false_iff_not] at hplain
    obtain ⟨⟨⟨hcomma, hquote⟩, hlf⟩, hcr⟩ := hplain
    simp only [Csv.special, decide_eq_false_iff_not]
    rintro (rfl | rfl | rfl | rfl)
    · exact hquote hc
    · exact hcomma hc
    · exact hlf hc
    · exact hcr hc
  · exact Csv.reads_quoted (csvSanitise raw)

theorem forall₂_reads {α : Type} (text : α → QString) (cells : List α) :
    List.Forall₂ Csv.Reads (cells.map fun a => csvEscape (text a))
      (cells.map fun a => csvSanitise (text a)) := by
  rw [List.forall₂_map_left_iff, List.forall₂_map_right_iff]
  exact List.forall₂_same.mpr fun a _ => reads_csvEscape (text a)

/-- Lines joined by line feeds, with one at the end, are lines that each have one. -/
theorem join_lines (line : QString) (lines : List QString) :
    join (line :: lines) '\n' ++ ['\n'] = (line :: lines).flatMap fun l => l ++ ['\n'] := by
  induction lines generalizing line with
  | nil => simp [join]
  | cons l lines ih =>
      rw [List.flatMap_cons, ← ih l]
      simp [join, List.intercalate_cons_cons]

/-- No sanitised cell begins a formula. -/
theorem head_csvSanitise (field : QString) : ∀ c ∈ (csvSanitise field).head?, c ∉ formulaStarts := by
  unfold csvSanitise
  split
  · simp
  split
  · rintro c ⟨⟩
    decide
  · rename_i hc0
    rintro c ⟨⟩
    exact hc0

/-- The fields of the text, in their rows. -/
def escaped (src : Exportable) : List (List QString) :=
  src.exportHeaders.map csvEscape ::
    src.exportRows.map fun values => values.map fun v => csvEscape (csvFlatten v)

theorem toCsv_eq (src : Exportable) :
    toCsv src = toUtf8 ((escaped src).flatMap fun row => [','].intercalate row ++ ['\n']) := by
  have hlines : (escaped src).map (join · ',') = join (src.exportHeaders.map csvEscape) ',' ::
      src.exportRows.map fun values => join (values.map fun v => csvEscape (csvFlatten v)) ',' := by
    simp [escaped]
  rw [toCsv, join_lines, ← hlines, List.flatMap_map]
  rfl

theorem forall₂_escaped (src : Exportable) :
    List.Forall₂ (List.Forall₂ Csv.Reads) (escaped src) (sanitised src) := by
  refine .cons (forall₂_reads id src.exportHeaders) ?_
  rw [List.forall₂_map_left_iff, List.forall₂_map_right_iff]
  exact List.forall₂_same.mpr fun values _ => forall₂_reads csvFlatten values

/-- **CSV export is parseable and safe**: the text of a table whose header and rows have a cell reads
back as its sanitised cells, and none of them begins a formula. -/
theorem parse_toCsv (src : Exportable) (hheader : src.exportHeaders ≠ [])
    (hrows : ∀ row ∈ src.exportRows, row ≠ []) :
    (fromUtf8 (toCsv src)).bind (Csv.parse .start [] []) = some (sanitised src) ∧
      ∀ row ∈ sanitised src, ∀ cell ∈ row, ∀ c ∈ cell.head?, c ∉ formulaStarts := by
  constructor
  · rw [toCsv_eq, fromUtf8_toUtf8, Option.bind_some]
    refine Csv.parse_records (forall₂_escaped src) fun row hrow => ?_
    rcases List.mem_cons.mp hrow with rfl | hrow
    · simpa using hheader
    · obtain ⟨values, hvalues, rfl⟩ := List.mem_map.mp hrow
      simpa using hrows values hvalues
  · intro row hrow cell hcell
    rcases List.mem_cons.mp hrow with rfl | hrow
    · obtain ⟨field, -, rfl⟩ := List.mem_map.mp hcell
      exact head_csvSanitise field
    · obtain ⟨values, -, rfl⟩ := List.mem_map.mp hrow
      obtain ⟨v, -, rfl⟩ := List.mem_map.mp hcell
      exact head_csvSanitise (csvFlatten v)

/-- A host whose name is a formula with a quote and a comma. -/
def formulaTable : Exportable where
  exportHeaders := ["host".toList, "addresses".toList]
  exportRows := [[.text ("=f(".toList ++ [Char.ofNat 34, ',', ')']),
    .stringList ["10.0.0.1/8".toList, "::1/128".toList]]]

theorem formulaTable_read :
    (fromUtf8 (toCsv formulaTable)).bind (Csv.parse .start [] []) =
        some [["host".toList, "addresses".toList],
          [Char.ofNat 39 :: "=f(".toList ++ [Char.ofNat 34, ',', ')'],
            "10.0.0.1/8 ::1/128".toList]] ∧
      ∀ row ∈ sanitised formulaTable, ∀ cell ∈ row, ∀ c ∈ cell.head?, c ∉ formulaStarts :=
  parse_toCsv formulaTable (by decide) (by decide)

end Qiftop.Util.Exporter
