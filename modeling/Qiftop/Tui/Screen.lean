import Qiftop.Tui.BuildFrame

/-!
# Tui — the screen

The table of `Screen::render` of `tui/Screen.cpp`: the widths of the columns, the header and the lines
under it.  When more rows are below than there are lines, the last line says how many.

* `length_rowText`: each line is as long as the screen is wide, or as the columns are together.
* `render_viewport`: of the frame of any state, the line of the cursor is drawn, each line drawn is that of
  its row, and the rows above, the rows drawn and the number in the last line are all rows.
-/

namespace Qiftop.Tui
open Qt Backend Aggregate Qiftop.Filter

def kSep : ℕ := 2
def kNumColCap : ℕ := 13

/-- A text cut or filled up to a width. -/
def fitCell (text : QString) (width : Int) (rightAlign : Bool) : QString :=
  if width ≤ 0 then []
  else
    let t := if text.length > width then text.take (width - 1).toNat ++ [Char.ofNat 0x2026] else text
    let pad := width - t.length
    if pad ≤ 0 then t
    else
      let spaces := List.replicate pad.toNat ' '
      if rightAlign then spaces ++ t else t ++ spaces

theorem length_fitCell (text : QString) {width : Int} (h : 0 ≤ width) (rightAlign : Bool) :
    ((fitCell text width rightAlign).length : Int) = width := by
  by_cases hzero : width ≤ 0
  · rw [fitCell, if_pos hzero]
    simp
    omega
  · have hcut : ∀ t : QString, (t.length : Int) ≤ width → (((if width - (t.length : Int) ≤ 0 then t
        else if rightAlign then List.replicate (width - t.length).toNat ' ' ++ t
          else t ++ List.replicate (width - t.length).toNat ' ').length : ℕ) : Int) = width := by
      intro t ht
      split
      · omega
      · split
        · rw [List.length_append, List.length_replicate]
          omega
        · rw [List.length_append, List.length_replicate]
          omega
    rw [fitCell, if_neg hzero]
    refine hcut _ ?_
    split
    · rw [List.length_append, List.length_take, List.length_singleton]
      omega
    · omega

/-! ### Columns -/

section Columns
variable (columns : List Column)

/-- The widest cell of a column, the title first. -/
def naturalWidth (title : QString) (rows : List (List QString)) (c : ℕ) : ℕ :=
  rows.foldl (fun natural row =>
    match row[c]? with
    | some cell => max natural cell.length
    | none => natural) title.length

/-- The width of a column but the first. -/
def columnWidth (rows : List (List QString)) (c : ℕ) (col : Column) : ℕ :=
  if col.fixedWidth > 0 then col.fixedWidth
  else min (naturalWidth col.title rows c) kNumColCap

/-- The widths.  The first column takes what the others leave, and four at least. -/
def columnWidths (rows : List (List QString)) (width : Int) : List Int :=
  match columns with
  | [] => []
  | _ :: cols =>
      let others : List Int := cols.mapIdx fun c col => columnWidth rows (c + 1) col
      max (width - others.sum - kSep * cols.length) 4 :: others

/-- A line of cells. -/
def rowText (widths : List Int) (width : Int) (cells : List QString) : QString :=
  let line := (List.replicate kSep ' ').intercalate ((columns.zip widths).mapIdx fun c p =>
    fitCell (cells.getD c []) p.2 p.1.rightAlign)
  if line.length > width then line.take width.toNat else line

/-- The titles, with the direction behind the one of the sort. -/
def headerCells (sortCol : Int) (sortDesc : Bool) : List QString :=
  columns.mapIdx fun c col =>
    if (c : Int) = sortCol then col.title ++ [' ', Char.ofNat (if sortDesc then 0x25bc else 0x25b2)]
    else col.title

/-- The width of a line before it is cut. -/
def lineWidth (widths : List Int) : Int := widths.sum + kSep * (widths.length - 1 : ℕ)

theorem length_intercalate (sep : QString) (cells : List QString) :
    ((sep.intercalate cells).length : Int) =
      (cells.map fun cell => (cell.length : Int)).sum + sep.length * (cells.length - 1 : ℕ) := by
  induction cells with
  | nil => simp [List.intercalate]
  | cons cell cells ih =>
      cases cells with
      | nil => simp [List.intercalate]
      | cons next cells =>
          rw [List.intercalate_cons_cons, List.length_append, List.length_append, List.map_cons,
            List.sum_cons, Nat.cast_add, Nat.cast_add, ih, List.length_cons, List.length_cons]
          rw [Nat.add_sub_cancel, Nat.add_sub_cancel, List.length_cons, Nat.cast_succ, mul_add, mul_one]
          omega

theorem columnWidths_nonneg (rows : List (List QString)) (width : Int) :
    ∀ w ∈ columnWidths columns rows width, 0 ≤ w := by
  intro w hw
  unfold columnWidths at hw
  split at hw
  · cases hw
  · rcases List.mem_cons.mp hw with rfl | hw
    · exact le_trans (by decide) (le_max_right _ _)
    · obtain ⟨c, hc, rfl⟩ := List.mem_mapIdx.mp hw
      exact Int.natCast_nonneg _

theorem length_columnWidths (rows : List (List QString)) (width : Int) :
    (columnWidths columns rows width).length = columns.length := by
  unfold columnWidths
  split
  · rfl
  · simp

/-- **A line of cells** is as long as the columns are together, cut to the width of the screen: whatever is
in the cells, the columns are in the same place in every line. -/
theorem length_rowText {widths : List Int} (hlength : widths.length = columns.length)
    (hwidths : ∀ w ∈ widths, 0 ≤ w) {width : Int} (hwidth : 0 ≤ width) (cells : List QString) :
    ((rowText columns widths width cells).length : Int) = min width (lineWidth widths) := by
  have hcells : ((columns.zip widths).mapIdx fun c p =>
      fitCell (cells.getD c []) p.2 p.1.rightAlign).map (fun cell => (cell.length : Int)) = widths := by
    apply List.ext_getElem?
    intro c
    rw [List.getElem?_map, List.getElem?_mapIdx, List.zip, List.getElem?_zipWith]
    by_cases hc : c < widths.length
    · rw [List.getElem?_eq_getElem hc, List.getElem?_eq_getElem (hlength ▸ hc)]
      exact congrArg some (length_fitCell _ (hwidths _ (List.getElem_mem hc)) _)
    · rw [List.getElem?_eq_none (by omega : columns.length ≤ c)]
      simp [List.getElem?_eq_none (by omega : widths.length ≤ c)]
  have hline := length_intercalate (List.replicate kSep ' ') ((columns.zip widths).mapIdx fun c p =>
    fitCell (cells.getD c []) p.2 p.1.rightAlign)
  rw [hcells, List.length_replicate, List.length_mapIdx, List.length_zip, hlength, min_self, ← hlength]
    at hline
  unfold rowText lineWidth
  dsimp only
  rw [← hline]
  split
  · rw [List.length_take]
    omega
  · omega

end Columns

/-! ### The table -/

/-- A line under the header: a row with its role, its gauge and whether the cursor is there, or the number of
the rows that are not shown. -/
inductive BodyLine (F : Type) where
  | row (idx : ℕ) (text : QString) (role : Role) (frac : F) (cursor : Bool)
  | more (below : Int) (text : QString)

def BodyLine.text {F : Type} : BodyLine F → QString
  | .row _ text _ _ _ => text
  | .more _ text => text

structure Table (F : Type) where
  header : QString
  body : List (BodyLine F)

/-- `Screen::bodyHeight`. -/
def bodyHeight (height : Int) : Int := if height - 3 > 0 then height - 3 else 0

section Table
variable {F : Type} [Double F] (f : Frame F) (width height : Int)

def showMore : Bool := decide (bodyHeight height > 1 ∧ f.scrollOffset + bodyHeight height < f.rows.length)

/-- How many rows are drawn. -/
def shownRows : ℕ :=
  let dataLines := if showMore f height then bodyHeight height - 1 else bodyHeight height
  (min dataLines (f.rows.length - f.scrollOffset)).toNat

def rowLine (i : ℕ) : BodyLine F :=
  let idx := (f.scrollOffset + i).toNat
  .row idx (rowText f.columns (columnWidths f.columns f.rows width) width (f.rows.getD idx []))
    (f.rowRoles.getD idx .Normal) (f.rowGauge.getD idx (Double.ofInt 0)) (decide ((idx : Int) = f.cursor))

/-- The line about the rows that are not drawn. -/
def moreLine (below : Int) : BodyLine F :=
  let text := arg ("  ".toList ++ Char.ofNat 0x2026 :: " +%1 more (".toList ++
    Char.ofNat 0x2193 :: " to scroll)".toList) (number below.toNat)
  .more below (fitCell text width false)

/-- The header and the lines under it, on a terminal of this size.  On one without room nothing is drawn. -/
def renderTable : Table F :=
  if width < 1 ∨ height < 3 then { header := [], body := [] }
  else
    let below := f.rows.length - (f.scrollOffset + shownRows f height)
    { header := rowText f.columns (columnWidths f.columns f.rows width) width
        (headerCells f.columns f.sortCol f.sortDesc)
      body := (List.range (shownRows f height)).map (rowLine f width) ++
        if showMore f height && decide (below > 0) then [moreLine width below] else [] }

end Table

/-- The row of a line. -/
def BodyLine.row? {F : Type} : BodyLine F → Option ℕ
  | .row idx _ _ _ _ => some idx
  | .more _ _ => none

/-- The rows a line counts. -/
def BodyLine.below {F : Type} : BodyLine F → Int
  | .row _ _ _ _ _ => 0
  | .more below _ => below

section Render
variable {F : Type} [Double F] {niceScale : F → F} {E : Type} {frame : Frame F} {app' : TuiFrameState F}
  {v : RowView E F} {entries : List E} {width height : Int}

/-- What is drawn of a frame: no line is too long and there are not too many, the line of the cursor is
among them, each line is that of its row, the rows follow each other, and with more than one line all rows are
above, drawn or counted. -/
structure Renders (t : Table F) (frame : Frame F) (cursor : Int) (v : RowView E F) (entries : List E)
    (width height : Int) : Prop where
  fits : ∀ line ∈ t.body, (line.text.length : Int) ≤ width
  lines : (t.body.length : Int) ≤ bodyHeight height
  cursorLine : ∃ text role frac, .row cursor.toNat text role frac true ∈ t.body
  rows : ∀ (idx : ℕ) text role frac atCursor, .row idx text role frac atCursor ∈ t.body →
    ∃ e, entries[idx]? = some e ∧
      text = rowText frame.columns (columnWidths frame.columns frame.rows width) width (v.cells e) ∧
      role = v.role e ∧ (atCursor = true ↔ (idx : Int) = cursor)
  consecutive : t.body.filterMap BodyLine.row? =
    List.range' frame.scrollOffset.toNat (t.body.filterMap BodyLine.row?).length
  account : 1 < bodyHeight height →
    frame.scrollOffset + (t.body.filterMap BodyLine.row?).length + (t.body.map BodyLine.below).sum =
      entries.length

/-- The rows that are drawn, and the number under them. -/
theorem ShowsRows.shown {body : Int} (h : ShowsRows niceScale frame app' body v entries)
    (hheight : bodyHeight height = body) (hbody : 0 < body) :
    0 ≤ frame.scrollOffset ∧ frame.scrollOffset ≤ app'.position.cursor ∧
      app'.position.cursor < frame.scrollOffset + shownRows frame height ∧
      frame.scrollOffset + shownRows frame height ≤ frame.rows.length ∧
      (shownRows frame height : Int) ≤ body ∧
      (showMore frame height = true → (shownRows frame height : Int) = body - 1 ∧
        frame.scrollOffset + shownRows frame height < frame.rows.length) ∧
      (showMore frame height = false → 1 < body →
        frame.scrollOffset + shownRows frame height = frame.rows.length) := by
  have hcursor := h.inView.cursor_lt
  have habove := h.inView.scroll_le_cursor
  have hend := h.inView.cursor_lt_end
  have hscroll := h.inView.scroll_nonneg
  have hle := h.inView.scroll_le
  have hlast := h.inView.off_last_line
  rw [← h.scroll] at habove hend hscroll hle hlast
  unfold shownRows
  rw [hheight]
  by_cases hmore : showMore frame height = true
  · rw [hmore]
    rw [showMore, decide_eq_true_iff, hheight] at hmore
    have hcursor' := hlast hmore.1 hmore.2
    dsimp only
    rw [if_pos rfl]
    refine ⟨hscroll, habove, ?_, ?_, ?_, fun _ => ⟨?_, ?_⟩, nofun⟩ <;> omega
  · rw [Bool.not_eq_true] at hmore
    rw [hmore]
    rw [showMore, decide_eq_false_iff_not, hheight, not_and] at hmore
    dsimp only
    rw [if_neg (by decide)]
    refine ⟨hscroll, habove, ?_, ?_, ?_, nofun, fun _ hone => ?_⟩
    · omega
    · omega
    · omega
    · have := hmore hone
      omega

/-- The lines are those of the rows, and one more when rows are below. -/
theorem renderTable_body (hsize : ¬ (width < 1 ∨ height < 3)) (hbelow : showMore frame height = true →
      frame.scrollOffset + shownRows frame height < frame.rows.length) :
    (renderTable frame width height).body =
      (List.range (shownRows frame height)).map (rowLine frame width) ++
        if showMore frame height then
          [moreLine width (frame.rows.length - (frame.scrollOffset + shownRows frame height))] else [] := by
  unfold renderTable
  rw [if_neg hsize]
  dsimp only
  cases hshow : showMore frame height with
  | false => simp
  | true =>
      have hlt := hbelow hshow
      rw [Bool.true_and, if_pos (by simp; omega), if_pos rfl]

/-- The rows that are drawn follow each other from the first. -/
theorem renderTable_rows (hsize : ¬ (width < 1 ∨ height < 3)) (hscroll : 0 ≤ frame.scrollOffset)
    (hbelow : showMore frame height = true →
      frame.scrollOffset + shownRows frame height < frame.rows.length) :
    (renderTable frame width height).body.filterMap BodyLine.row? =
      List.range' frame.scrollOffset.toNat (shownRows frame height) := by
  have hrow : BodyLine.row? ∘ rowLine frame width = some ∘ fun i => frame.scrollOffset.toNat + i := by
    funext i
    have htoNat : (frame.scrollOffset + i).toNat = frame.scrollOffset.toNat + i := by omega
    exact congrArg some htoNat
  have hnoMore : (if showMore frame height then
      [moreLine width (frame.rows.length - (frame.scrollOffset + shownRows frame height))]
      else ([] : List (BodyLine F))).filterMap BodyLine.row? = [] := by
    split <;> rfl
  rw [renderTable_body hsize hbelow, List.filterMap_append, List.filterMap_map, hrow, hnoMore, List.append_nil,
    List.filterMap_eq_map, List.range'_eq_map_range]

theorem ShowsRows.renders {body : Int} (h : ShowsRows niceScale frame app' body v entries)
    (hheight : bodyHeight height = body) (hbody : 0 < body) (hwidth : 0 < width) :
    Renders (renderTable frame width height) frame app'.position.cursor v entries width height := by
  obtain ⟨hscroll, habove, hcursor, hend, hlines, hmore, hnone⟩ := h.shown hheight hbody
  have hrowText : ∀ cells, ((rowText frame.columns (columnWidths frame.columns frame.rows width) width
      cells).length : Int) ≤ width := by
    intro cells
    rw [length_rowText _ (length_columnWidths _ _ _) (columnWidths_nonneg _ _ _) hwidth.le]
    exact min_le_left _ _
  have hbelow : showMore frame height = true →
      frame.scrollOffset + shownRows frame height < frame.rows.length := fun hshow => (hmore hshow).2
  have hsize : ¬ (width < 1 ∨ height < 3) := by
    unfold bodyHeight at hheight
    split at hheight <;> omega
  have hbody := @renderTable_body _ _ frame width height hsize hbelow
  have hrows := @renderTable_rows _ _ frame width height hsize hscroll hbelow
  have hlength : ((renderTable frame width height).body.filterMap BodyLine.row?).length =
      shownRows frame height := by rw [hrows, List.length_range']
  constructor
  case fits =>
    intro line hline
    rw [hbody, List.mem_append] at hline
    rcases hline with hline | hline
    · obtain ⟨i, -, rfl⟩ := List.mem_map.mp hline
      exact hrowText _
    · split at hline
      · rw [List.mem_singleton.mp hline]
        exact (length_fitCell _ hwidth.le _).le
      · cases hline
  case lines =>
    rw [hbody, List.length_append, List.length_map, List.length_range, hheight]
    split
    · have := (hmore ‹_›).1
      simp
      omega
    · simp
      omega
  case cursorLine =>
    have hat : (frame.scrollOffset + (app'.position.cursor - frame.scrollOffset).toNat).toNat =
        app'.position.cursor.toNat := by omega
    have hon : decide ((app'.position.cursor.toNat : Int) = frame.cursor) = true := by
      rw [h.cursor, decide_eq_true_iff]
      omega
    have hmem : rowLine frame width (app'.position.cursor - frame.scrollOffset).toNat ∈
        (renderTable frame width height).body := by
      rw [hbody]
      exact List.mem_append_left _ (List.mem_map.mpr ⟨_, List.mem_range.mpr (by omega), rfl⟩)
    rw [rowLine] at hmem
    rw [hat, hon] at hmem
    exact ⟨_, _, _, hmem⟩
  case rows =>
    intro idx text role frac atCursor hline
    rw [hbody, List.mem_append] at hline
    rcases hline with hline | hline
    · obtain ⟨i, hi, heq⟩ := List.mem_map.mp hline
      rw [List.mem_range] at hi
      cases heq
      have hidx : (frame.scrollOffset + i).toNat < entries.length := by
        rw [← h.rows]
        omega
      have hcells : frame.rows.getD (frame.scrollOffset + i).toNat [] =
          v.cells entries[(frame.scrollOffset + i).toNat] := by
        rw [List.getD_eq_getElem?_getD, h.window _ (by omega) (by omega), List.getElem?_map,
          List.getElem?_eq_getElem hidx]
        rfl
      refine ⟨_, List.getElem?_eq_getElem hidx, by rw [hcells], ?_, ?_⟩
      · rw [h.roles, List.getD_eq_getElem?_getD, List.getElem?_map, List.getElem?_eq_getElem hidx]
        rfl
      · rw [decide_eq_true_iff, h.cursor]
    · split at hline
      · cases List.mem_singleton.mp hline
      · cases hline
  case consecutive => rw [hlength, hrows]
  case account =>
    rw [hheight, hlength]
    intro hone
    have hzero : (((List.range (shownRows frame height)).map (rowLine frame width)).map
        BodyLine.below).sum = 0 := by
      rw [List.map_map]
      exact List.sum_eq_zero (by simp [rowLine, BodyLine.below])
    rw [hbody, List.map_append, List.sum_append, hzero, zero_add, ← h.rows]
    cases hshow : showMore frame height with
    | false =>
        rw [if_neg (by decide), List.map_nil, List.sum_nil, add_zero]
        exact hnone hshow hone
    | true =>
        rw [if_pos rfl]
        simp only [moreLine, BodyLine.below, List.map_cons, List.map_nil, List.sum_singleton]
        omega

end Render

/-- **What is drawn of any state**: on a terminal with a column and a line for the table, the frame of a
state with rows is drawn with the line of its cursor, whatever the cursor and the scroll were. -/
theorem render_viewport {F : Type} [Double F] (T : TextOps F) (cachedHostname : QHostAddress → QString)
    (compare : QString → QString → Int) (texts : CellTexts F) (niceScale : F → F) (app : TuiFrameState F)
    (ifaceRows : List (InterfaceRow F)) (connAgg : Aggregator F) {width height : Int} (hwidth : 0 < width)
    (hheight : 3 < height)
    (htotal : 0 < (frameEntries T cachedHostname compare app ifaceRows connAgg).length) :
    let built := buildFrame T cachedHostname compare texts niceScale app ifaceRows connAgg
      (bodyHeight height)
    Renders (renderTable built.1 width height) built.1 built.2.position.cursor
      (rowView texts app ifaceRows connAgg) (frameEntries T cachedHostname compare app ifaceRows connAgg)
      width height := by
  have hbody : 0 < bodyHeight height := by
    unfold bodyHeight
    split <;> omega
  unfold buildFrame
  unfold frameEntries at htotal ⊢
  cases hview : app.view with
  | Interfaces =>
      rw [hview] at htotal
      exact (finishFrame_shows texts niceScale app (planInterfaces_shows texts app ifaceRows connAgg) _ _ hbody
        htotal).renders rfl hbody hwidth
  | Connections =>
      rw [hview] at htotal
      exact (finishFrame_shows texts niceScale app
        (planConnections_shows T cachedHostname compare texts app ifaceRows connAgg) _ _ hbody
        htotal).renders rfl hbody hwidth

/-- Two lines for the table, one of them about the rows that are not drawn. -/
theorem scrolledApp_rendered :
    let connAgg : Aggregator ℚ := { rows := threeFlows }
    let built := buildFrame TextOps.ascii (fun _ => []) (fun _ _ => 0) plainTexts id scrolledApp [] connAgg
      (bodyHeight 5)
    Renders (renderTable built.1 80 5) built.1 built.2.position.cursor
      (rowView plainTexts scrolledApp [] connAgg)
      (frameEntries TextOps.ascii (fun _ => []) (fun _ _ => 0) scrolledApp [] connAgg) 80 5 :=
  render_viewport TextOps.ascii (fun _ => []) (fun _ _ => 0) plainTexts id scrolledApp [] _ (by decide)
    (by decide) (by decide +kernel)

end Qiftop.Tui
