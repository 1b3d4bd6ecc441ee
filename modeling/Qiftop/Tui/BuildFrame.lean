import Qiftop.Tui.TuiCells
import Qiftop.Tui.Viewport

/-!
# Tui — building a frame

`TuiApp::buildFrame` of `tui/TuiApp.cpp`, but for the menu line and the panels over the table.  The rows
are planned first: for each one a loop appends to four lists, what to format, the colour role, the rate
and what the cursor finds there.  Then cursor and scroll are placed, and the cells of the window are
formatted.

* `planInterfaces_eq`, `planConnections_eq`: the four lists are about the same rows, whichever branch of
  the planning fills them; those of the Connections view are `Tui.plan`.
* `buildFrame_viewport`: the cursor is in view, the lists of a frame belong to the same rows, and the
  rows of the window have their cells.
-/

namespace Qiftop.Tui
open Qt Backend Aggregate Lib Qiftop.Filter

/-- The further members of `TuiApp` that `buildFrame` reads and writes. -/
structure TuiFrameState (F : Type) extends TuiApp F where
  sourceLabel : QString := []
  paused : Bool := false
  frozenIfaceRows : List (InterfaceRow F) := []
  frozenConnRows : List (Row F) := []
  ifaceSortField : ColumnId := .Interface
  ifaceSortDesc : Bool := false
  ifaceCursor : Int := 0
  ifaceScroll : Int := 0
  connScroll : Int := 0
  cursorTarget : Option QString := none
  rowRefs : List RowRef := []
  directionColors : Bool := true
  gaugeEnabled : Bool := true
  procWire : Bool := false
  contWire : Bool := false
  showProcessColumn : Bool := true
  showContainerColumn : Bool := true

/-- What a planned row is formatted from: a row of the table, or the cells of a header. -/
structure PlanEntry (n : ℕ) where
  src : Option (Fin n) := none
  indent : Bool := false
  groupCells : List QString := []
  deriving DecidableEq, Repr

/-- What the planning has appended and added up. -/
structure Planning (n : ℕ) (F : Type) where
  plan : List (PlanEntry n) := []
  rowRoles : List Role := []
  rates : List F := []
  rowRefs : List RowRef := []
  maxRate : F
  aggRx : F
  aggTx : F

structure Frame (F : Type) where
  activeTab : ℕ
  sourceLabel : QString
  columns : List Column
  sortCol : Int
  sortDesc : Bool
  rows : List (List QString)
  rowRoles : List Role
  rowGauge : List F
  scrollOffset : Int
  cursor : Int

section
variable {F : Type} [Double F]

/-! ### Planning -/

namespace Planning
variable {n : ℕ}

def start : Planning n F := { maxRate := Double.ofInt 0, aggRx := Double.ofInt 0, aggTx := Double.ofInt 0 }

/-- One row more. -/
def push (p : Planning n F) (entry : PlanEntry n) (role : Role) (rate : F) (ref : RowRef) : Planning n F :=
  { p with
    plan := p.plan ++ [entry]
    rowRoles := p.rowRoles ++ [role]
    rates := p.rates ++ [rate]
    rowRefs := p.rowRefs ++ [ref]
    maxRate := if Double.lt p.maxRate rate then rate else p.maxRate }

/-- The rates of a row added to the sums. -/
def addRates (p : Planning n F) (rxRate txRate : F) : Planning n F :=
  { p with aggRx := Double.add p.aggRx rxRate, aggTx := Double.add p.aggTx txRate }

end Planning

def addInterface (rows : List (InterfaceRow F)) (p : Planning rows.length F) (i : Fin rows.length) :
    Planning rows.length F :=
  let row := rows.get i
  (p.push { src := some i } (rowRoleForInterface row) (combinedRate row.rxRate row.txRate)
    ⟨true, false, interfaceKey row, []⟩).addRates row.rxRate row.txRate

def planInterfaces (app : TuiFrameState F) (rows : List (InterfaceRow F)) : Planning rows.length F :=
  (sortedInterfaceIndices rows app.ifaceSortField app.ifaceSortDesc).foldl (addInterface rows) .start

variable (T : TextOps F) (cachedHostname : QHostAddress → QString)
  (compare : QString → QString → Int) (texts : CellTexts F)

/-- The role of a connection, without its direction when those colours are off. -/
def connRole (app : TuiFrameState F) (connAgg : Aggregator F) (r : Row F) : Role :=
  if app.directionColors then rowRoleForConnection connAgg.localAddrs connAgg.loopbackAddrs r
  else if r.stale then .Stale else .Normal

section Connections
variable (app : TuiFrameState F) (connAgg : Aggregator F) (columns : List Column) (rows : List (Row F))

def addFlow (p : Planning rows.length F) (i : Fin rows.length) : Planning rows.length F :=
  let row := rows.get i
  (p.push { src := some i } (connRole app connAgg row) (combinedRate row.rxRate row.txRate)
    ⟨true, false, row.current.key, []⟩).addRates row.rxRate row.txRate

/-- The marker of a header, the label and the number of rows.  The first two are put in in one step; the
number is then put in where the lowest marker is. -/
def groupLabel (g : Group rows.length F) (collapsed : Bool) : QString :=
  let marker := Char.ofNat (if collapsed then 0x25b8 else 0x25be)
  arg (marker :: ' ' :: (g.summary.label ++ "  (%3)".toList)) (number g.members.length)

def addHeader (p : Planning rows.length F) (g : Group rows.length F) (collapsed : Bool) :
    Planning rows.length F :=
  let gs := g.summary
  let cells := groupHeaderCells texts columns (groupLabel rows g collapsed) gs.rxRate gs.txRate gs.rxBytes
    gs.txBytes
  (p.push { groupCells := cells } .GroupHeader (Double.add gs.rxRate gs.txRate)
    ⟨true, true, [], g.key⟩).addRates gs.rxRate gs.txRate

def addMember (k : QString) (p : Planning rows.length F) (i : Fin rows.length) : Planning rows.length F :=
  let row := rows.get i
  p.push { src := some i, indent := true } (connRole app connAgg row)
    (combinedRate row.rxRate row.txRate) ⟨true, false, row.current.key, k⟩

def addGroup (p : Planning rows.length F) (g : Group rows.length F) : Planning rows.length F :=
  let collapsed := app.collapsedGroups.contains g.key
  let p := addHeader texts columns rows p g collapsed
  if collapsed then p else g.members.foldl (addMember app connAgg rows g.key) p

def planConnections : Planning rows.length F :=
  if app.groupBy = .None then
    (displayedConnectionIndices T cachedHostname rows app.connSortField app.connSortDesc
      app.filterExpr).foldl (addFlow app connAgg rows) .start
  else (groups T cachedHostname compare app.toTuiApp rows).foldl (addGroup texts app connAgg columns rows)
    .start

end Connections

/-! ### The frame -/

/-- `aggregate::gaugeFraction`. -/
def gaugeFraction (value scale : F) : F :=
  let zero : F := Double.ofInt 0
  let one : F := Double.ofInt 1
  if Double.le scale zero then zero
  else
    let x := Double.div value scale
    if Double.lt x zero then zero else if Double.lt one x then one else x

/-- The cells of a row under a header. -/
def indented : List QString → List QString
  | [] => []
  | c :: cs => ("  ".toList ++ c) :: cs

/-- The cells of a planned row, given those of the rows of the table. -/
def entryCells {n : ℕ} (cells : Fin n → List QString) (e : PlanEntry n) : List QString :=
  match e.src with
  | none => e.groupCells
  | some i => if e.indent then indented (cells i) else cells i

/-- `QString::rightJustified`. -/
def rightJustified (s : QString) (width : ℕ) : QString := List.replicate (width - s.length) ' ' ++ s

def kSumW : ℕ := 12

namespace TuiFrameState
variable (app : TuiFrameState F)

def effectiveOptionalColumns : OptionalColumns :=
  if app.view ≠ .Connections then {}
  else
    { process := app.procWire && app.showProcessColumn && app.groupBy ≠ .Process
      container := app.contWire && app.showContainerColumn && app.groupBy ≠ .Container }

/-- The columns of the frame.  The first is named after the grouping. -/
def columns : List Column :=
  let cols := columnsFor app.view app.effectiveOptionalColumns app.groupBy
  if app.view = .Connections ∧ app.groupBy ≠ .None then
    match cols with
    | [] => []
    | c :: cs =>
        let title := arg ("Flow ".toList ++ Char.ofNat 0xb7 :: " by %1".toList) (groupByName app.groupBy)
        { c with title } :: cs
  else cols

/-- The cursor and the scroll of the view. -/
def position : Position :=
  match app.view with
  | .Interfaces => ⟨app.ifaceCursor, app.ifaceScroll⟩
  | .Connections => ⟨app.connCursor, app.connScroll⟩

def setPosition (pos : Position) : TuiFrameState F :=
  match app.view with
  | .Interfaces => { app with ifaceCursor := pos.cursor, ifaceScroll := pos.scroll }
  | .Connections => { app with connCursor := pos.cursor, connScroll := pos.scroll }

/-- The rows the view shows, those of the moment it was paused. -/
def shownIfaceRows (ifaceRows : List (InterfaceRow F)) : List (InterfaceRow F) :=
  if app.paused then app.frozenIfaceRows else ifaceRows

def shownConnRows (connAgg : Aggregator F) : List (Row F) :=
  if app.paused then app.frozenConnRows else connAgg.rows

/-- The sums of the rates, the scale and the source. -/
def summary {n : ℕ} (p : Planning n F) (scale : F) : QString :=
  let rx := rightJustified (texts.formatByteRate p.aggRx) kSumW
  let tx := rightJustified (texts.formatByteRate p.aggTx) kSumW
  let sc := leftJustified (texts.formatByteRate scale) kSumW
  let src := if app.paused then
      Char.ofNat 0x23f8 :: " PAUSED ".toList ++ [Char.ofNat 0xb7, ' '] ++ app.sourceLabel
    else app.sourceLabel
  [Char.ofNat 0x3a3, ' '] ++ rx ++ [Char.ofNat 0x2193, ' '] ++ tx ++
    [Char.ofNat 0x2191, ' ', Char.ofNat 0xb7, ' ', Char.ofNat 0x2264] ++ sc ++
    [' ', Char.ofNat 0xb7, ' '] ++ src

end TuiFrameState

variable (niceScale : F → F)

/-- The frame of a planning. -/
def finishFrame (app : TuiFrameState F) (sortField : ColumnId) (sortDesc : Bool) {n : ℕ}
    (p : Planning n F) (cells : Fin n → List QString) (body : Int) : Frame F × TuiFrameState F :=
  let scale := niceScale p.maxRate
  let pos := place p.rowRefs p.plan.length body app.cursorTarget app.position
  ({ activeTab := if app.view = .Interfaces then 0 else 1
     sourceLabel := app.summary texts p scale
     columns := app.columns
     sortCol := visualIndexForColumn app.columns sortField
     sortDesc
     rows := formatRows (entryCells cells) p.plan body pos.scroll
     rowRoles := p.rowRoles
     rowGauge := if app.gaugeEnabled then p.rates.map fun cr => gaugeFraction cr scale else []
     scrollOffset := pos.scroll
     cursor := if p.plan.length ≤ 0 then -1 else pos.cursor },
    { app.setPosition pos with rowRefs := p.rowRefs, cursorTarget := none })

def buildFrame (app : TuiFrameState F) (ifaceRows : List (InterfaceRow F)) (connAgg : Aggregator F)
    (body : Int) : Frame F × TuiFrameState F :=
  match app.view with
  | .Interfaces =>
      let rows := app.shownIfaceRows ifaceRows
      finishFrame texts niceScale app app.ifaceSortField app.ifaceSortDesc (planInterfaces app rows)
        (fun i => cellsForInterface texts (rows.get i)) body
  | .Connections =>
      let rows := app.shownConnRows connAgg
      finishFrame texts niceScale app app.connSortField app.connSortDesc
        (planConnections T cachedHostname compare texts app connAgg app.columns rows)
        (fun i => cellsForConnection texts (rows.get i) app.columns) body

/-! ### What a frame shows of a row -/

/-- The cells, the role, the rate and what the cursor finds, of one and the same row. -/
structure RowView (E F : Type) where
  cells : E → List QString
  role : E → Role
  rate : E → F
  ref : E → RowRef

/-- The greatest rate of some rows. -/
def loudest {E : Type} (v : RowView E F) (entries : List E) : F :=
  entries.foldl (fun m e => if Double.lt m (v.rate e) then v.rate e else m) (Double.ofInt 0)

/-- The four lists of a planning are about these rows. -/
structure Planning.Shows {n : ℕ} {E : Type} (p : Planning n F) (cells : Fin n → List QString)
    (v : RowView E F) (entries : List E) : Prop where
  cells : p.plan.map (entryCells cells) = entries.map v.cells
  roles : p.rowRoles = entries.map v.role
  rates : p.rates = entries.map v.rate
  refs : p.rowRefs = entries.map v.ref
  maxRate : p.maxRate = loudest v entries

section Shows
variable {n : ℕ} {E : Type} {p : Planning n F} {cells : Fin n → List QString} {v : RowView E F}
  {entries : List E}

theorem Planning.shows_start : (start : Planning n F).Shows cells v [] := ⟨rfl, rfl, rfl, rfl, rfl⟩

theorem Planning.Shows.length_plan (h : p.Shows cells v entries) : p.plan.length = entries.length := by
  have hcells := congrArg List.length h.cells
  rwa [List.length_map, List.length_map] at hcells

/-- Each branch appends to all four lists, about one row. -/
theorem Planning.Shows.push (h : p.Shows cells v entries) (entry : PlanEntry n) (e : E)
    (hcells : entryCells cells entry = v.cells e) :
    (p.push entry (v.role e) (v.rate e) (v.ref e)).Shows cells v (entries ++ [e]) where
  cells := by rw [Planning.push, List.map_append, h.cells, List.map_append, List.map_singleton, hcells]; rfl
  roles := by rw [Planning.push, h.roles, List.map_append]; rfl
  rates := by rw [Planning.push, h.rates, List.map_append]; rfl
  refs := by rw [Planning.push, h.refs, List.map_append]; rfl
  maxRate := by rw [Planning.push, h.maxRate, loudest, loudest, List.foldl_append]; rfl

theorem Planning.Shows.addRates (h : p.Shows cells v entries) (rxRate txRate : F) :
    (p.addRates rxRate txRate).Shows cells v entries :=
  ⟨h.cells, h.roles, h.rates, h.refs, h.maxRate⟩

/-- A loop whose steps append the rows of an element each. -/
theorem Planning.Shows.foldl {A : Type} {step : Planning n F → A → Planning n F} {rowsOf : A → List E}
    (hstep : ∀ {p : Planning n F} {entries : List E} (a : A), p.Shows cells v entries →
      (step p a).Shows cells v (entries ++ rowsOf a))
    (l : List A) (h : p.Shows cells v entries) :
    (l.foldl step p).Shows cells v (entries ++ l.flatMap rowsOf) := by
  induction l generalizing p entries with
  | nil => rwa [List.foldl_nil, List.flatMap_nil, List.append_nil]
  | cons a l ih =>
      rw [List.foldl_cons, List.flatMap_cons, ← List.append_assoc]
      exact ih (hstep a h)

/-- A loop whose steps append one row each. -/
theorem Planning.Shows.foldl_map {A : Type} {step : Planning n F → A → Planning n F} {row : A → E}
    (hstep : ∀ {p : Planning n F} {entries : List E} (a : A), p.Shows cells v entries →
      (step p a).Shows cells v (entries ++ [row a]))
    (l : List A) (h : p.Shows cells v entries) :
    (l.foldl step p).Shows cells v (entries ++ l.map row) := by
  rw [List.map_eq_flatMap]
  exact Planning.Shows.foldl hstep l h

end Shows

/-- A row of either view. -/
inductive FrameEntry (n m : ℕ) (F : Type) where
  | interface (i : Fin n)
  | connection (row : PlannedRow m F)

section Entries
variable (app : TuiFrameState F) (ifaceRows : List (InterfaceRow F)) (connAgg : Aggregator F)

/-- The rows a frame shows, in their order. -/
def frameEntries : List (FrameEntry (app.shownIfaceRows ifaceRows).length
    (app.shownConnRows connAgg).length F) :=
  match app.view with
  | .Interfaces => (sortedInterfaceIndices (app.shownIfaceRows ifaceRows) app.ifaceSortField
      app.ifaceSortDesc).map .interface
  | .Connections => (plan T cachedHostname compare app.toTuiApp (app.shownConnRows connAgg)).map
      .connection

/-- What a frame shows of each row. -/
def rowView : RowView (FrameEntry (app.shownIfaceRows ifaceRows).length
    (app.shownConnRows connAgg).length F) F where
  cells
    | .interface i => cellsForInterface texts ((app.shownIfaceRows ifaceRows).get i)
    | .connection (.flow i group) =>
        let cells := cellsForConnection texts ((app.shownConnRows connAgg).get i) app.columns
        if group.isSome then indented cells else cells
    | .connection (.header g collapsed) =>
        groupHeaderCells texts app.columns (groupLabel (app.shownConnRows connAgg) g collapsed)
          g.summary.rxRate g.summary.txRate g.summary.rxBytes g.summary.txBytes
  role
    | .interface i => rowRoleForInterface ((app.shownIfaceRows ifaceRows).get i)
    | .connection (.flow i _) => connRole app connAgg ((app.shownConnRows connAgg).get i)
    | .connection (.header _ _) => .GroupHeader
  rate
    | .interface i =>
        let row := (app.shownIfaceRows ifaceRows).get i
        combinedRate row.rxRate row.txRate
    | .connection (.flow i _) =>
        let row := (app.shownConnRows connAgg).get i
        combinedRate row.rxRate row.txRate
    | .connection (.header g _) => Double.add g.summary.rxRate g.summary.txRate
  ref
    | .interface i => ⟨true, false, interfaceKey ((app.shownIfaceRows ifaceRows).get i), []⟩
    | .connection row => rowRef (app.shownConnRows connAgg) row

theorem planInterfaces_shows :
    (planInterfaces app (app.shownIfaceRows ifaceRows)).Shows
      (fun i => cellsForInterface texts ((app.shownIfaceRows ifaceRows).get i))
      (rowView texts app ifaceRows connAgg)
      ((sortedInterfaceIndices (app.shownIfaceRows ifaceRows) app.ifaceSortField
        app.ifaceSortDesc).map .interface) := by
  refine Planning.Shows.foldl_map (fun i h => ?_) _ Planning.shows_start
  exact (h.push { src := some i } (.interface i) rfl).addRates _ _

/-- A header and the rows under it. -/
theorem addGroup_shows {p : Planning (app.shownConnRows connAgg).length F}
    {entries : List (FrameEntry (app.shownIfaceRows ifaceRows).length (app.shownConnRows connAgg).length F)}
    (g : Group (app.shownConnRows connAgg).length F)
    (h : p.Shows (fun i => cellsForConnection texts ((app.shownConnRows connAgg).get i) app.columns)
      (rowView texts app ifaceRows connAgg) entries) :
    (addGroup texts app connAgg app.columns (app.shownConnRows connAgg) p g).Shows
      (fun i => cellsForConnection texts ((app.shownConnRows connAgg).get i) app.columns)
      (rowView texts app ifaceRows connAgg)
      (entries ++ (groupRows app.collapsedGroups g).map .connection) := by
  have hheader := (h.push { groupCells := _ }
    (.connection (.header g (app.collapsedGroups.contains g.key))) rfl).addRates g.summary.rxRate
    g.summary.txRate
  rw [addGroup, groupRows, List.map_cons, List.append_cons]
  split
  · rw [List.map_nil, List.append_nil]
    exact hheader
  · rw [List.map_map]
    refine Planning.Shows.foldl_map (fun i h => ?_) _ hheader
    exact h.push { src := some i, indent := true } (.connection (.flow i (some g.key))) rfl

theorem planConnections_shows :
    (planConnections T cachedHostname compare texts app connAgg app.columns
      (app.shownConnRows connAgg)).Shows
      (fun i => cellsForConnection texts ((app.shownConnRows connAgg).get i) app.columns)
      (rowView texts app ifaceRows connAgg)
      ((plan T cachedHostname compare app.toTuiApp (app.shownConnRows connAgg)).map .connection) := by
  unfold planConnections plan
  split
  · rw [List.map_map]
    refine Planning.Shows.foldl_map (fun i h => ?_) _ Planning.shows_start
    exact (h.push { src := some i } (.connection (.flow i none)) rfl).addRates _ _
  · rw [List.map_flatMap]
    exact Planning.Shows.foldl (addGroup_shows texts app ifaceRows connAgg) _ Planning.shows_start

/-! ### The finished frame -/

/-- A frame and the state it leaves: the cursor is in view, the lists of the frame and what the cursor
finds are about the same rows, and the rows of the window have the cells that formatting all rows gives. -/
structure ShowsRows {E : Type} (frame : Frame F) (app' : TuiFrameState F) (body : Int) (v : RowView E F)
    (entries : List E) : Prop where
  inView : InView frame.rows.length body app'.position
  cursor : frame.cursor = app'.position.cursor
  scroll : frame.scrollOffset = app'.position.scroll
  rows : frame.rows.length = entries.length
  roles : frame.rowRoles = entries.map v.role
  refs : app'.rowRefs = entries.map v.ref
  gauge : frame.rowGauge = if app'.gaugeEnabled then
    entries.map fun e => gaugeFraction (v.rate e) (niceScale (loudest v entries)) else []
  window : ∀ i : ℕ, frame.scrollOffset ≤ i → i < frame.scrollOffset + body →
    frame.rows[i]? = (entries.map v.cells)[i]?

omit [Double F] in
theorem TuiFrameState.position_setPosition (pos : Position) :
    (app.setPosition pos).position = pos := by
  cases hview : app.view <;> simp [setPosition, position, hview]

omit [Double F] in
theorem TuiFrameState.gaugeEnabled_setPosition (pos : Position) :
    (app.setPosition pos).gaugeEnabled = app.gaugeEnabled := by
  cases hview : app.view <;> simp [setPosition, hview]

theorem finishFrame_shows {n : ℕ} {E : Type} {p : Planning n F} {cells : Fin n → List QString}
    {v : RowView E F} {entries : List E} (h : p.Shows cells v entries) (sortField : ColumnId)
    (sortDesc : Bool) {body : Int} (hbody : 0 < body) (htotal : 0 < entries.length) :
    ShowsRows niceScale (finishFrame texts niceScale app sortField sortDesc p cells body).1
      (finishFrame texts niceScale app sortField sortDesc p cells body).2 body v entries := by
  have hlength := h.length_plan
  have hplan : (0 : Int) < p.plan.length := by omega
  have hview := place_inView p.rowRefs hplan hbody app.cursorTarget app.position
  have hposition : (finishFrame texts niceScale app sortField sortDesc p cells body).2.position =
      place p.rowRefs p.plan.length body app.cursorTarget app.position :=
    app.position_setPosition _
  have hrows : (finishFrame texts niceScale app sortField sortDesc p cells body).1.rows.length =
      p.plan.length := length_formatRows _ _ _ _
  have hgauge : (finishFrame texts niceScale app sortField sortDesc p cells body).2.gaugeEnabled =
      app.gaugeEnabled := app.gaugeEnabled_setPosition _
  constructor
  case inView =>
    rw [hposition, hrows]
    exact hview
  case cursor =>
    rw [hposition]
    exact if_neg (by omega)
  case scroll =>
    rw [hposition]
    rfl
  case rows => exact hrows.trans hlength
  case roles => exact h.roles
  case refs => exact h.refs
  case gauge =>
    rw [hgauge, finishFrame, h.rates, h.maxRate, List.map_map]
    rfl
  case window =>
    intro i hscroll hend
    rw [← h.cells]
    exact formatRows_getElem? _ _ hscroll hend

/-- **The viewport**: whatever the cursor, the scroll and the rest of the state were, a frame with rows on a
screen with lines shows its rows in view. -/
theorem buildFrame_viewport {body : Int} (hbody : 0 < body)
    (htotal : 0 < (frameEntries T cachedHostname compare app ifaceRows connAgg).length) :
    ShowsRows niceScale
      (buildFrame T cachedHostname compare texts niceScale app ifaceRows connAgg body).1
      (buildFrame T cachedHostname compare texts niceScale app ifaceRows connAgg body).2 body
      (rowView texts app ifaceRows connAgg)
      (frameEntries T cachedHostname compare app ifaceRows connAgg) := by
  unfold buildFrame
  unfold frameEntries at htotal ⊢
  cases hview : app.view with
  | Interfaces =>
      rw [hview] at htotal
      exact finishFrame_shows texts niceScale app (planInterfaces_shows texts app ifaceRows connAgg) _ _ hbody
        htotal
  | Connections =>
      rw [hview] at htotal
      exact finishFrame_shows texts niceScale app
        (planConnections_shows T cachedHostname compare texts app ifaceRows connAgg) _ _ hbody htotal

/-- Every row of a frame can be landed on, headers too. -/
theorem landable_refs {entries : List (FrameEntry (app.shownIfaceRows ifaceRows).length
    (app.shownConnRows connAgg).length F)} :
    Landable (entries.map (rowView texts app ifaceRows connAgg).ref) := by
  intro ref href
  obtain ⟨e, -, rfl⟩ := List.mem_map.mp href
  cases e with
  | interface i => rfl
  | connection row =>
      cases row with
      | flow i group => rfl
      | header g collapsed => rfl

/-- **A key after a frame** moves the cursor by its step, as far as there are rows. -/
theorem ShowsRows.moveCursor {frame : Frame F} {app' : TuiFrameState F} {body : Int}
    {entries : List (FrameEntry (app.shownIfaceRows ifaceRows).length (app.shownConnRows connAgg).length F)}
    (h : ShowsRows niceScale frame app' body (rowView texts app ifaceRows connAgg) entries) (delta : Int) :
    moveCursor app'.rowRefs app'.position.cursor delta =
      clamp (app'.position.cursor + delta) 0 (app'.rowRefs.length - 1) := by
  have hlandable : Landable app'.rowRefs := by
    rw [h.refs]
    exact landable_refs texts app ifaceRows connAgg
  have hlength : app'.rowRefs.length = frame.rows.length := by
    rw [h.refs, List.length_map, h.rows]
  have hnonneg := h.inView.cursor_nonneg
  have hlt := h.inView.cursor_lt
  have hne : app'.rowRefs ≠ [] := List.ne_nil_of_length_pos (by omega)
  have hclamp : clamp app'.position.cursor 0 (app'.rowRefs.length - 1) = app'.position.cursor := by
    rw [clamp_eq (by omega)]
    omega
  rw [moveCursor_eq hlandable hne, hclamp]

end Entries

end

/-- Texts for the rows of an example. -/
def plainTexts : CellTexts ℚ where
  formatByteRate r := number r.num.toNat
  formatBytes n := number n.toNat
  protoLabel _ := "tcp".toList
  endpointText e := e.address.toString

/-- The three flows by interface, after a longer table was scrolled to its end. -/
def scrolledApp : TuiFrameState ℚ := { byInterface with connCursor := 9, connScroll := 8 }

/-- A screen of two lines. -/
theorem scrolledApp_viewport :
    let connAgg : Aggregator ℚ := { rows := threeFlows }
    let built := buildFrame TextOps.ascii (fun _ => []) (fun _ _ => 0) plainTexts id scrolledApp [] connAgg 2
    ShowsRows id built.1 built.2 2 (rowView plainTexts scrolledApp [] connAgg)
      (frameEntries TextOps.ascii (fun _ => []) (fun _ _ => 0) scrolledApp [] connAgg) :=
  buildFrame_viewport TextOps.ascii (fun _ => []) (fun _ _ => 0) plainTexts id scrolledApp [] _ (by decide)
    (by decide +kernel)

end Qiftop.Tui
