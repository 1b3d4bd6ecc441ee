import Qiftop.Lib.Run
import Qiftop.Tui.BuildFrame

/-!
# Tui — keys

What happens to a `TuiApp` of `tui/TuiApp.cpp`: keys, repaints, new data, replies about processes.  A key
has a command, one for each case of the switch it goes to, and the command is an `Act`: it changes the
state and tells the rest of the program what to do (`Effect`).

* `handleKey`: the switches of the table, the overlays and the two input lines.
* `step`: one event, and with `Lib.run` any number of them.
-/

namespace Qiftop.Tui
open Qt Backend Aggregate Lib Qiftop.Filter

/-- What `Screen::pollKey` hands on: a character, or a key that curses has a name for. -/
inductive Key where
  | chr (c : Char)
  | up | down | left | right | home | «end» | npage | ppage | enter | backspace | btab | resize
  | f (n : ℕ)
  deriving DecidableEq, Repr

def esc : Char := Char.ofNat 27

/-! ### The state -/

/-- What the aggregators have. -/
structure Source (F : Type) where
  ifaceRows : List (InterfaceRow F) := []
  connAgg : Aggregator F := {}
  cachedHostname : QHostAddress → QString := fun _ => []
  texts : CellTexts F

/-- The further members of `TuiApp` that keys and events read and write. -/
structure TuiKeyState (F : Type) extends TuiFrameState F where
  source : Source F
  themeIdx : ℕ := 0
  settingsSel : ℕ := 0
  fieldsSel : ℕ := 0
  dnsEnabled : Bool := false
  udpAggregate : Bool := true
  smoothing : Bool := true
  backendCaps : List QString := []
  pollMs : Int := 1000
  attributionEagerness : QString := []
  procDetails : Hash Int32 ProcessDetails := ∅
  detailsRequested : List Int32 := []
  flashMsg : QString := []
  filterEditing : Bool := false
  filterDraft : QString := []
  exportPrompt : Bool := false
  exportDraft : QString := []
  filterText : QString := []
  filterError : QString := []
  redrawPending : Bool := false

/-- The rows an export is made of. -/
inductive Exported (F : Type) where
  | interfaces (rows : List (InterfaceRow F))
  | connections (rows : List (Row F))

/-- What the rest of the program is told to do. -/
inductive Effect (F : Type) where
  | startRedraw
  | startFlash
  | quit
  | setTheme (i : ℕ)
  | smoothTimer (running : Bool)
  | requestDetails (pid : Int32)
  | requestEagerness (mode : QString)
  | pollInterval (ms : Int)
  | aggregator (udpAggregateByPeer : Bool) (rateSmoothingMs : ℕ) (hostnameResolution : Bool)
  | save (path : QString) (rows : Exported F)
  | saveSettings

/-- What a key finds outside the program: the screen, the clock and the files of the working directory. -/
structure Outside where
  bodyHeight : Int := 0
  currentDateTime : QString → QString := fun _ => []
  currentDir : QString := []
  files : List QString := []
  /-- Why a file cannot be written, if it cannot. -/
  saveError : QString → Option QString := fun _ => none

/-- A change of the state and what the rest of the program is told. -/
abbrev Act (F : Type) := TuiKeyState F → TuiKeyState F × List (Effect F)

namespace Act
variable {F : Type}

def change (f : TuiKeyState F → TuiKeyState F) : Act F := fun s => (f s, [])

def emit (e : Effect F) : Act F := fun s => (s, [e])

/-- Nothing happens. -/
def skip : Act F := fun s => (s, [])

def andThen (a b : Act F) : Act F := fun s => ((b (a s).1).1, (a s).2 ++ (b (a s).1).2)

end Act

/-- `requestRedraw`: one repaint for any number of changes. -/
def requestRedraw {F : Type} : Act F := fun s =>
  if s.redrawPending then (s, []) else ({ s with redrawPending := true }, [.startRedraw])

/-- A change that is to be seen. -/
def redrawn {F : Type} (f : TuiKeyState F → TuiKeyState F) : Act F := (Act.change f).andThen requestRedraw

def flashMessage {F : Type} (msg : QString) : Act F :=
  ((Act.change fun s => { s with flashMsg := msg }).andThen (.emit .startFlash)).andThen requestRedraw

/-! ### Columns and sorting -/

/-- A column of the Fields overlay. -/
structure OverlayColumn extends Column where
  available : Bool := true
  visible : Bool := true

def overlayColumnsFor (v : View) : List Column :=
  match v with
  | .Interfaces => columnsFor v {} .None
  | .Connections => columnsFor v ⟨true, true⟩ .None

namespace TuiFrameState
variable {F : Type} (app : TuiFrameState F)

def currentSortField : ColumnId := if app.view = .Interfaces then app.ifaceSortField else app.connSortField

def setCurrentSortField (id : ColumnId) : TuiFrameState F :=
  if app.view = .Interfaces then { app with ifaceSortField := id } else { app with connSortField := id }

def reverseSort : TuiFrameState F :=
  if app.view = .Interfaces then { app with ifaceSortDesc := !app.ifaceSortDesc }
  else { app with connSortDesc := !app.connSortDesc }

def activeColumns : List Column := columnsFor app.view app.effectiveOptionalColumns app.groupBy

def overlayColumns : List OverlayColumn :=
  (overlayColumnsFor app.view).map fun c =>
    match c.id with
    | .Process => { c with available := app.procWire, visible := app.showProcessColumn }
    | .Container => { c with available := app.contWire, visible := app.showContainerColumn }
    | _ => { c with }

/-- The next column that is shown becomes the sort field. -/
def cycleSortField : TuiFrameState F :=
  let cols := app.activeColumns
  let idx := (visualIndexForColumn cols app.currentSortField + 1) % cols.length
  match cols[idx.toNat]? with
  | some c => app.setCurrentSortField c.id
  | none => app

def toggleOptionalColumn (id : ColumnId) : TuiFrameState F :=
  if id = .Process then { app with showProcessColumn := !app.showProcessColumn }
  else if id = .Container then { app with showContainerColumn := !app.showContainerColumn }
  else app

def setCursor (cursor : Int) : TuiFrameState F := app.setPosition { app.position with cursor }

/-- What the cursor finds at its row. -/
def refAtCursor : Option RowRef := atCursor app.position.cursor app.rowRefs

def cursorOnHeader : Bool := app.refAtCursor.elim false RowRef.header

end TuiFrameState

/-- The position of a mode among the modes. -/
def GroupBy.index : GroupBy → ℕ
  | .None => 0 | .Interface => 1 | .Process => 2 | .Container => 3 | .Count => 4

def GroupBy.ofIndex : ℕ → GroupBy
  | 0 => .None | 1 => .Interface | 2 => .Process | 3 => .Container | _ => .Count

def themeNames : List QString := ["dark".toList, "light".toList, "colorblind".toList, "mono".toList]

def builtinThemes : ℕ := themeNames.length

/-! ### Actions -/

section Actions
variable {F : Type} [Double F] (T : TextOps F)

open Act

/-- Only one request for the details of a process.  There is someone to ask: `main` sees to that before the
first event. -/
def ensureProcessDetails (pid : Int32) : Act F := fun s =>
  if pid ≤ 0 then (s, [])
  else if pid ∈ s.procDetails ∨ pid ∈ s.detailsRequested then (s, [])
  else ({ s with detailsRequested := pid :: s.detailsRequested }, [.requestDetails pid])

/-- The rows the Connections view shows. -/
def TuiKeyState.connRows (s : TuiKeyState F) : List (Row F) := s.shownConnRows s.source.connAgg

def TuiKeyState.ifaceRows (s : TuiKeyState F) : List (InterfaceRow F) := s.shownIfaceRows s.source.ifaceRows

/-- The details of the first of these rows, if its process is known. -/
def warm (rows : List (Row F)) (p : Row F → Bool) : Act F :=
  match rows.find? p with
  | some r => if r.current.process.valid then ensureProcessDetails r.current.process.pid else skip
  | none => skip

def moveCursorBy (delta : Int) : Act F :=
  redrawn fun s => { s with
    toTuiFrameState := s.setCursor (moveCursor s.rowRefs s.position.cursor delta) }

def openDetail : Act F := fun s =>
  match s.refAtCursor with
  | none => (s, [])
  | some ref =>
      if !ref.selectable || ref.key.isEmpty then (s, [])
      else
        let opened := change fun s => { s with
          detailKey := ref.key
          detailView := s.view
          detailGroupKey := []
          detailGroupBy := .None
          overlay := .Detail }
        let details := fun s : TuiKeyState F =>
          if s.view = .Connections then warm s.connRows (fun r => r.current.key = ref.key) s else (s, [])
        ((opened.andThen details).andThen requestRedraw) s

/-- Enter on a header. -/
def openGroup : Act F := fun s =>
  if s.view ≠ .Connections ∨ s.groupBy = .None then (s, [])
  else
    match atCursor s.connCursor s.rowRefs with
    | none => (s, [])
    | some ref =>
        if !ref.header then (s, [])
        else
          let opened := change fun s => { s with
            toTuiApp := openGroupDetail s.toTuiApp s.rowRefs }
          let details := fun s : TuiKeyState F =>
            if s.groupBy = .Process then
              warm s.connRows (fun r => groupKeyFor s.groupBy r.current = ref.groupKey &&
                r.current.process.valid) s
            else (s, [])
          ((opened.andThen details).andThen requestRedraw) s

/-- The group of the row under the cursor is folded, and the cursor goes to its header. -/
def TuiFrameState.collapse (app : TuiFrameState F) (group : QString) : TuiFrameState F :=
  { app with collapsedGroups := group :: app.collapsedGroups, cursorTarget := some group }

def TuiFrameState.expand (app : TuiFrameState F) (group : QString) : TuiFrameState F :=
  { app with collapsedGroups := app.collapsedGroups.filter (· ≠ group) }

/-- What the cursor finds, if the connections are grouped. -/
def TuiFrameState.groupedRef (app : TuiFrameState F) : Option RowRef :=
  if app.view ≠ .Connections ∨ app.groupBy = .None then none else atCursor app.connCursor app.rowRefs

def collapseAtCursor : Act F := fun s =>
  match s.groupedRef with
  | none => (s, [])
  | some ref =>
      if s.collapsedGroups.contains ref.groupKey then (s, [])
      else redrawn (fun s => { s with toTuiFrameState := s.collapse ref.groupKey }) s

def expandAtCursor : Act F := fun s =>
  match s.groupedRef with
  | none => (s, [])
  | some ref =>
      if !ref.header then (s, [])
      else if s.collapsedGroups.contains ref.groupKey then
        redrawn (fun s => { s with toTuiFrameState := s.expand ref.groupKey }) s
      else (s, [])

def toggleCollapseAtCursor : Act F := fun s =>
  match s.groupedRef with
  | none => (s, [])
  | some ref =>
      if !ref.header then (s, [])
      else
        redrawn (fun s => { s with
          toTuiFrameState :=
            if s.collapsedGroups.contains ref.groupKey then s.expand ref.groupKey
            else s.collapse ref.groupKey }) s

def eagernessOrder : List QString := [[], "off".toList, "balanced".toList, "eager".toList]

def cycleAttributionEagerness : Act F := fun s =>
  if !s.backendCaps.contains "attribution-eagerness-hints".toList then
    flashMessage "Attribution eagerness needs an agent that advertises it".toList s
  else
    let idx := (eagernessOrder.findIdx? (· == s.attributionEagerness)).getD 0
    let mode := eagernessOrder.getD ((idx + 1) % eagernessOrder.length) []
    let wire := if mode.isEmpty then "default".toList else mode
    ((((change fun s => { s with attributionEagerness := mode }).andThen (emit (.requestEagerness wire))).andThen
      (flashMessage (arg "Attribution eagerness: %1".toList wire))).andThen
        ((emit .saveSettings).andThen requestRedraw)) s

/-- Pausing keeps the rows of the moment; resuming drops them. -/
def togglePaused : Act F := fun s =>
  if s.paused then
    ({ s with paused := false, frozenIfaceRows := [], frozenConnRows := [] }, [.smoothTimer true])
  else
    ({ s with
      paused := true
      frozenIfaceRows := s.source.ifaceRows
      frozenConnRows := s.source.connAgg.rows }, [.smoothTimer false])

def setThemeTo (i : ℕ) : Act F := (change fun s => { s with themeIdx := i }).andThen (emit (.setTheme i))

/-! ### Exports -/

def exportName (baseName stamp : QString) : ℕ → QString
  | 0 => baseName ++ '-' :: stamp ++ ".csv".toList
  | n => baseName ++ '-' :: stamp ++ '-' :: number n ++ ".csv".toList

/-- `QDir::absoluteFilePath`; only the root ends in a separator. -/
def absoluteFilePath (dir name : QString) : QString :=
  if dir.getLast? = some '/' then dir ++ name else dir ++ '/' :: name

/-- The first name no file has.  There are more names than files. -/
def uniqueExportPath (o : Outside) (baseName stamp : QString) : QString :=
  let n := ((List.range (o.files.length + 1)).find? fun n =>
    !o.files.contains (exportName baseName stamp n)).getD 0
  absoluteFilePath o.currentDir (exportName baseName stamp n)

/-- What is behind the last separator of a path. -/
def fileName (path : QString) : QString := (path.reverse.takeWhile (· ≠ '/')).reverse

def TuiKeyState.exportRows (s : TuiKeyState F) : Exported F :=
  match s.view with
  | .Interfaces => .interfaces s.ifaceRows
  | .Connections => .connections ((displayedConnectionIndices T s.source.cachedHostname s.connRows
      s.connSortField s.connSortDesc s.filterExpr).map s.connRows.get)

def Exported.count : Exported F → ℕ
  | .interfaces rows => rows.length
  | .connections rows => rows.length

def exportBase (v : View) : QString :=
  if v = .Interfaces then "qiftop-interfaces".toList else "qiftop-connections".toList

def exportCurrentView (o : Outside) (explicitPath : QString) : Act F := fun s =>
  let rows := s.exportRows T
  let path :=
    if explicitPath.isEmpty then
      uniqueExportPath o (exportBase s.view) (o.currentDateTime "yyyyMMdd-HHmmss-zzz".toList)
    else if (fileName explicitPath).contains '.' then explicitPath
    else explicitPath ++ ".csv".toList
  match o.saveError path with
  | none => ((emit (.save path rows)).andThen
      (flashMessage (arg (arg "Exported %1 rows to %2".toList (number rows.count)) path))) s
  | some err => flashMessage (arg "Export failed: %1".toList err) s

def promptExportFilename (o : Outside) : Act F :=
  redrawn fun s => { s with
    exportDraft := exportName (exportBase s.view) (o.currentDateTime "yyyyMMdd-HHmmss".toList) 0
    exportPrompt := true }

end Actions

/-! ### The keys of the table -/

inductive Command where
  | quit | settings | fields | help | about | eagerness | pause | export | exportPrompt | filter
  | clearFilter | otherView | view (v : View) | cycleSort | reverse | theme | group
  | moveBy (delta : Int → Int) | enter | space | expand | collapse | resize

/-- `std::numeric_limits<int>::max() / 2`. -/
def farAway : Int := 1073741823

/-- The command of a key, given the height of the table where it matters. -/
def command : Key → Option Command
  | .chr 'q' | .chr 'Q' => some .quit
  | .chr 'S' | .f 2 => some .settings
  | .chr 'f' | .chr 'F' => some .fields
  | .chr '?' | .f 1 => some .help
  | .chr 'a' | .chr 'A' => some .about
  | .chr 'e' | .chr 'E' => some .eagerness
  | .chr 'p' | .chr 'P' => some .pause
  | .chr 'w' => some .export
  | .chr 'W' => some .exportPrompt
  | .chr '/' => some .filter
  | .chr '\x1b' => some .clearFilter
  | .chr '\t' | .btab => some .otherView
  | .chr '1' => some (.view .Interfaces)
  | .chr '2' => some (.view .Connections)
  | .chr 's' => some .cycleSort
  | .chr 'r' | .chr 'R' => some .reverse
  | .chr 'z' | .chr 'Z' => some .theme
  | .chr 'g' => some .group
  | .chr 'k' | .up => some (.moveBy fun _ => -1)
  | .chr 'j' | .down => some (.moveBy fun _ => 1)
  | .chr 'G' | .end => some (.moveBy fun _ => farAway)
  | .chr '\x04' => some (.moveBy fun bodyH => bodyH.tdiv 2)
  | .chr '\x15' => some (.moveBy fun bodyH => (-bodyH).tdiv 2)
  | .npage | .chr '\x06' => some (.moveBy fun bodyH => bodyH)
  | .ppage | .chr '\x02' => some (.moveBy fun bodyH => -bodyH)
  | .home => some (.moveBy fun _ => -farAway)
  | .chr '\n' | .chr '\x0d' | .enter => some .enter
  | .chr ' ' => some .space
  | .chr 'l' | .right => some .expand
  | .chr 'h' | .left => some .collapse
  | .resize => some .resize
  | _ => none

section Handlers
variable {F : Type} [Double F] (T : TextOps F)

open Act

/-- `m_fieldsSel` when the Fields overlay opens: the current sort field. -/
def TuiFrameState.sortRow (app : TuiFrameState F) : ℕ :=
  (max 0 (visualIndexForColumn (app.overlayColumns.map OverlayColumn.toColumn) app.currentSortField)).toNat

def exec (o : Outside) : Command → Act F
  | .quit => emit .quit
  | .settings => redrawn fun s => { s with overlay := .Settings }
  | .fields => redrawn fun s => { s with fieldsSel := s.sortRow, overlay := .Fields }
  | .help => redrawn fun s => { s with overlay := .Help }
  | .about => redrawn fun s => { s with overlay := .About }
  | .eagerness => cycleAttributionEagerness.andThen requestRedraw
  | .pause => togglePaused.andThen requestRedraw
  | .export => (exportCurrentView T o []).andThen requestRedraw
  | .exportPrompt => (promptExportFilename o).andThen requestRedraw
  | .filter => redrawn fun s => { s with filterEditing := true, filterDraft := s.filterText }
  | .clearFilter => fun s =>
      if !s.filterText.isEmpty then
        redrawn (fun s => { s with filterText := [], filterExpr := .null, connCursor := 0 }) s
      else (s, [])
  | .otherView => redrawn fun s => { s with
      view := if s.view = .Interfaces then .Connections else .Interfaces }
  | .view v => redrawn fun s => { s with view := v }
  | .cycleSort => redrawn fun s => { s with toTuiFrameState := s.cycleSortField }
  | .reverse => redrawn fun s => { s with toTuiFrameState := s.reverseSort }
  | .theme => andThen (fun s => setThemeTo ((s.themeIdx + 1) % builtinThemes) s) requestRedraw
  | .group => redrawn fun s => { s with
      groupBy := .ofIndex ((s.groupBy.index + 1) % GroupBy.Count.index)
      connCursor := 0
      collapsedGroups := [] }
  | .moveBy delta => (moveCursorBy (delta (max 1 o.bodyHeight))).andThen requestRedraw
  | .enter => andThen (fun s => if s.cursorOnHeader then openGroup s else openDetail s) requestRedraw
  | .space =>
      andThen (fun s => if s.cursorOnHeader then toggleCollapseAtCursor s else openDetail s) requestRedraw
  | .expand => andThen (fun s => if s.cursorOnHeader then expandAtCursor s else openDetail s) requestRedraw
  | .collapse => collapseAtCursor.andThen requestRedraw
  | .resize => requestRedraw

/-! ### The overlays -/

def handleInfoKey (key : Key) : Act F :=
  if key = .resize then requestRedraw else redrawn fun s => { s with overlay := .None }

/-- The inspection of the row the cursor has come to. -/
def TuiFrameState.retarget (app : TuiFrameState F) : TuiFrameState F :=
  match app.refAtCursor with
  | none => app
  | some ref =>
      if !ref.selectable then app
      else if ref.header then
        { app with detailGroupKey := ref.groupKey, detailGroupBy := app.groupBy, detailKey := [] }
      else { app with detailKey := ref.key, detailGroupKey := [], detailGroupBy := .None }

def browse (delta : Int) : Act F :=
  (moveCursorBy delta).andThen (redrawn fun s => { s with toTuiFrameState := s.retarget })

def closeDetail : Act F :=
  redrawn fun s => { s with overlay := .None, detailGroupKey := [], detailGroupBy := .None }

def handleDetailKey : Key → Act F
  | .chr 'j' | .down => browse 1
  | .chr 'k' | .up => browse (-1)
  | .resize => requestRedraw
  | _ => closeDetail

inductive FieldsCommand where
  | close | move (up : Bool) | toggle | sort | reverse | resize

def fieldsCommand : Key → Option FieldsCommand
  | .chr 'f' | .chr 'F' | .chr 'q' | .chr 'Q' | .chr '\x1b' => some .close
  | .up | .chr 'k' => some (.move true)
  | .down | .chr 'j' => some (.move false)
  | .chr ' ' => some .toggle
  | .chr '\n' | .chr '\x0d' | .enter => some .sort
  | .chr 'r' | .chr 'R' | .left | .right => some .reverse
  | .resize => some .resize
  | _ => none

/-- The capability an optional column needs. -/
def wireToken (id : ColumnId) : QString :=
  if id = .Container then "container-attribution-wire".toList else "process-attribution-wire".toList

/-- One line up or down a list of `n`, around its ends. -/
def around (n sel : ℕ) (up : Bool) : ℕ := if up then (sel + n - 1) % n else (sel + 1) % n

def execFields (sel : OverlayColumn) (n : ℕ) : FieldsCommand → Act F
  | .close => redrawn fun s => { s with overlay := .None }
  | .move up => redrawn fun s => { s with fieldsSel := around n s.fieldsSel up }
  | .toggle =>
      if sel.hideable && sel.available then
        redrawn fun s => { s with toTuiFrameState := s.toggleOptionalColumn sel.id }
      else if sel.hideable then
        (flashMessage (arg (arg "%1 needs the backend's %2 capability".toList sel.title)
          (wireToken sel.id))).andThen requestRedraw
      else requestRedraw
  | .sort => redrawn fun s => { s with
      toTuiFrameState :=
        if s.currentSortField = sel.id then s.reverseSort else s.setCurrentSortField sel.id }
  | .reverse => redrawn fun s => { s with toTuiFrameState := s.reverseSort }
  | .resize => requestRedraw

def handleFieldsKey (key : Key) : Act F := fun s =>
  let cols := s.overlayColumns
  let row := min s.fieldsSel (cols.length - 1)
  match cols[row]? with
  | none => redrawn (fun s => { s with overlay := .None }) s
  | some sel => (fieldsCommand key).elim skip (execFields sel cols.length) { s with fieldsSel := row }

/-! ### The settings -/

/-- The lines of the Settings overlay, in their order. -/
inductive SettingItem where
  | theme | groupConnections | pollInterval | bandwidthGauge | directionColours | resolveHostnames
  | aggregateUdp | rateSmoothing | sortWithin | processColumn | containerColumn
  deriving DecidableEq, Repr

def settingItems : List SettingItem :=
  [.theme, .groupConnections, .pollInterval, .bandwidthGauge, .directionColours, .resolveHostnames,
    .aggregateUdp, .rateSmoothing, .sortWithin, .processColumn, .containerColumn]

/-- `SettingItem::adjust`, forwards or backwards. -/
def adjust (forward : Bool) : SettingItem → Act F
  | .theme => fun s =>
      setThemeTo ((s.themeIdx + if forward then 1 else builtinThemes - 1) % builtinThemes) s
  | .groupConnections => change fun s => { s with
      groupBy := .ofIndex ((s.groupBy.index + if forward then 1 else GroupBy.Count.index - 1) %
        GroupBy.Count.index)
      connScroll := 0 }
  | .pollInterval =>
      (change fun s => { s with
        pollMs := clamp (s.pollMs + (if forward then 1 else -1) * 250) 100 10000 }).andThen
        fun s => emit (.pollInterval s.pollMs) s
  | .bandwidthGauge => change fun s => { s with gaugeEnabled := !s.gaugeEnabled }
  | .directionColours => change fun s => { s with directionColors := !s.directionColors }
  | .resolveHostnames => change fun s => { s with dnsEnabled := !s.dnsEnabled }
  | .aggregateUdp => change fun s => { s with udpAggregate := !s.udpAggregate }
  | .rateSmoothing => change fun s => { s with smoothing := !s.smoothing }
  | .sortWithin => redrawn fun s => { s with sortWithinGroups := !s.sortWithinGroups }
  | .processColumn => redrawn fun s => { s with toTuiFrameState := s.toggleOptionalColumn .Process }
  | .containerColumn => redrawn fun s => { s with toTuiFrameState := s.toggleOptionalColumn .Container }

def applyAggregatorSettings : Act F := fun s =>
  emit (.aggregator s.udpAggregate (if s.smoothing then 300 else 0) s.dnsEnabled) s

inductive SettingsCommand where
  | close | move (up : Bool) | activate (forward : Bool) | resize

def settingsCommand : Key → Option SettingsCommand
  | .chr 'S' | .chr 'q' | .chr 'Q' | .chr '\x1b' => some .close
  | .up | .chr 'k' => some (.move true)
  | .down | .chr 'j' => some (.move false)
  | .left | .chr 'h' => some (.activate false)
  | .right | .chr 'l' | .chr ' ' | .chr '\n' | .chr '\x0d' | .enter => some (.activate true)
  | .resize => some .resize
  | _ => none

def execSettings : SettingsCommand → Act F
  | .close => redrawn fun s => { s with overlay := .None }
  | .move up => redrawn fun s => { s with settingsSel := around settingItems.length s.settingsSel up }
  | .activate forward => fun s =>
      (((settingItems[s.settingsSel]?.elim skip (adjust forward)).andThen
        applyAggregatorSettings).andThen requestRedraw) s
  | .resize => requestRedraw

def handleSettingsKey (key : Key) : Act F :=
  (settingsCommand key).elim skip execSettings

/-! ### The input lines -/

/-- The character a key puts in an input line. -/
def Key.printable : Key → Option Char
  | .chr c => if 0x20 ≤ c.toNat ∧ c.toNat < 0x7f then some c else none
  | _ => none

inductive InputCommand where
  | cancel | accept | chop | append (c : Char) | resize

def inputCommand (key : Key) : Option InputCommand :=
  match key with
  | .chr '\x1b' => some .cancel
  | .chr '\n' | .chr '\x0d' | .enter => some .accept
  | .backspace | .chr '\x7f' | .chr '\x08' => some .chop
  | .resize => some .resize
  | key => key.printable.map .append

/-- The draft becomes the filter if it parses, and stays in the line otherwise. -/
def commitFilter (s : TuiKeyState F) : TuiKeyState F :=
  let res := parse T (T.trimmed s.filterDraft)
  if !res.error.isEmpty then { s with filterError := res.error }
  else { s with
    filterError := res.error
    filterExpr := res.expr
    filterText := T.trimmed s.filterDraft
    filterEditing := false
    connScroll := 0 }

def execFilter : InputCommand → Act F
  | .cancel => redrawn fun s => { s with
      filterEditing := false, filterError := [], filterDraft := s.filterText }
  | .accept => redrawn (commitFilter T)
  | .chop => redrawn fun s => { s with filterDraft := s.filterDraft.dropLast, filterError := [] }
  | .append c => redrawn fun s => { s with filterDraft := s.filterDraft ++ [c], filterError := [] }
  | .resize => requestRedraw

def handleFilterKey (key : Key) : Act F := (inputCommand key).elim skip (execFilter T)

def execExport (o : Outside) : InputCommand → Act F
  | .cancel => redrawn fun s => { s with exportPrompt := false, exportDraft := [] }
  | .accept => fun s =>
      let path := T.trimmed s.exportDraft
      (((change fun s => { s with exportPrompt := false }).andThen
        (if !path.isEmpty then exportCurrentView T o path else skip)).andThen
          (redrawn fun s => { s with exportDraft := [] })) s
  | .chop => redrawn fun s => { s with exportDraft := s.exportDraft.dropLast }
  | .append c => redrawn fun s => { s with exportDraft := s.exportDraft ++ [c] }
  | .resize => requestRedraw

def handleExportKey (o : Outside) (key : Key) : Act F := (inputCommand key).elim skip (execExport T o)

/-! ### Events -/

def handleKey (o : Outside) (key : Key) : Act F := fun s =>
  match s.overlay with
  | .Settings => handleSettingsKey key s
  | .Fields => handleFieldsKey key s
  | .Help | .About => handleInfoKey key s
  | .Detail => handleDetailKey key s
  | .None =>
      if s.filterEditing then handleFilterKey T key s
      else if s.exportPrompt then handleExportKey T o key s
      else (command key).elim skip (exec T o) s

def onDataChanged : Act F := fun s => if s.paused then (s, []) else requestRedraw s

def onProcessDetails (d : ProcessDetails) : Act F := fun s =>
  if d.pid ≤ 0 then (s, [])
  else
    let s := { s with
      procDetails := s.procDetails.insert d.pid d
      detailsRequested := s.detailsRequested.filter (· ≠ d.pid) }
    if s.overlay = .Detail then requestRedraw s else (s, [])

def setBackendInfo (caps : List QString) : Act F :=
  redrawn fun s => { s with
    backendCaps := caps
    procWire := caps.contains "process-attribution-wire".toList
    contWire := caps.contains "container-attribution-wire".toList }

/-- What happens to a `TuiApp`.  `redraw` is the end of the throttle, with the height of the table then. -/
inductive Event (F : Type) where
  | key (key : Key) (o : Outside)
  | redraw (bodyHeight : Int)
  | data (source : Source F)
  | processDetails (d : ProcessDetails)
  | backendInfo (caps : List QString)
  | flashTimeout
  | terminalResize

variable (compare : QString → QString → Int) (niceScale : F → F)

/-- The frame of a state. -/
def TuiKeyState.build (s : TuiKeyState F) (bodyHeight : Int) : Frame F × TuiFrameState F :=
  buildFrame T s.source.cachedHostname compare s.source.texts niceScale s.toTuiFrameState
    s.source.ifaceRows s.source.connAgg bodyHeight

def step (s : TuiKeyState F) : Event F → TuiKeyState F × List (Effect F)
  | .key key o => handleKey T o key s
  | .redraw bodyHeight =>
      ({ s with
        toTuiFrameState := (s.build T compare niceScale bodyHeight).2
        redrawPending := false }, [])
  | .data source => onDataChanged { s with source }
  | .processDetails d => onProcessDetails d s
  | .backendInfo caps => setBackendInfo caps s
  | .flashTimeout => redrawn (fun s => { s with flashMsg := [] }) s
  | .terminalResize => requestRedraw s

end Handlers

end Qiftop.Tui
