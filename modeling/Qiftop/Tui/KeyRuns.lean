import Mathlib.Data.List.DropRight
import Qiftop.Tui.Writes

/-!
# Tui — what holds after any keys and events

* `Valid`: at most one overlay or input line is open, the selections and settings are in range, each
  table is sorted by one of its columns, and the filter is what the committed text parses to.
* `run_valid`: it holds after any run of keys, repaints, new data and replies.
* `requested_nodup`: the details of a process are asked for once in a run.
-/

namespace Qiftop.Tui
open Qt Backend Aggregate Lib Qiftop.Filter

/-! ### What the setters set -/

namespace TuiFrameState
variable {F : Type} (app : TuiFrameState F)

theorem setCursor_eq (cursor : Int) :
    app.setCursor cursor = { app with
      ifaceCursor := if app.view = .Interfaces then cursor else app.ifaceCursor
      connCursor := if app.view = .Interfaces then app.connCursor else cursor } := by
  cases hview : app.view with
  | Interfaces =>
      simp only [setCursor, setPosition, position, hview, ↓reduceIte]
      rw [← hview]
  | Connections =>
      simp only [setCursor, setPosition, position, hview, reduceCtorEq, ↓reduceIte]

theorem setPosition_eq (pos : Position) :
    app.setPosition pos = { app with
      ifaceCursor := if app.view = .Interfaces then pos.cursor else app.ifaceCursor
      ifaceScroll := if app.view = .Interfaces then pos.scroll else app.ifaceScroll
      connCursor := if app.view = .Interfaces then app.connCursor else pos.cursor
      connScroll := if app.view = .Interfaces then app.connScroll else pos.scroll } := by
  cases hview : app.view with
  | Interfaces =>
      simp only [setPosition, hview, ↓reduceIte]
      rw [← hview]
  | Connections => simp only [setPosition, hview, reduceCtorEq, ↓reduceIte]

theorem retarget_eq : ∃ key groupKey groupBy,
    app.retarget = { app with
      detailKey := key, detailGroupKey := groupKey, detailGroupBy := groupBy } := by
  unfold retarget
  split
  · exact ⟨_, _, _, rfl⟩
  · split
    · exact ⟨_, _, _, rfl⟩
    · split
      · exact ⟨_, _, _, rfl⟩
      · exact ⟨_, _, _, rfl⟩

theorem setCurrentSortField_eq (id : ColumnId) :
    app.setCurrentSortField id = { app with
      ifaceSortField := if app.view = .Interfaces then id else app.ifaceSortField
      connSortField := if app.view = .Interfaces then app.connSortField else id } := by
  unfold setCurrentSortField
  split <;> rfl

theorem reverseSort_eq : ∃ ifaceDesc connDesc,
    app.reverseSort = { app with ifaceSortDesc := ifaceDesc, connSortDesc := connDesc } := by
  unfold reverseSort
  split
  · exact ⟨_, _, rfl⟩
  · exact ⟨_, _, rfl⟩

theorem toggleOptionalColumn_eq (id : ColumnId) : ∃ process container,
    app.toggleOptionalColumn id = { app with
      showProcessColumn := process, showContainerColumn := container } := by
  unfold toggleOptionalColumn
  split
  · exact ⟨_, _, rfl⟩
  · split
    · exact ⟨_, _, rfl⟩
    · exact ⟨_, _, rfl⟩

end TuiFrameState

theorem openGroupDetail_eq {F : Type} (app : TuiApp F) (rowRefs : List RowRef) :
    openGroupDetail app rowRefs = app ∨ ∃ groupKey,
      openGroupDetail app rowRefs = { app with
        detailGroupKey := groupKey, detailGroupBy := app.groupBy, detailView := .Connections
        overlay := .Detail } := by
  unfold openGroupDetail
  split
  · exact .inl rfl
  · split
    · exact .inl rfl
    · split
      · exact .inl rfl
      · exact .inr ⟨_, rfl⟩

section
variable {F : Type} [Double F] (T : TextOps F)

/-! ### The invariant -/

omit [Double F] in
/-- Trimming twice is trimming once. -/
theorem trimmed_trimmed (s : QString) : T.trimmed (T.trimmed s) = T.trimmed s := by
  have hfront : (T.trimmed s).dropWhile T.isSpace = T.trimmed s := by
    refine List.dropWhile_eq_self_iff.mpr fun hpos => ?_
    have hstart : T.trimmed s <+: s.dropWhile T.isSpace := List.rdropWhile_prefix T.isSpace _
    rw [hstart.getElem hpos]
    exact List.dropWhile_eq_self_iff.mp (List.dropWhile_idempotent T.isSpace s) _
  calc T.trimmed (T.trimmed s) = ((T.trimmed s).dropWhile T.isSpace).rdropWhile T.isSpace := rfl
    _ = (T.trimmed s).rdropWhile T.isSpace := by rw [hfront]
    _ = T.trimmed s := List.rdropWhile_idempotent T.isSpace _

/-- The empty text is the filter that everything passes. -/
theorem parse_nil : parse T [] = ({} : ParseResult F) := rfl

/-- What holds of the part of the state a frame is made of. -/
structure TuiFrameState.Valid (app : TuiFrameState F) : Prop where
  groupBy : app.groupBy ≠ .Count
  ifaceSort : app.ifaceSortField ∈ (overlayColumnsFor .Interfaces).map Column.id
  connSort : app.connSortField ∈ (overlayColumnsFor .Connections).map Column.id
  ifaceCursor : 0 ≤ app.ifaceCursor
  connCursor : 0 ≤ app.connCursor
  refs : Landable app.rowRefs
  collapsed : app.collapsedGroups.Nodup
  frozen : app.paused = false → app.frozenIfaceRows = [] ∧ app.frozenConnRows = []

/-- What holds of the overlays and the input lines: one of them takes the keys at most, and the filter is
what the committed text parses to. -/
structure TuiKeyState.Valid (s : TuiKeyState F) : Prop where
  frame : s.toTuiFrameState.Valid
  overlay : s.overlay ≠ .None → s.filterEditing = false ∧ s.exportPrompt = false
  line : s.filterEditing = true → s.exportPrompt = false
  filterError : s.filterError ≠ [] → s.filterEditing = true
  trimmed : T.trimmed s.filterText = s.filterText
  parses : (parse T s.filterText).error = []
  filter : s.filterExpr = (parse T s.filterText).expr
  settingsSel : s.settingsSel < settingItems.length
  fieldsSel : s.overlay = .Fields → s.fieldsSel < (overlayColumnsFor s.view).length
  themeIdx : s.themeIdx < builtinThemes
  pollMs : 100 ≤ s.pollMs ∧ s.pollMs ≤ 10000
  requested : s.detailsRequested.Nodup
  inFlight : ∀ pid ∈ s.detailsRequested, 0 < pid ∧ pid ∉ s.procDetails
  details : ∀ pid d, s.procDetails.lookup pid = some d → 0 < pid ∧ d.pid = pid

/-! ### The frame part -/

namespace TuiFrameState
variable {app : TuiFrameState F}

omit [Double F] in
theorem Valid.setCursor (h : app.Valid) (delta : Int) :
    (app.setCursor (moveCursor app.rowRefs app.position.cursor delta)).Valid := by
  have hcursor : 0 ≤ moveCursor app.rowRefs app.position.cursor delta := by
    by_cases hne : app.rowRefs = []
    · simp [hne, moveCursor]
    · exact (moveCursor_range hne _ _).1
  rw [setCursor_eq]
  refine { h with ifaceCursor := ?_, connCursor := ?_ }
  · dsimp only
    split
    · exact hcursor
    · exact h.ifaceCursor
  · dsimp only
    split
    · exact h.connCursor
    · exact hcursor

omit [Double F] in
theorem Valid.setCurrentSortField (h : app.Valid) {id : ColumnId} (hid : app.Sortable id) :
    (app.setCurrentSortField id).Valid := by
  rw [setCurrentSortField_eq]
  unfold Sortable at hid
  refine { h with ifaceSort := ?_, connSort := ?_ }
  · dsimp only
    split
    · next hview => rwa [hview] at hid
    · exact h.ifaceSort
  · dsimp only
    split
    · exact h.connSort
    · next hview =>
        have hconn : app.view = .Connections := by cases hv : app.view <;> simp_all
        rwa [hconn] at hid

omit [Double F] in
theorem sortRow_lt (app : TuiFrameState F) : app.sortRow < (overlayColumnsFor app.view).length := by
  have hpos : 0 < (overlayColumnsFor app.view).length := by cases app.view <;> decide
  rw [sortRow, overlayColumns_toColumn, visualIndexForColumn]
  split
  · next i hi =>
      have hlt := (List.findIdx?_eq_some_iff_findIdx_eq.mp hi).1
      omega
  · simpa using hpos

/-- A frame moves the cursor to a row and keeps what the cursor finds at each row. -/
theorem finishFrame_state (texts : CellTexts F) (niceScale : F → F) (app : TuiFrameState F)
    (sortField : ColumnId) (sortDesc : Bool) {n : ℕ} {E : Type} {p : Planning n F}
    {cells : Fin n → List QString} {v : RowView E F} {entries : List E} (h : p.Shows cells v entries)
    (hrefs : Landable (entries.map v.ref)) (body : Int) :
    ∃ (pos : Position) (refs : List RowRef), (0 ≤ pos.cursor ∧ (refs ≠ [] → pos.cursor < refs.length)) ∧
      Landable refs ∧
      (finishFrame texts niceScale app sortField sortDesc p cells body).2 =
        { app.setPosition pos with rowRefs := refs, cursorTarget := none } := by
  refine ⟨place p.rowRefs p.plan.length body app.cursorTarget app.position, p.rowRefs, ?_, h.refs ▸ hrefs,
    rfl⟩
  have hlength : p.rowRefs.length = p.plan.length := by rw [h.refs, List.length_map, h.length_plan]
  rw [hlength]
  unfold place
  dsimp only
  split
  · next htotal =>
      refine ⟨le_rfl, fun hne => ?_⟩
      have hpos := List.length_pos_iff.mpr hne
      omega
  · next htotal =>
      have hlast : 0 ≤ (p.plan.length : Int) - 1 := by omega
      have hclamp := clamp_range (x := snapToTarget p.rowRefs app.cursorTarget app.position.cursor) hlast
      exact (snapCursor_range _ (by omega)).imp_right fun hlt _ => hlt

/-- What a frame changes of the state.  The cursor is on a row, if there are any. -/
theorem buildFrame_state (cachedHostname : QHostAddress → QString)
    (compare : QString → QString → Int) (texts : CellTexts F) (niceScale : F → F) (app : TuiFrameState F)
    (ifaceRows : List (InterfaceRow F)) (connAgg : Aggregator F) (body : Int) :
    ∃ (pos : Position) (refs : List RowRef), (0 ≤ pos.cursor ∧ (refs ≠ [] → pos.cursor < refs.length)) ∧
      Landable refs ∧
      (buildFrame T cachedHostname compare texts niceScale app ifaceRows connAgg body).2 =
        { app.setPosition pos with rowRefs := refs, cursorTarget := none } := by
  unfold Tui.buildFrame
  split
  · exact finishFrame_state texts niceScale app _ _ (planInterfaces_shows texts app ifaceRows connAgg)
      (landable_refs texts app ifaceRows connAgg) body
  · exact finishFrame_state texts niceScale app _ _
      (planConnections_shows T cachedHostname compare texts app ifaceRows connAgg)
      (landable_refs texts app ifaceRows connAgg) body

end TuiFrameState

/-- A text that parses becomes the filter; one that does not stays in the line. -/
theorem TuiKeyState.Valid.commitFilter {s : TuiKeyState F} (h : s.Valid T)
    (hediting : s.filterEditing = true) : (commitFilter T s).Valid T := by
  unfold Tui.commitFilter
  dsimp only
  split
  · exact { h with filterError := fun _ => hediting }
  · next herror =>
      have hnone : (parse T (T.trimmed s.filterDraft)).error = [] := by simpa using herror
      exact { h with
        frame := { h.frame with }
        overlay := fun hoverlay => ⟨rfl, (h.overlay hoverlay).2⟩
        line := nofun
        filterError := fun hne => absurd hnone hne
        trimmed := trimmed_trimmed T _
        parses := hnone
        filter := rfl }

/-- **A change keeps the state valid.** -/
theorem Write.valid {s s' : TuiKeyState F} {out : List (Effect F)} (hw : Write T s s' out)
    (h : s.Valid T) : s'.Valid T := by
  have hf := h.frame
  cases hw with
  | redraw => exact { h with }
  | tell e _ => exact h
  | flash msg => exact { h with }
  | close => exact { h with frame := { hf with }, overlay := absurd rfl, fieldsSel := nofun }
  | openPanel o hn ho =>
      exact { h with
        frame := { hf with }
        overlay := fun _ => ⟨hn.filterEditing, hn.exportPrompt⟩
        fieldsSel := fun hfields => absurd hfields ho }
  | openFields hn =>
      exact { h with
        frame := { hf with }
        overlay := fun _ => ⟨hn.filterEditing, hn.exportPrompt⟩
        fieldsSel := fun _ => s.sortRow_lt }
  | openDetail key hn =>
      exact { h with
        frame := { hf with }
        overlay := fun _ => ⟨hn.filterEditing, hn.exportPrompt⟩
        fieldsSel := nofun }
  | openGroup hn =>
      rcases openGroupDetail_eq s.toTuiApp s.rowRefs with heq | ⟨key, heq⟩
      · rw [heq]
        exact h
      · rw [heq]
        exact { h with
          frame := { hf with }
          overlay := fun _ => ⟨hn.filterEditing, hn.exportPrompt⟩
          fieldsSel := nofun }
  | closeDetail => exact { h with frame := { hf with }, overlay := absurd rfl, fieldsSel := nofun }
  | retarget =>
      obtain ⟨key, groupKey, groupBy, heq⟩ := s.retarget_eq
      rw [heq]
      exact { h with frame := { hf with } }
  | settingsSel i hi => exact { h with settingsSel := hi }
  | fieldsSel i hi => exact { h with fieldsSel := fun _ => hi }
  | move delta =>
      have hframe := hf.setCursor delta
      rw [TuiFrameState.setCursor_eq] at hframe ⊢
      exact { h with frame := hframe }
  | collapse group hnew => exact { h with frame := { hf with collapsed := hf.collapsed.cons hnew } }
  | expand group => exact { h with frame := { hf with collapsed := hf.collapsed.filter _ } }
  | view v hn =>
      exact { h with
        frame := { hf with }
        fieldsSel := fun hfields => absurd (hn.overlay.symm.trans hfields) nofun }
  | sortField id hid =>
      have hframe := hf.setCurrentSortField hid
      rw [TuiFrameState.setCurrentSortField_eq] at hframe ⊢
      exact { h with frame := hframe }
  | reverseSort =>
      obtain ⟨ifaceDesc, connDesc, heq⟩ := s.reverseSort_eq
      rw [heq]
      exact { h with frame := { hf with } }
  | regroup g hg =>
      exact { h with frame := { hf with groupBy := hg, connCursor := le_rfl, collapsed := .nil } }
  | groupBy g hg => exact { h with frame := { hf with groupBy := hg } }
  | toggleColumn id =>
      obtain ⟨process, container, heq⟩ := s.toggleOptionalColumn_eq id
      rw [heq]
      exact { h with frame := { hf with } }
  | theme i hi => exact { h with themeIdx := hi }
  | pollMs ms hms => exact { h with pollMs := hms }
  | switches => exact { h with frame := { hf with } }
  | eagerness mode => exact { h with }
  | editFilter hn =>
      exact { h with
        overlay := fun hoverlay => absurd hn.overlay hoverlay
        line := fun _ => hn.exportPrompt
        filterError := fun _ => rfl }
  | filterDraft draft => exact { h with filterError := absurd rfl }
  | cancelFilter =>
      exact { h with
        overlay := fun hoverlay => ⟨rfl, (h.overlay hoverlay).2⟩
        line := nofun
        filterError := absurd rfl }
  | commitFilter hediting => exact h.commitFilter T hediting
  | clearFilter =>
      exact { h with
        frame := { hf with connCursor := le_rfl }
        trimmed := rfl
        parses := congrArg ParseResult.error (parse_nil T)
        filter := congrArg ParseResult.expr (parse_nil T).symm }
  | promptExport draft hn =>
      exact { h with
        overlay := fun hoverlay => absurd hn.overlay hoverlay
        line := fun hediting => absurd (hn.filterEditing.symm.trans hediting) nofun }
  | exportDraft draft => exact { h with }
  | endExport => exact { h with overlay := fun hoverlay => ⟨(h.overlay hoverlay).1, rfl⟩, line := fun _ => rfl }
  | request pid hpid hnew =>
      rw [not_or] at hnew
      refine { h with requested := h.requested.cons hnew.2, inFlight := ?_ }
      intro p hp
      rcases List.mem_cons.mp hp with rfl | hp
      · exact ⟨Int32.not_le.mp hpid, hnew.1⟩
      · exact h.inFlight p hp

/-! ### Runs -/

section Runs
variable (compare : QString → QString → Int) (niceScale : F → F)

theorem WritesTo.valid {s s' : TuiKeyState F} {out : List (Effect F)} (h : WritesTo T s s' out)
    (hs : s.Valid T) : s'.Valid T :=
  h.keeps (fun _ _ _ hw => hw.valid T) hs

omit [Double F] in
theorem togglePaused_eq (s : TuiKeyState F) : ∃ s' running, togglePaused s = (s', [.smoothTimer running]) ∧
    s'.procDetails = s.procDetails ∧ s'.detailsRequested = s.detailsRequested := by
  unfold togglePaused
  split
  · exact ⟨_, _, rfl, rfl, rfl⟩
  · exact ⟨_, _, rfl, rfl, rfl⟩

theorem togglePaused_valid {s : TuiKeyState F} (h : s.Valid T) : (togglePaused s).1.Valid T := by
  unfold togglePaused
  split
  · exact { h with frame := { h.frame with frozen := fun _ => ⟨rfl, rfl⟩ } }
  · exact { h with frame := { h.frame with frozen := nofun } }

theorem onProcessDetails_valid {s : TuiKeyState F} (h : s.Valid T) (d : ProcessDetails) :
    (onProcessDetails d s).1.Valid T := by
  unfold onProcessDetails
  split
  · exact h
  · next hpid =>
      have hvalid : TuiKeyState.Valid T { s with
          procDetails := s.procDetails.insert d.pid d
          detailsRequested := s.detailsRequested.filter (· ≠ d.pid) } := by
        refine { h with
          requested := h.requested.filter _
          inFlight := fun pid hin => ?_
          details := fun pid d' hlookup => ?_ }
        · obtain ⟨hin, hne⟩ := List.mem_filter.mp hin
          obtain ⟨hpos, hnew⟩ := h.inFlight pid hin
          refine ⟨hpos, fun hmem => ?_⟩
          rcases (AList.mem_insert s.procDetails).mp hmem with heq | hmem
          · simp [heq] at hne
          · exact hnew hmem
        · rw [Hash.lookup_insert_ite] at hlookup
          split at hlookup
          · next heq =>
              cases hlookup
              exact ⟨heq ▸ Int32.not_le.mp hpid, heq.symm⟩
          · exact h.details pid d' hlookup
      dsimp only
      split
      · exact (requestRedraw_writes _).valid T hvalid
      · exact hvalid

/-- **An event keeps the state valid.** -/
theorem step_valid {s : TuiKeyState F} (h : s.Valid T) (e : Event F) :
    (step T compare niceScale s e).1.Valid T := by
  cases e with
  | key key o =>
      rcases handleKey_cases o key s with hwrites | htoggle
      · exact hwrites.valid T h
      · rw [step, htoggle]
        exact (requestRedraw_writes _).valid T (togglePaused_valid T h)
  | redraw body =>
      obtain ⟨pos, refs, ⟨hpos, -⟩, hrefs, heq⟩ := TuiFrameState.buildFrame_state T s.source.cachedHostname
        compare s.source.texts niceScale s.toTuiFrameState s.source.ifaceRows s.source.connAgg body
      have hf := h.frame
      simp only [step, TuiKeyState.build]
      rw [heq, TuiFrameState.setPosition_eq]
      refine { h with frame := { hf with ifaceCursor := ?_, connCursor := ?_, refs := hrefs } }
      · dsimp only
        split
        · exact hpos
        · exact hf.ifaceCursor
      · dsimp only
        split
        · exact hf.connCursor
        · exact hpos
  | data source =>
      have hsource : TuiKeyState.Valid T { s with source } := { h with }
      simp only [step, onDataChanged]
      split
      · exact hsource
      · exact (requestRedraw_writes _).valid T hsource
  | processDetails d => exact onProcessDetails_valid T h d
  | backendInfo caps =>
      have hcaps : TuiKeyState.Valid T { s with
          backendCaps := caps
          procWire := caps.contains "process-attribution-wire".toList
          contWire := caps.contains "container-attribution-wire".toList } :=
        { h with frame := { h.frame with } }
      exact (requestRedraw_writes _).valid T hcaps
  | flashTimeout => exact (redrawn_writes (.flash [])).valid T h
  | terminalResize => exact (requestRedraw_writes s).valid T h

/-- After a repaint the cursor is on a row that can be landed on, if there are any. -/
theorem redraw_cursor (s : TuiKeyState F) (body : Int) :
    let s' := (step T compare niceScale s (.redraw body)).1
    s'.rowRefs ≠ [] → ∃ ref, s'.refAtCursor = some ref ∧ ref.selectable := by
  obtain ⟨pos, refs, ⟨hpos, hlt⟩, hrefs, heq⟩ := TuiFrameState.buildFrame_state T s.source.cachedHostname
    compare s.source.texts niceScale s.toTuiFrameState s.source.ifaceRows s.source.connAgg body
  intro s' hne
  have hs' : s'.toTuiFrameState =
      { s.toTuiFrameState.setPosition pos with rowRefs := refs, cursorTarget := none } := heq
  rw [hs'] at hne ⊢
  have hcursor := hlt hne
  have hposition : TuiFrameState.position
      { s.toTuiFrameState.setPosition pos with rowRefs := refs, cursorTarget := none } = pos :=
    s.toTuiFrameState.position_setPosition pos
  have hat : atCursor pos.cursor refs = some (refs.get ⟨pos.cursor.toNat, by omega⟩) := by
    rw [atCursor, if_neg (by omega)]
    exact List.getElem?_eq_getElem _
  rw [TuiFrameState.refAtCursor, hposition]
  exact ⟨_, hat, hrefs.atCursor hat⟩

/-- **After any run** of keys, repaints, new data and replies the state is valid. -/
theorem run_valid {s : TuiKeyState F} (h : s.Valid T) (es : List (Event F)) :
    (run (step T compare niceScale) s es).1.Valid T :=
  run_invariant (TuiKeyState.Valid T) (fun _ e hs => step_valid T compare niceScale hs e) h es

/-! ### Requests -/

/-- The processes whose details are asked for. -/
def requests (out : List (Effect F)) : List Int32 :=
  out.filterMap fun
    | .requestDetails pid => some pid
    | _ => none

/-- A change asks for nothing and leaves the requests and replies alone, or makes one new request. -/
theorem Write.requests {s s' : TuiKeyState F} {out : List (Effect F)} (hw : Write T s s' out) :
    (requests out = [] ∧ s'.procDetails = s.procDetails ∧ s'.detailsRequested = s.detailsRequested) ∨
      ∃ pid, 0 < pid ∧ pid ∉ s.procDetails ∧ pid ∉ s.detailsRequested ∧ requests out = [pid] ∧
        s'.procDetails = s.procDetails ∧ s'.detailsRequested = pid :: s.detailsRequested := by
  cases hw with
  | request pid hpid hnew =>
      rw [not_or] at hnew
      exact .inr ⟨pid, Int32.not_le.mp hpid, hnew.1, hnew.2, rfl, rfl, rfl⟩
  | tell e he =>
      refine .inl ⟨?_, rfl, rfl⟩
      cases e with
      | requestDetails pid => exact he.elim
      | _ => rfl
  | commitFilter _ =>
      refine .inl ⟨rfl, ?_, ?_⟩
      · unfold Tui.commitFilter
        dsimp only
        split <;> rfl
      · unfold Tui.commitFilter
        dsimp only
        split <;> rfl
  | _ => exact .inl ⟨rfl, rfl, rfl⟩

/-- What is asked for is in flight or answered, is asked for once, and was not answered in `known`. -/
structure Asked (known : Hash Int32 ProcessDetails) (s : TuiKeyState F) (out : List (Effect F)) : Prop where
  nodup : (requests out).Nodup
  mem : ∀ pid ∈ requests out, pid ∈ s.procDetails ∨ pid ∈ s.detailsRequested
  fresh : ∀ pid ∈ requests out, 0 < pid ∧ pid ∉ known
  known : ∀ pid ∈ known, pid ∈ s.procDetails

section Asked
variable {T} {known : Hash Int32 ProcessDetails} {s s' : TuiKeyState F} {out out' : List (Effect F)}

omit [Double F] in
theorem requests_append (out out' : List (Effect F)) :
    requests (out ++ out') = requests out ++ requests out' := List.filterMap_append

omit [Double F] in
/-- Without a request, and with no reply or request taken back. -/
theorem Asked.quiet (h : Asked known s out) (hout : requests out' = [])
    (hmem : ∀ pid, pid ∈ s.procDetails ∨ pid ∈ s.detailsRequested →
      pid ∈ s'.procDetails ∨ pid ∈ s'.detailsRequested)
    (hknown : ∀ pid ∈ s.procDetails, pid ∈ s'.procDetails) : Asked known s' (out ++ out') := by
  have heq : requests (out ++ out') = requests out := by rw [requests_append, hout, List.append_nil]
  constructor
  · rw [heq]
    exact h.nodup
  · rw [heq]
    exact fun pid hpid => hmem pid (h.mem pid hpid)
  · rw [heq]
    exact h.fresh
  · exact fun pid hpid => hknown pid (h.known pid hpid)

theorem Asked.write (h : Asked known s out) (hw : Write T s s' out') : Asked known s' (out ++ out') := by
  rcases hw.requests with ⟨hout, hdetails, hrequested⟩ | ⟨pid, hpos, hnew, hidle, hout, hdetails, hrequested⟩
  · refine h.quiet hout ?_ ?_
    · rw [hdetails, hrequested]
      exact fun _ => id
    · rw [hdetails]
      exact fun _ => id
  · have hasked : pid ∉ requests out := fun hin => (h.mem pid hin).elim hnew hidle
    constructor
    · rw [requests_append, hout, List.nodup_append]
      refine ⟨h.nodup, List.nodup_singleton _, fun p hp q hq heq => ?_⟩
      rw [List.mem_singleton] at hq
      exact hasked (hq ▸ heq ▸ hp)
    · intro p hp
      rw [requests_append, hout, List.mem_append, List.mem_singleton] at hp
      rw [hdetails, hrequested]
      rcases hp with hp | rfl
      · exact (h.mem p hp).imp_right (List.mem_cons_of_mem _)
      · exact .inr List.mem_cons_self
    · intro p hp
      rw [requests_append, hout, List.mem_append, List.mem_singleton] at hp
      rcases hp with hp | rfl
      · exact h.fresh p hp
      · exact ⟨hpos, fun hk => hnew (h.known p hk)⟩
    · rw [hdetails]
      exact h.known

theorem Asked.writesTo (h : Asked known s out) (hw : WritesTo T s s' out') :
    Asked known s' (out ++ out') := by
  induction hw generalizing out with
  | refl => simpa using h
  | more hw _ ih =>
      rw [← List.append_assoc]
      exact ih (h.write hw)

omit [Double F] in
theorem Asked.redraw (h : Asked known s out) :
    Asked known (requestRedraw s).1 (out ++ (requestRedraw s).2) := by
  unfold requestRedraw
  split
  · simpa using h
  · exact h.quiet rfl (fun _ => id) fun _ => id

omit [Double F] in
/-- An event that only changes other members, with a repaint. -/
theorem Asked.other (h : Asked known s out) (hdetails : s'.procDetails = s.procDetails)
    (hrequested : s'.detailsRequested = s.detailsRequested) : Asked known s' out := by
  constructor
  · exact h.nodup
  · rw [hdetails, hrequested]
    exact h.mem
  · exact h.fresh
  · rw [hdetails]
    exact h.known

omit [Double F] in
theorem Asked.processDetails (h : Asked known s out) (d : ProcessDetails) :
    Asked known (onProcessDetails d s).1 (out ++ (onProcessDetails d s).2) := by
  unfold onProcessDetails
  split
  · simpa using h
  · have hreply : Asked known { s with
        procDetails := s.procDetails.insert d.pid d
        detailsRequested := s.detailsRequested.filter (· ≠ d.pid) } (out ++ []) := by
      refine h.quiet rfl ?_ fun pid hpid => (AList.mem_insert _).mpr (.inr hpid)
      intro pid hpid
      by_cases heq : pid = d.pid
      · exact .inl ((AList.mem_insert _).mpr (.inl heq))
      · rcases hpid with hin | hin
        · exact .inl ((AList.mem_insert _).mpr (.inr hin))
        · exact .inr (List.mem_filter.mpr ⟨hin, by simpa using heq⟩)
    rw [List.append_nil] at hreply
    dsimp only
    split
    · exact hreply.redraw
    · simpa using hreply

end Asked

theorem step_asked {known : Hash Int32 ProcessDetails} {s : TuiKeyState F} {out : List (Effect F)}
    (h : Asked known s out) (e : Event F) :
    Asked known (step T compare niceScale s e).1 (out ++ (step T compare niceScale s e).2) := by
  cases e with
  | key key o =>
      rcases handleKey_cases o key s with hwrites | htoggle
      · exact h.writesTo hwrites
      · obtain ⟨s', running, heq, hdetails, hrequested⟩ := togglePaused_eq s
        have hnotice : Asked known s' (out ++ [.smoothTimer running]) :=
          (h.write (T := T) (.tell (.smoothTimer running) trivial)).other hdetails hrequested
        rw [step, htoggle, Act.andThen, heq, ← List.append_assoc]
        exact hnotice.redraw
  | redraw body => exact h.quiet rfl (fun _ => id) fun _ => id
  | data source =>
      simp only [step, onDataChanged]
      split
      · exact h.quiet rfl (fun _ => id) fun _ => id
      · have hsource : Asked known { s with source } out := h.other rfl rfl
        exact hsource.redraw
  | processDetails d => exact h.processDetails d
  | backendInfo caps =>
      have hcaps : Asked known { s with
          backendCaps := caps
          procWire := caps.contains "process-attribution-wire".toList
          contWire := caps.contains "container-attribution-wire".toList } out := h.other rfl rfl
      exact hcaps.redraw
  | flashTimeout => exact h.writesTo (T := T) (redrawn_writes (.flash []))
  | terminalResize => exact h.redraw

/-- **The details of a process are asked for once**: in a run from any state, each request is for another
process, and for none whose details were there at the start. -/
theorem requested_nodup (s : TuiKeyState F) (es : List (Event F)) :
    (requests (run (step T compare niceScale) s es).2).Nodup ∧
      ∀ pid ∈ requests (run (step T compare niceScale) s es).2, 0 < pid ∧ pid ∉ s.procDetails := by
  have hstart : Asked s.procDetails s [] := ⟨.nil, nofun, nofun, fun _ => id⟩
  have hrun := run_trace_invariant (fun s' out => Asked s.procDetails s' out)
    (fun _ _ e h => step_asked T compare niceScale h e) [] hstart es
  rw [List.nil_append] at hrun
  exact ⟨hrun.nodup, hrun.fresh⟩

end Runs

end

end Qiftop.Tui
