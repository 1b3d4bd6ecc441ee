import Qiftop.Tui.KeyRuns

/-!
# Tui — pausing and typing a filter

Two stretches of a run that a key begins and another ends, with any other events in between.

* `run_paused`: while paused the tables show the rows of the moment of the pause.
* `run_filter_line`: what is typed into the filter line, and only that, is what Enter makes the filter of;
  Esc leaves the filter as it was.
-/

namespace Qiftop.Tui
open Qt Backend Aggregate Lib Qiftop.Filter

section
variable {F : Type} [Double F] (T : TextOps F) (compare : QString → QString → Int) (niceScale : F → F)

/-! ### Pausing -/

/-- What the rows shown depend on. -/
def TuiKeyState.pauseState (s : TuiKeyState F) :
    Bool × List (InterfaceRow F) × List (Row F) × Source F :=
  (s.paused, s.frozenIfaceRows, s.frozenConnRows, s.source)

theorem Write.pauseState {s s' : TuiKeyState F} {out : List (Effect F)} (hw : Write T s s' out) :
    s'.pauseState = s.pauseState := by
  cases hw with
  | openGroup hn =>
      rcases openGroupDetail_eq s.toTuiApp s.rowRefs with heq | ⟨key, heq⟩
      · rw [heq]
      · rw [heq]
        rfl
  | retarget =>
      obtain ⟨key, groupKey, groupBy, heq⟩ := s.retarget_eq
      rw [heq]
      rfl
  | move delta =>
      rw [TuiFrameState.setCursor_eq]
      rfl
  | sortField id hid =>
      rw [TuiFrameState.setCurrentSortField_eq]
      rfl
  | reverseSort =>
      obtain ⟨ifaceDesc, connDesc, heq⟩ := s.reverseSort_eq
      rw [heq]
      rfl
  | toggleColumn id =>
      obtain ⟨process, container, heq⟩ := s.toggleOptionalColumn_eq id
      rw [heq]
      rfl
  | commitFilter _ =>
      unfold Tui.commitFilter
      dsimp only
      split <;> rfl
  | _ => rfl

theorem WritesTo.pauseState {s s' : TuiKeyState F} {out : List (Effect F)} (h : WritesTo T s s' out) :
    s'.pauseState = s.pauseState :=
  h.keeps (I := fun s' => s'.pauseState = s.pauseState) (fun _ _ _ hw hs => hw.pauseState.trans hs) rfl

/-- The rows the tables show. -/
def TuiKeyState.shown (s : TuiKeyState F) : List (InterfaceRow F) × List (Row F) := (s.ifaceRows, s.connRows)

omit [Double F] in
theorem shown_of_pauseState {s s' : TuiKeyState F} (h : s'.pauseState = s.pauseState) :
    s'.shown = s.shown := by
  obtain ⟨hpaused, hrest⟩ := Prod.mk.inj h
  obtain ⟨hiface, hrest⟩ := Prod.mk.inj hrest
  obtain ⟨hconn, hsource⟩ := Prod.mk.inj hrest
  simp only [TuiKeyState.shown, TuiKeyState.ifaceRows, TuiKeyState.connRows, TuiFrameState.shownIfaceRows,
    TuiFrameState.shownConnRows, hpaused, hiface, hconn, hsource]

omit [Double F] in
theorem pauseState_requestRedraw (s : TuiKeyState F) : (requestRedraw s).1.pauseState = s.pauseState := by
  unfold requestRedraw
  split <;> rfl

omit [Double F] in
theorem shown_toggle (s : TuiKeyState F) :
    ((togglePaused.andThen requestRedraw) s).1.shown = (s.source.ifaceRows, s.source.connAgg.rows) := by
  refine (shown_of_pauseState (pauseState_requestRedraw _)).trans ?_
  unfold togglePaused
  split <;> rfl

omit [Double F] in
theorem paused_toggle (s : TuiKeyState F) :
    ((togglePaused.andThen requestRedraw) s).1.paused = !s.paused := by
  refine (congrArg Prod.fst (pauseState_requestRedraw (togglePaused s).1)).trans ?_
  unfold togglePaused
  split
  · next h => simp [TuiKeyState.pauseState, h]
  · next h => simp [TuiKeyState.pauseState, h]

/-- An event after which the tables are paused, as before, does not change the rows they show. -/
theorem step_shown {s : TuiKeyState F} (hs : s.paused = true) (e : Event F)
    (hs' : (step T compare niceScale s e).1.paused = true) :
    (step T compare niceScale s e).1.shown = s.shown := by
  cases e with
  | key key o =>
      rcases handleKey_cases o key s with hwrites | htoggle
      · exact shown_of_pauseState hwrites.pauseState
      · -- it would have resumed
        rw [step, htoggle, paused_toggle, hs] at hs'
        cases hs'
  | redraw body =>
      obtain ⟨pos, refs, -, -, heq⟩ := TuiFrameState.buildFrame_state T s.source.cachedHostname
        compare s.source.texts niceScale s.toTuiFrameState s.source.ifaceRows s.source.connAgg body
      refine shown_of_pauseState ?_
      simp only [step, TuiKeyState.build]
      rw [heq, TuiFrameState.setPosition_eq]
      rfl
  | data source =>
      have hstep : step T compare niceScale s (.data source) = ({ s with source }, []) := by
        simp [step, onDataChanged, hs]
      rw [hstep]
      simp [TuiKeyState.shown, TuiKeyState.ifaceRows, TuiKeyState.connRows, TuiFrameState.shownIfaceRows,
        TuiFrameState.shownConnRows, hs]
  | processDetails d =>
      refine shown_of_pauseState ?_
      simp only [step, onProcessDetails]
      split
      · rfl
      · split
        · exact pauseState_requestRedraw _
        · rfl
  | backendInfo caps => exact shown_of_pauseState (pauseState_requestRedraw _)
  | flashTimeout => exact shown_of_pauseState (redrawn_writes (T := T) (.flash [])).pauseState
  | terminalResize => exact shown_of_pauseState (pauseState_requestRedraw s)

theorem run_shown {s : TuiKeyState F} (hs : s.paused = true) (es : List (Event F))
    (hes : EachStep (step T compare niceScale)
      (fun s e => (step T compare niceScale s e).1.paused = true) s es) :
    (run (step T compare niceScale) s es).1.shown = s.shown ∧
      (run (step T compare niceScale) s es).1.paused = true := by
  induction es generalizing s with
  | nil => exact ⟨rfl, hs⟩
  | cons e es ih =>
      obtain ⟨hpaused, hrest⟩ := hes
      obtain ⟨hshown, hlast⟩ := ih hpaused hrest
      exact ⟨hshown.trans (step_shown T compare niceScale hs e hpaused), hlast⟩

/-- A key goes to the table when nothing else takes it. -/
theorem handleKey_normal {s : TuiKeyState F} (hs : s.Normal) (o : Outside) (key : Key) :
    handleKey T o key s = (command key).elim Act.skip (exec T o) s := by
  simp only [handleKey, hs.overlay, hs.filterEditing, hs.exportPrompt, Bool.false_eq_true, if_false]

theorem handleKey_pause {s : TuiKeyState F} (hs : s.Normal) (o : Outside) :
    handleKey T o (.chr 'p') s = (togglePaused.andThen requestRedraw) s :=
  handleKey_normal T hs o (.chr 'p')

/-- **A pause holds**: from the key that pauses on, as long as no key resumes, the tables show the rows of
the moment of the key, whatever else is pressed and arrives, and new rows ask for no repaint; resuming
shows the rows that have arrived by then. -/
theorem run_paused {s : TuiKeyState F} (hs : s.Normal) (hlive : s.paused = false) (o : Outside)
    (es : List (Event F))
    (hes : EachStep (step T compare niceScale)
      (fun s e => (step T compare niceScale s e).1.paused = true)
      (step T compare niceScale s (.key (.chr 'p') o)).1 es) :
    let s' := (run (step T compare niceScale) s (.key (.chr 'p') o :: es)).1
    s'.shown = (s.source.ifaceRows, s.source.connAgg.rows) ∧
      (∀ source, step T compare niceScale s' (.data source) = ({ s' with source }, [])) ∧
      (s'.Normal → ∀ o', (step T compare niceScale s' (.key (.chr 'p') o')).1.shown =
        (s'.source.ifaceRows, s'.source.connAgg.rows)) := by
  intro s'
  have hpause := handleKey_pause T hs o
  have hpaused : (step T compare niceScale s (.key (.chr 'p') o)).1.paused = true := by
    rw [step, hpause, paused_toggle, hlive]
    rfl
  obtain ⟨hshown, hlast⟩ := run_shown T compare niceScale hpaused es hes
  refine ⟨?_, fun source => ?_, fun hs' o' => ?_⟩
  · refine hshown.trans ?_
    rw [step, hpause]
    exact shown_toggle s
  · simp only [step, onDataChanged]
    exact if_pos hlast
  · rw [step, handleKey_pause T hs' o']
    exact shown_toggle s'

/-! ### The filter line -/

/-- What a key makes of the text in an input line. -/
def typed (draft : QString) (key : Key) : QString :=
  match inputCommand key with
  | some (.append c) => draft ++ [c]
  | some .chop => draft.dropLast
  | _ => draft

/-- What an event makes of it. -/
def typedBy (draft : QString) : Event F → QString
  | .key key _ => typed draft key
  | _ => draft

/-- Neither Enter nor Esc. -/
def Event.StaysInLine : Event F → Prop
  | .key k _ => inputCommand k ≠ some .accept ∧ inputCommand k ≠ some .cancel
  | _ => True

/-- The filter line is open, with this text in it and this filter behind it. -/
structure InLine (draft text : QString) (expr : ExprPtr F) (s : TuiKeyState F) : Prop where
  overlay : s.overlay = .None
  editing : s.filterEditing = true
  prompt : s.exportPrompt = false
  draft : s.filterDraft = draft
  text : s.filterText = text
  expr : s.filterExpr = expr

section Line
variable {draft text : QString} {expr : ExprPtr F} {s : TuiKeyState F}

omit [Double F] in
theorem requestRedraw_eq (s : TuiKeyState F) : ∃ pending,
    (requestRedraw s).1 = { s with redrawPending := pending } := by
  unfold requestRedraw
  split
  · exact ⟨_, rfl⟩
  · exact ⟨_, rfl⟩

omit [Double F] in
theorem InLine.redraw (h : InLine draft text expr s) : InLine draft text expr (requestRedraw s).1 := by
  unfold requestRedraw
  split
  · exact h
  · exact { h with }

theorem handleKey_line (h : InLine draft text expr s) (o : Outside) (key : Key) :
    handleKey T o key s = handleFilterKey T key s := by
  simp only [handleKey, h.overlay, h.editing, if_true]

/-- **An event leaves the line open** and the filter alone, and a key changes the text as it is typed. -/
theorem step_line (h : InLine draft text expr s) {e : Event F} (he : e.StaysInLine) :
    InLine (typedBy draft e) text expr (step T compare niceScale s e).1 := by
  cases e with
  | key key o =>
      rw [step, handleKey_line T h, handleFilterKey, typedBy, typed]
      unfold Event.StaysInLine at he
      cases hcommand : inputCommand key with
      | none => exact h
      | some c =>
          cases c with
          | cancel => exact absurd hcommand he.2
          | accept => exact absurd hcommand he.1
          | chop =>
              refine InLine.redraw (s := { s with
                filterDraft := s.filterDraft.dropLast, filterError := [] }) ?_
              exact { h with draft := congrArg List.dropLast h.draft }
          | append c =>
              refine InLine.redraw (s := { s with filterDraft := s.filterDraft ++ [c], filterError := [] }) ?_
              exact { h with draft := congrArg (· ++ [c]) h.draft }
          | resize => exact h.redraw
  | redraw body =>
      obtain ⟨pos, refs, -, -, heq⟩ := TuiFrameState.buildFrame_state T s.source.cachedHostname
        compare s.source.texts niceScale s.toTuiFrameState s.source.ifaceRows s.source.connAgg body
      simp only [step, TuiKeyState.build]
      rw [heq, TuiFrameState.setPosition_eq]
      exact { h with }
  | data source =>
      have hsource : InLine draft text expr { s with source } := { h with }
      simp only [step, onDataChanged]
      split
      · exact hsource
      · exact hsource.redraw
  | processDetails d =>
      simp only [step, onProcessDetails]
      split
      · exact h
      · have hreply : InLine draft text expr { s with
            procDetails := s.procDetails.insert d.pid d
            detailsRequested := s.detailsRequested.filter (· ≠ d.pid) } := { h with }
        split
        · exact hreply.redraw
        · exact hreply
  | backendInfo caps =>
      refine InLine.redraw (s := { s with
        backendCaps := caps
        procWire := caps.contains "process-attribution-wire".toList
        contWire := caps.contains "container-attribution-wire".toList }) ?_
      exact { h with }
  | flashTimeout =>
      refine InLine.redraw (s := { s with flashMsg := [] }) ?_
      exact { h with }
  | terminalResize => exact h.redraw

theorem run_line (h : InLine draft text expr s) (es : List (Event F)) (hes : ∀ e ∈ es, e.StaysInLine) :
    InLine (es.foldl typedBy draft) text expr (run (step T compare niceScale) s es).1 := by
  induction es generalizing s draft with
  | nil => exact h
  | cons e es ih =>
      rw [List.forall_mem_cons] at hes
      exact ih (step_line T compare niceScale h hes.1) hes.2

end Line

/-- `/` opens the line with the text of the filter. -/
theorem InLine.opened {s : TuiKeyState F} (hs : s.Normal) (o : Outside) :
    InLine s.filterText s.filterText s.filterExpr
      (step T compare niceScale s (.key (.chr '/') o)).1 := by
  rw [step, handleKey_normal T hs]
  exact InLine.redraw (s := { s with filterEditing := true, filterDraft := s.filterText })
    ⟨hs.overlay, rfl, hs.exportPrompt, rfl, rfl, rfl⟩

/-- **A filter is what was typed**: `/`, any events but Enter and Esc, then Enter, in whichever way the
terminal reports it: the text in the line, trimmed, becomes the filter if it parses; if not, it stays in
the line, with the error, and the filter is the one before.  Esc in place of Enter closes the line and
leaves the filter as it was. -/
theorem run_filter_line {s : TuiKeyState F} (hs : s.Normal) (o o' : Outside) (es : List (Event F))
    (hes : ∀ e ∈ es, e.StaysInLine) :
    let line := es.foldl typedBy s.filterText
    let res := parse T (T.trimmed line)
    let ends := fun key => (run (step T compare niceScale) s
      (.key (.chr '/') o :: es ++ [.key key o'])).1
    (∀ key, inputCommand key = some .accept →
      if res.error = [] then (ends key).filterText = T.trimmed line ∧
        (ends key).filterExpr = res.expr ∧ (ends key).Normal
      else InLine line s.filterText s.filterExpr (ends key) ∧ (ends key).filterError = res.error) ∧
      ∀ key, inputCommand key = some .cancel → (ends key).filterText = s.filterText ∧
        (ends key).filterExpr = s.filterExpr ∧ (ends key).Normal := by
  intro line res ends
  have hline : InLine line s.filterText s.filterExpr
      (run (step T compare niceScale) s (.key (.chr '/') o :: es)).1 :=
    run_line T compare niceScale (InLine.opened T compare niceScale hs o) es hes
  have hends : ∀ key c, inputCommand key = some c → ends key = (execFilter T c
      (run (step T compare niceScale) s (.key (.chr '/') o :: es)).1).1 := by
    intro key c hcommand
    simp only [ends]
    rw [run_concat, step, handleKey_line T hline, handleFilterKey, hcommand]
    rfl
  generalize (run (step T compare niceScale) s (.key (.chr '/') o :: es)).1 = s' at hline hends
  refine ⟨fun key hkey => ?_, fun key hkey => ?_⟩
  · obtain ⟨pending, hredraw⟩ := requestRedraw_eq (commitFilter T s')
    have haccept : (execFilter T .accept s').1 = { commitFilter T s' with redrawPending := pending } :=
      hredraw
    rw [hends key .accept hkey, haccept]
    unfold Tui.commitFilter
    rw [hline.draft]
    dsimp only
    by_cases herror : res.error = []
    · rw [if_pos herror, if_neg (by simpa using herror)]
      exact ⟨rfl, rfl, hline.overlay, rfl, hline.prompt⟩
    · rw [if_neg herror, if_pos (by simpa using herror)]
      exact ⟨{ hline with draft := rfl }, rfl⟩
  · obtain ⟨pending, hredraw⟩ := requestRedraw_eq { s' with
      filterEditing := false, filterError := [], filterDraft := s'.filterText }
    have hcancel : (execFilter T .cancel s').1 = { s' with
        filterEditing := false, filterError := [], filterDraft := s'.filterText
        redrawPending := pending } := hredraw
    rw [hends key .cancel hkey, hcancel]
    exact ⟨hline.text, hline.expr, hline.overlay, rfl, hline.prompt⟩

end

/-- Three flows in an ungrouped table. -/
def threeFlowsApp : TuiKeyState ℚ := { source := { connAgg := { rows := threeFlows }, texts := plainTexts } }

/-- Paused, the flows stay when they are gone from the aggregator. -/
theorem threeFlowsApp_paused :
    (run (step .ascii (fun _ _ => 0) id) threeFlowsApp
      [.key (.chr 'p') {}, .data { texts := plainTexts }, .key (.chr 'j') {}]).1.connRows = threeFlows := by
  have hpaused := run_paused .ascii (fun _ _ => 0) id (s := threeFlowsApp) ⟨rfl, rfl, rfl⟩ rfl {}
    [.data { texts := plainTexts }, .key (.chr 'j') {}] ⟨rfl, rfl, trivial⟩
  exact congrArg Prod.snd hpaused.1

/-- A slip and its correction, rows that arrive, and the rest of a text. -/
def typing : List (Event ℚ) :=
  [.key (.chr 'x') {}, .key .backspace {}, .data { texts := plainTexts }] ++
    "proto:udp".toList.map fun c => .key (.chr c) {}

theorem threeFlowsApp_filtered :
    (run (step .ascii (fun _ _ => 0) id) threeFlowsApp
      (.key (.chr '/') {} :: typing ++ [.key (.chr '\x0d') {}])).1.filterText = "proto:udp".toList := by
  have hstays : ∀ e ∈ typing, e.StaysInLine := by
    simp [typing, Event.StaysInLine, inputCommand, Key.printable]
  have hline := (run_filter_line .ascii (fun _ _ => 0) id (s := threeFlowsApp) ⟨rfl, rfl, rfl⟩ {} {}
    typing hstays).1 (.chr '\x0d') rfl
  have herror : (parse (F := ℚ) .ascii (TextOps.ascii.trimmed
      (typing.foldl typedBy threeFlowsApp.filterText))).error = [] := by decide +kernel
  rw [if_pos herror] at hline
  exact hline.1.trans (by decide +kernel)

end Qiftop.Tui
