import Qiftop.Tui.Keys

/-!
# Tui — what a key can do

Whatever the key and the mode, `handleKey` makes a few of the changes of `Write` one after the other, each
with its guard, or it pauses or resumes.  What is to hold after any key is proved of these changes.

* `handleKey_cases`: a key makes such changes and no others, or pauses or resumes.
* `WritesTo.keeps`: what each of them keeps, a key keeps.
-/

namespace Qiftop.Tui
open Qt Backend Aggregate Lib Qiftop.Filter

variable {F : Type} [Double F] (T : TextOps F)

/-- The keys go to the table. -/
structure TuiKeyState.Normal (s : TuiKeyState F) : Prop where
  overlay : s.overlay = .None
  filterEditing : s.filterEditing = false
  exportPrompt : s.exportPrompt = false

/-- What is told besides a request for details. -/
def Effect.Notice : Effect F → Prop
  | .requestDetails _ => False
  | _ => True

/-- The columns a table can be sorted by. -/
def TuiFrameState.Sortable (app : TuiFrameState F) (id : ColumnId) : Prop :=
  id ∈ (overlayColumnsFor app.view).map Column.id

/-- One change, with what is told about it. -/
inductive Write (s : TuiKeyState F) : TuiKeyState F → List (Effect F) → Prop where
  | redraw : Write s { s with redrawPending := true } [.startRedraw]
  | tell (e : Effect F) (h : e.Notice) : Write s s [e]
  | flash (msg : QString) : Write s { s with flashMsg := msg } []
  -- overlays
  | close : Write s { s with overlay := .None } []
  | openPanel (o : Overlay) (h : s.Normal) (ho : o ≠ .Fields) : Write s { s with overlay := o } []
  | openFields (h : s.Normal) : Write s { s with fieldsSel := s.sortRow, overlay := .Fields } []
  | openDetail (key : QString) (h : s.Normal) :
      Write s { s with
        detailKey := key, detailView := s.view, detailGroupKey := [], detailGroupBy := .None
        overlay := .Detail } []
  | openGroup (h : s.Normal) : Write s { s with toTuiApp := openGroupDetail s.toTuiApp s.rowRefs } []
  | closeDetail : Write s { s with overlay := .None, detailGroupKey := [], detailGroupBy := .None } []
  | retarget : Write s { s with toTuiFrameState := s.retarget } []
  | settingsSel (i : ℕ) (h : i < settingItems.length) : Write s { s with settingsSel := i } []
  | fieldsSel (i : ℕ) (h : i < (overlayColumnsFor s.view).length) : Write s { s with fieldsSel := i } []
  -- the table
  | move (delta : Int) :
      Write s { s with toTuiFrameState := s.setCursor (moveCursor s.rowRefs s.position.cursor delta) } []
  | collapse (group : QString) (h : group ∉ s.collapsedGroups) :
      Write s { s with toTuiFrameState := s.collapse group } []
  | expand (group : QString) : Write s { s with toTuiFrameState := s.expand group } []
  | view (v : View) (h : s.Normal) : Write s { s with view := v } []
  | sortField (id : ColumnId) (h : s.Sortable id) :
      Write s { s with toTuiFrameState := s.setCurrentSortField id } []
  | reverseSort : Write s { s with toTuiFrameState := s.reverseSort } []
  | regroup (g : GroupBy) (h : g ≠ .Count) :
      Write s { s with groupBy := g, connCursor := 0, collapsedGroups := [] } []
  | groupBy (g : GroupBy) (h : g ≠ .Count) : Write s { s with groupBy := g, connScroll := 0 } []
  | toggleColumn (id : ColumnId) : Write s { s with toTuiFrameState := s.toggleOptionalColumn id } []
  -- settings
  | theme (i : ℕ) (h : i < builtinThemes) : Write s { s with themeIdx := i } []
  | pollMs (ms : Int) (h : 100 ≤ ms ∧ ms ≤ 10000) : Write s { s with pollMs := ms } []
  | switches (gauge directions dns udp smooth within : Bool) :
      Write s { s with
        gaugeEnabled := gauge, directionColors := directions, dnsEnabled := dns, udpAggregate := udp
        smoothing := smooth, sortWithinGroups := within } []
  | eagerness (mode : QString) : Write s { s with attributionEagerness := mode } []
  -- input lines
  | editFilter (h : s.Normal) : Write s { s with filterEditing := true, filterDraft := s.filterText } []
  | filterDraft (draft : QString) : Write s { s with filterDraft := draft, filterError := [] } []
  | cancelFilter :
      Write s { s with filterEditing := false, filterError := [], filterDraft := s.filterText } []
  | commitFilter (h : s.filterEditing = true) : Write s (commitFilter T s) []
  | clearFilter : Write s { s with filterText := [], filterExpr := .null, connCursor := 0 } []
  | promptExport (draft : QString) (h : s.Normal) :
      Write s { s with exportDraft := draft, exportPrompt := true } []
  | exportDraft (draft : QString) : Write s { s with exportDraft := draft } []
  | endExport : Write s { s with exportPrompt := false } []
  -- details
  | request (pid : Int32) (hpid : ¬ pid ≤ 0) (h : ¬ (pid ∈ s.procDetails ∨ pid ∈ s.detailsRequested)) :
      Write s { s with detailsRequested := pid :: s.detailsRequested } [.requestDetails pid]

/-- Any number of changes. -/
inductive WritesTo : TuiKeyState F → TuiKeyState F → List (Effect F) → Prop where
  | refl (s : TuiKeyState F) : WritesTo s s []
  | more {s s₁ s' : TuiKeyState F} {out out' : List (Effect F)} (h : Write T s s₁ out)
      (t : WritesTo s₁ s' out') : WritesTo s s' (out ++ out')

/-- What an act does to a state is to make such changes. -/
abbrev Act.WritesAt (a : Act F) (s : TuiKeyState F) : Prop := WritesTo T s (a s).1 (a s).2

section Rules
variable {T} {s s' s'' : TuiKeyState F} {out out' : List (Effect F)} {a b : Act F}

theorem WritesTo.one (h : Write T s s' out) : WritesTo T s s' out := by
  simpa using WritesTo.more h (.refl s')

theorem WritesTo.trans (h : WritesTo T s s' out) (h' : WritesTo T s' s'' out') :
    WritesTo T s s'' (out ++ out') := by
  induction h with
  | refl => exact h'
  | more h _ ih =>
      rw [List.append_assoc]
      exact .more h (ih h')

/-- What every change keeps, any number of them keep. -/
theorem WritesTo.keeps {I : TuiKeyState F → Prop}
    (hI : ∀ s s' out, Write T s s' out → I s → I s') (h : WritesTo T s s' out) (hs : I s) : I s' := by
  induction h with
  | refl => exact hs
  | more h _ ih => exact ih (hI _ _ _ h hs)

theorem Act.WritesAt.andThen (ha : a.WritesAt T s) (hb : ∀ s, b.WritesAt T s) : (a.andThen b).WritesAt T s :=
  ha.trans (hb _)

theorem Act.writesAt_skip : Act.skip.WritesAt T s := .refl s

theorem Act.writesAt_change {f : TuiKeyState F → TuiKeyState F} (h : Write T s (f s) []) :
    (Act.change f).WritesAt T s := .one h

theorem Act.writesAt_emit {e : Effect F} (h : e.Notice) : (Act.emit e).WritesAt T s := .one (.tell e h)

theorem requestRedraw_writes (s : TuiKeyState F) : requestRedraw.WritesAt T s := by
  unfold Act.WritesAt requestRedraw
  split
  · exact .refl s
  · exact .one .redraw

theorem redrawn_writes {f : TuiKeyState F → TuiKeyState F} (h : Write T s (f s) []) :
    (redrawn f).WritesAt T s :=
  (Act.writesAt_change h).andThen requestRedraw_writes

theorem flashMessage_writes (msg : QString) (s : TuiKeyState F) : (flashMessage msg).WritesAt T s :=
  ((Act.writesAt_change (.flash msg)).andThen fun _ => Act.writesAt_emit (e := .startFlash) trivial).andThen
    requestRedraw_writes

/-- A key without a command does nothing. -/
theorem writesAt_elim {C : Type} {exec : C → Act F} (hexec : ∀ c, (exec c).WritesAt T s) (c : Option C) :
    (c.elim Act.skip exec).WritesAt T s := by
  cases c with
  | none => exact Act.writesAt_skip
  | some c => exact hexec c

end Rules

/-! ### Actions -/

section Actions
variable {T} {s : TuiKeyState F}

theorem ensureProcessDetails_writes (pid : Int32) (s : TuiKeyState F) :
    (ensureProcessDetails pid).WritesAt T s := by
  unfold Act.WritesAt ensureProcessDetails
  split
  · exact .refl s
  · split
    · exact .refl s
    · exact .one (.request pid ‹_› ‹_›)

theorem warm_writes (rows : List (Row F)) (p : Row F → Bool) (s : TuiKeyState F) :
    (warm rows p).WritesAt T s := by
  unfold warm
  split
  · split
    · exact ensureProcessDetails_writes _ s
    · exact Act.writesAt_skip
  · exact Act.writesAt_skip

theorem moveCursorBy_writes (delta : Int) (s : TuiKeyState F) : (moveCursorBy delta).WritesAt T s :=
  redrawn_writes (.move delta)

theorem openDetail_writes (h : s.Normal) : openDetail.WritesAt T s := by
  unfold Act.WritesAt openDetail
  split
  · exact .refl s
  · split
    · exact .refl s
    · refine ((Act.writesAt_change (.openDetail _ h)).andThen fun s => ?_).andThen requestRedraw_writes
      dsimp only [Act.WritesAt]
      split
      · exact warm_writes _ _ s
      · exact .refl s

theorem openGroup_writes (h : s.Normal) : openGroup.WritesAt T s := by
  unfold Act.WritesAt openGroup
  split
  · exact .refl s
  · split
    · exact .refl s
    · split
      · exact .refl s
      · refine ((Act.writesAt_change (.openGroup h)).andThen fun s => ?_).andThen requestRedraw_writes
        dsimp only [Act.WritesAt]
        split
        · exact warm_writes _ _ s
        · exact .refl s

theorem collapseAtCursor_writes (s : TuiKeyState F) : collapseAtCursor.WritesAt T s := by
  unfold Act.WritesAt collapseAtCursor
  split
  · exact .refl s
  · split
    · exact .refl s
    · next hnew => exact redrawn_writes (.collapse _ (by simpa using hnew))

theorem expandAtCursor_writes (s : TuiKeyState F) : expandAtCursor.WritesAt T s := by
  unfold Act.WritesAt expandAtCursor
  split
  · exact .refl s
  · split
    · exact .refl s
    · split
      · exact redrawn_writes (.expand _)
      · exact .refl s

theorem toggleCollapseAtCursor_writes (s : TuiKeyState F) : toggleCollapseAtCursor.WritesAt T s := by
  unfold Act.WritesAt toggleCollapseAtCursor
  split
  · exact .refl s
  · next ref _ =>
      split
      · exact .refl s
      · refine redrawn_writes ?_
        by_cases hcollapsed : s.collapsedGroups.contains ref.groupKey
        · rw [if_pos hcollapsed]
          exact .expand _
        · rw [if_neg hcollapsed]
          exact .collapse _ (by simpa using hcollapsed)

theorem cycleAttributionEagerness_writes (s : TuiKeyState F) :
    cycleAttributionEagerness.WritesAt T s := by
  unfold Act.WritesAt cycleAttributionEagerness
  split
  · exact flashMessage_writes _ s
  · exact (((Act.writesAt_change (.eagerness _)).andThen fun _ => Act.writesAt_emit
      (e := .requestEagerness _) trivial).andThen (flashMessage_writes _)).andThen fun _ =>
        (Act.writesAt_emit (e := .saveSettings) trivial).andThen requestRedraw_writes

theorem setThemeTo_writes {i : ℕ} (h : i < builtinThemes) (s : TuiKeyState F) :
    (setThemeTo i).WritesAt T s :=
  (Act.writesAt_change (.theme i h)).andThen fun _ => Act.writesAt_emit (e := .setTheme i) trivial

theorem exportCurrentView_writes (o : Outside) (explicitPath : QString) (s : TuiKeyState F) :
    (exportCurrentView T o explicitPath).WritesAt T s := by
  unfold Act.WritesAt exportCurrentView
  dsimp only
  split
  · exact (Act.writesAt_emit (e := .save _ _) trivial).andThen (flashMessage_writes _)
  · exact flashMessage_writes _ s

end Actions

/-! ### The sort field -/

section Sorting

omit [Double F] in
/-- The columns shown are among those the table can be sorted by. -/
theorem activeColumns_sortable {app : TuiFrameState F} {c : Column} (h : c ∈ app.activeColumns) :
    app.Sortable c.id := by
  unfold TuiFrameState.activeColumns at h
  unfold TuiFrameState.Sortable
  cases hview : app.view with
  | Interfaces =>
      rw [hview] at h
      exact List.mem_map.mpr ⟨c, h, rfl⟩
  | Connections =>
      rw [hview] at h
      simp only [columnsFor, List.mem_append, List.mem_cons, List.not_mem_nil, or_false] at h
      rcases h with (((rfl | rfl | rfl | rfl | rfl) | h) | h)
      · decide
      · decide
      · decide
      · decide
      · decide
      · split at h
        · obtain rfl := List.mem_singleton.mp h
          decide
        · cases h
      · split at h
        · obtain rfl := List.mem_singleton.mp h
          decide
        · cases h

omit [Double F] in
theorem cycleSortField_eq (app : TuiFrameState F) :
    (∃ id, app.Sortable id ∧ app.cycleSortField = app.setCurrentSortField id) ∨
      app.cycleSortField = app := by
  unfold TuiFrameState.cycleSortField
  dsimp only
  split
  · next c hc => exact .inl ⟨c.id, activeColumns_sortable (List.mem_of_getElem? hc), rfl⟩
  · exact .inr rfl

omit [Double F] in
theorem overlayColumns_toColumn (app : TuiFrameState F) :
    app.overlayColumns.map OverlayColumn.toColumn = overlayColumnsFor app.view := by
  rw [TuiFrameState.overlayColumns, List.map_map]
  refine (List.map_congr_left fun c _ => ?_).trans (List.map_id _)
  dsimp only [Function.comp_apply]
  split <;> rfl

omit [Double F] in
theorem ofIndex_ne_count (n : ℕ) : GroupBy.ofIndex (n % GroupBy.Count.index) ≠ .Count := by
  have hlt : n % GroupBy.Count.index < 4 := Nat.mod_lt _ (by decide)
  have hall : ∀ i < 4, GroupBy.ofIndex i ≠ .Count := by decide
  exact hall _ hlt

omit [Double F] in
theorem around_lt {n : ℕ} (hn : 0 < n) (sel : ℕ) (up : Bool) : around n sel up < n := by
  unfold around
  split
  · exact Nat.mod_lt _ hn
  · exact Nat.mod_lt _ hn

end Sorting

/-! ### The handlers -/

section Handlers
variable {T} {s : TuiKeyState F}

theorem exec_writes (h : s.Normal) (o : Outside) {c : Command} (hc : c ≠ .pause) :
    (exec T o c).WritesAt T s := by
  cases c with
  | quit => exact Act.writesAt_emit (e := .quit) trivial
  | settings => exact redrawn_writes (.openPanel .Settings h (by decide))
  | fields => exact redrawn_writes (.openFields h)
  | help => exact redrawn_writes (.openPanel .Help h (by decide))
  | about => exact redrawn_writes (.openPanel .About h (by decide))
  | eagerness => exact (cycleAttributionEagerness_writes s).andThen requestRedraw_writes
  | pause => exact absurd rfl hc
  | «export» => exact (exportCurrentView_writes o [] s).andThen requestRedraw_writes
  | exportPrompt => exact (redrawn_writes (.promptExport _ h)).andThen requestRedraw_writes
  | filter => exact redrawn_writes (.editFilter h)
  | clearFilter =>
      unfold Act.WritesAt exec
      dsimp only
      split
      · exact redrawn_writes .clearFilter
      · exact .refl s
  | otherView => exact redrawn_writes (.view _ h)
  | view v => exact redrawn_writes (.view v h)
  | cycleSort =>
      rcases cycleSortField_eq s.toTuiFrameState with ⟨id, hid, heq⟩ | heq
      · refine redrawn_writes ?_
        rw [heq]
        exact .sortField id hid
      · have hsame : exec T o .cycleSort s = requestRedraw s := by
          simp only [exec, redrawn, Act.andThen, Act.change, heq, List.nil_append]
        rw [Act.WritesAt, hsame]
        exact requestRedraw_writes s
  | reverse => exact redrawn_writes .reverseSort
  | theme =>
      exact (setThemeTo_writes (Nat.mod_lt _ (by decide)) s).andThen requestRedraw_writes
  | group => exact redrawn_writes (.regroup _ (ofIndex_ne_count _))
  | moveBy delta => exact (moveCursorBy_writes _ s).andThen requestRedraw_writes
  | enter =>
      refine Act.WritesAt.andThen ?_ requestRedraw_writes
      dsimp only [Act.WritesAt]
      split
      · exact openGroup_writes h
      · exact openDetail_writes h
  | space =>
      refine Act.WritesAt.andThen ?_ requestRedraw_writes
      dsimp only [Act.WritesAt]
      split
      · exact toggleCollapseAtCursor_writes s
      · exact openDetail_writes h
  | expand =>
      refine Act.WritesAt.andThen ?_ requestRedraw_writes
      dsimp only [Act.WritesAt]
      split
      · exact expandAtCursor_writes s
      · exact openDetail_writes h
  | collapse => exact (collapseAtCursor_writes s).andThen requestRedraw_writes
  | resize => exact requestRedraw_writes s

theorem handleInfoKey_writes (key : Key) (s : TuiKeyState F) : (handleInfoKey key).WritesAt T s := by
  unfold handleInfoKey
  split
  · exact requestRedraw_writes s
  · exact redrawn_writes .close

theorem browse_writes (delta : Int) (s : TuiKeyState F) : (browse delta).WritesAt T s :=
  (moveCursorBy_writes delta s).andThen fun _ => redrawn_writes .retarget

theorem handleDetailKey_writes (key : Key) (s : TuiKeyState F) : (handleDetailKey key).WritesAt T s := by
  unfold handleDetailKey
  split
  · exact browse_writes 1 s
  · exact browse_writes 1 s
  · exact browse_writes (-1) s
  · exact browse_writes (-1) s
  · exact requestRedraw_writes s
  · exact redrawn_writes .closeDetail

theorem execFields_writes {sel : OverlayColumn} (hsel : s.Sortable sel.id) (c : FieldsCommand) :
    (execFields sel (overlayColumnsFor s.view).length c).WritesAt T s := by
  have hpos : 0 < (overlayColumnsFor s.view).length := by cases s.view <;> decide
  cases c with
  | close => exact redrawn_writes .close
  | move up => exact redrawn_writes (.fieldsSel _ (around_lt hpos _ up))
  | toggle =>
      unfold execFields
      dsimp only
      split
      · exact redrawn_writes (.toggleColumn _)
      · split
        · exact (flashMessage_writes _ s).andThen requestRedraw_writes
        · exact requestRedraw_writes s
  | sort =>
      refine redrawn_writes ?_
      by_cases hcurrent : s.currentSortField = sel.id
      · rw [if_pos hcurrent]
        exact .reverseSort
      · rw [if_neg hcurrent]
        exact .sortField _ hsel
  | reverse => exact redrawn_writes .reverseSort
  | resize => exact requestRedraw_writes s

theorem handleFieldsKey_writes (key : Key) (s : TuiKeyState F) : (handleFieldsKey key).WritesAt T s := by
  have hcols := overlayColumns_toColumn s.toTuiFrameState
  have hlength : s.overlayColumns.length = (overlayColumnsFor s.view).length := by
    rw [← hcols, List.length_map]
  unfold Act.WritesAt handleFieldsKey
  dsimp only
  rw [hlength]
  split
  · exact redrawn_writes .close
  · next sel hsel =>
      have hpos : 0 < (overlayColumnsFor s.view).length := by cases s.view <;> decide
      have hsortable : s.Sortable sel.id := by
        rw [TuiFrameState.Sortable, ← hcols, List.map_map]
        exact List.mem_map.mpr ⟨sel, List.mem_of_getElem? hsel, rfl⟩
      have hrow : min s.fieldsSel ((overlayColumnsFor s.view).length - 1) <
          (overlayColumnsFor s.view).length := by omega
      let s' : TuiKeyState F :=
        { s with fieldsSel := min s.fieldsSel ((overlayColumnsFor s.view).length - 1) }
      have hkey := writesAt_elim (T := T) (execFields_writes (s := s') hsortable) (fieldsCommand key)
      exact (WritesTo.one (.fieldsSel _ hrow)).trans hkey

theorem adjust_writes (forward : Bool) (i : SettingItem) (s : TuiKeyState F) :
    (adjust forward i).WritesAt T s := by
  cases i with
  | theme => exact setThemeTo_writes (Nat.mod_lt _ (by decide)) s
  | groupConnections => exact Act.writesAt_change (.groupBy _ (ofIndex_ne_count _))
  | pollInterval =>
      exact Act.WritesAt.andThen (b := fun s => Act.emit (.pollInterval s.pollMs) s)
        (Act.writesAt_change (.pollMs _ (clamp_range (by decide)))) fun s =>
          Act.writesAt_emit (e := .pollInterval s.pollMs) trivial
  | bandwidthGauge => exact Act.writesAt_change (.switches _ _ _ _ _ _)
  | directionColours => exact Act.writesAt_change (.switches _ _ _ _ _ _)
  | resolveHostnames => exact Act.writesAt_change (.switches _ _ _ _ _ _)
  | aggregateUdp => exact Act.writesAt_change (.switches _ _ _ _ _ _)
  | rateSmoothing => exact Act.writesAt_change (.switches _ _ _ _ _ _)
  | sortWithin => exact redrawn_writes (.switches _ _ _ _ _ _)
  | processColumn => exact redrawn_writes (.toggleColumn .Process)
  | containerColumn => exact redrawn_writes (.toggleColumn .Container)

theorem execSettings_writes (c : SettingsCommand) (s : TuiKeyState F) :
    (execSettings c).WritesAt T s := by
  cases c with
  | close => exact redrawn_writes .close
  | move up => exact redrawn_writes (.settingsSel _ (around_lt (by decide) _ up))
  | activate forward =>
      have hadjust : (settingItems[s.settingsSel]?.elim Act.skip (adjust forward)).WritesAt T s :=
        writesAt_elim (fun i => adjust_writes forward i s) _
      exact (hadjust.andThen fun s => Act.writesAt_emit
        (e := .aggregator s.udpAggregate (if s.smoothing then 300 else 0) s.dnsEnabled) trivial).andThen
          requestRedraw_writes
  | resize => exact requestRedraw_writes s

theorem execFilter_writes (h : s.filterEditing = true) (c : InputCommand) :
    (execFilter T c).WritesAt T s := by
  cases c with
  | cancel => exact redrawn_writes .cancelFilter
  | accept => exact redrawn_writes (.commitFilter h)
  | chop => exact redrawn_writes (.filterDraft _)
  | append c => exact redrawn_writes (.filterDraft _)
  | resize => exact requestRedraw_writes s

theorem execExport_writes (o : Outside) (c : InputCommand) (s : TuiKeyState F) :
    (execExport T o c).WritesAt T s := by
  cases c with
  | cancel => exact ((WritesTo.one .endExport).trans (.one (.exportDraft []))).trans (requestRedraw_writes _)
  | accept =>
      refine ((Act.writesAt_change .endExport).andThen fun s => ?_).andThen fun _ =>
        redrawn_writes (.exportDraft [])
      split
      · exact exportCurrentView_writes o _ s
      · exact Act.writesAt_skip
  | chop => exact redrawn_writes (.exportDraft _)
  | append c => exact redrawn_writes (.exportDraft _)
  | resize => exact requestRedraw_writes s

/-- **What a key can do**: the changes of `Write`, whatever the mode, or pause and resume. -/
theorem handleKey_cases (o : Outside) (key : Key) (s : TuiKeyState F) :
    (handleKey T o key).WritesAt T s ∨
      handleKey T o key s = (togglePaused.andThen requestRedraw) s := by
  unfold Act.WritesAt handleKey
  split
  · exact .inl (writesAt_elim (fun c => execSettings_writes c s) _)
  · exact .inl (handleFieldsKey_writes key s)
  · exact .inl (handleInfoKey_writes key s)
  · exact .inl (handleInfoKey_writes key s)
  · exact .inl (handleDetailKey_writes key s)
  · next hoverlay =>
      split
      · next hediting => exact .inl (writesAt_elim (execFilter_writes hediting) _)
      · next hediting =>
          split
          · exact .inl (writesAt_elim (fun c => execExport_writes o c s) _)
          · next hprompt =>
              rw [Bool.not_eq_true] at hediting hprompt
              cases command key with
              | none => exact .inl (.refl s)
              | some c =>
                  by_cases hc : c = .pause
                  · rw [hc]
                    exact .inr rfl
                  · exact .inl (exec_writes ⟨hoverlay, hediting, hprompt⟩ o hc)

end Handlers

end Qiftop.Tui
