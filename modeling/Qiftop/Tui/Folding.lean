import Qiftop.Tui.Repaint

/-!
# Tui — folding a group

What `h` and `l` do to the table of the connections.  The rows a frame shows are those it shows with no group
folded, less the rows under the folded headers.

* `refs_filter`: folded groups only hide the rows under their headers.
* `fold_unfold`: `h` brings the cursor to the header of its group and hides the rows under it; `l` brings
  them back.
-/

namespace Qiftop.Tui
open Qt Backend Aggregate Lib Qiftop.Filter

section
variable {F : Type} [Double F] (T : TextOps F) (cachedHostname : QHostAddress → QString)
  (compare : QString → QString → Int)

/-! ### The rows of a frame -/

/-- What the cursor finds at the rows of a frame. -/
def refs (app : TuiApp F) (rows : List (Row F)) : List RowRef :=
  (plan T cachedHostname compare app rows).map (rowRef rows)

/-- A header, or a row under one that is not folded. -/
def RowRef.kept (collapsedGroups : List QString) (ref : RowRef) : Bool :=
  ref.header || !collapsedGroups.contains ref.groupKey

/-- What the cursor finds at the rows of a group. -/
def groupRefs (rows : List (Row F)) (collapsedGroups : List QString) (g : Group rows.length F) :
    List RowRef :=
  ⟨true, true, [], g.key⟩ ::
    if collapsedGroups.contains g.key then []
    else g.members.map fun i => ⟨true, false, (rows.get i).current.key, g.key⟩

omit [Double F] in
theorem map_groupRows (rows : List (Row F)) (collapsedGroups : List QString) (g : Group rows.length F) :
    (groupRows collapsedGroups g).map (rowRef rows) = groupRefs rows collapsedGroups g := by
  unfold groupRows groupRefs
  dsimp only
  split
  · rfl
  · rw [List.map_cons, List.map_map]
    rfl

theorem refs_grouped {app : TuiApp F} (hmode : app.groupBy ≠ .None) (rows : List (Row F)) :
    refs T cachedHostname compare app rows =
      (groups T cachedHostname compare app rows).flatMap (groupRefs rows app.collapsedGroups) := by
  rw [refs, plan, if_neg hmode, List.map_flatMap]
  exact List.flatMap_congr fun g _ => map_groupRows rows _ g

omit [Double F] in
/-- A group's rows are under one header. -/
theorem groupRefs_filter (rows : List (Row F)) (collapsedGroups more : List QString)
    (g : Group rows.length F) :
    groupRefs rows (more ++ collapsedGroups) g =
      (groupRefs rows collapsedGroups g).filter (RowRef.kept more) := by
  unfold groupRefs
  rw [List.filter_cons_of_pos rfl]
  by_cases hold : g.key ∈ collapsedGroups
  · simp [hold]
  · by_cases hnew : g.key ∈ more
    · simp [hnew, hold, RowRef.kept]
    · have hkept : ∀ ref ∈ g.members.map fun i =>
          (⟨true, false, (rows.get i).current.key, g.key⟩ : RowRef), RowRef.kept more ref = true := by
        simp [RowRef.kept, hnew]
      rw [if_neg (by simp [hold, hnew]), if_neg (by simp [hold]), List.filter_eq_self.mpr hkept]

/-- **Folded groups** only hide the rows under their headers. -/
theorem refs_filter {app : TuiApp F} (hmode : app.groupBy ≠ .None) (rows : List (Row F))
    (more : List QString) :
    refs T cachedHostname compare { app with collapsedGroups := more ++ app.collapsedGroups } rows =
      (refs T cachedHostname compare app rows).filter (RowRef.kept more) := by
  have hfolded := refs_grouped T cachedHostname compare
    (show { app with collapsedGroups := more ++ app.collapsedGroups }.groupBy ≠ .None from hmode) rows
  rw [hfolded, refs_grouped T cachedHostname compare hmode, List.filter_flatMap]
  exact List.flatMap_congr fun g _ => groupRefs_filter rows app.collapsedGroups more g

omit [Double F] in
theorem groupKey_of_mem {rows : List (Row F)} {collapsedGroups : List QString} (g : Group rows.length F)
    {r : RowRef} (hr : r ∈ groupRefs rows collapsedGroups g) : r.groupKey = g.key := by
  rcases List.mem_cons.mp hr with rfl | hr
  · rfl
  · split at hr
    · cases hr
    · obtain ⟨i, -, rfl⟩ := List.mem_map.mp hr
      rfl

/-- A group's header stands before the rows under it, and these before the next header. -/
theorem refs_split {app : TuiApp F} (hmode : app.groupBy ≠ .None) {rows : List (Row F)} {ref : RowRef}
    (href : ref ∈ refs T cachedHostname compare app rows) : ∃ pre under post,
    refs T cachedHostname compare app rows = pre ++ ⟨true, true, [], ref.groupKey⟩ :: (under ++ post) ∧
      (∀ r ∈ pre, r.groupKey ≠ ref.groupKey) ∧
      (∀ r ∈ under, r.header = false ∧ r.groupKey = ref.groupKey) ∧
      ∀ r ∈ post, r.groupKey ≠ ref.groupKey := by
  have hnodup := nodup_keys T cachedHostname compare app rows
  rw [refs_grouped T cachedHostname compare hmode] at href ⊢
  obtain ⟨g, hg, href⟩ := List.mem_flatMap.mp href
  obtain ⟨before, after, hgroups⟩ := List.append_of_mem hg
  rw [hgroups] at hnodup ⊢
  rw [groupKey_of_mem g href]
  rw [List.map_append, List.map_cons, List.nodup_append] at hnodup
  refine ⟨before.flatMap (groupRefs rows app.collapsedGroups),
    (groupRefs rows app.collapsedGroups g).tail, after.flatMap (groupRefs rows app.collapsedGroups),
    ?_, ?_, ?_, ?_⟩
  · rw [List.flatMap_append, List.flatMap_cons]
    rfl
  · intro r hr
    obtain ⟨g', hg', hr⟩ := List.mem_flatMap.mp hr
    rw [groupKey_of_mem g' hr]
    exact hnodup.2.2 _ (List.mem_map_of_mem hg') _ List.mem_cons_self
  · intro r hr
    refine ⟨?_, groupKey_of_mem g (List.mem_of_mem_tail hr)⟩
    unfold groupRefs at hr
    rw [List.tail_cons] at hr
    split at hr
    · cases hr
    · obtain ⟨i, -, rfl⟩ := List.mem_map.mp hr
      rfl
  · intro r hr
    obtain ⟨g', hg', hr⟩ := List.mem_flatMap.mp hr
    rw [groupKey_of_mem g' hr]
    exact fun heq => (List.nodup_cons.mp hnodup.2.1).1 (heq ▸ List.mem_map_of_mem hg')

/-- Folding a group takes the rows under its header out. -/
theorem filter_kept {key : QString} {pre under post : List RowRef} (hpre : ∀ r ∈ pre, r.groupKey ≠ key)
    (hunder : ∀ r ∈ under, r.header = false ∧ r.groupKey = key) (hpost : ∀ r ∈ post, r.groupKey ≠ key) :
    (pre ++ ⟨true, true, [], key⟩ :: (under ++ post)).filter (RowRef.kept [key]) =
      pre ++ ⟨true, true, [], key⟩ :: post := by
  have hkept : ∀ l : List RowRef, (∀ r ∈ l, r.groupKey ≠ key) → l.filter (RowRef.kept [key]) = l := by
    intro l hl
    refine List.filter_eq_self.mpr fun r hr => ?_
    simp [RowRef.kept, hl r hr]
  have hhidden : under.filter (RowRef.kept [key]) = [] := by
    refine List.filter_eq_nil_iff.mpr fun r hr => ?_
    simp [RowRef.kept, hunder r hr]
  rw [List.filter_append, List.filter_cons_of_pos rfl, List.filter_append, hkept pre hpre, hhidden,
    hkept post hpost, List.nil_append]

/-! ### Frames -/

variable (niceScale : F → F)

/-- A frame of the connections. -/
theorem redraw_connections {s : TuiKeyState F} (hview : s.view = .Connections) (body : Int) :
    let rowRefs := refs T s.source.cachedHostname compare s.toTuiApp s.connRows
    let pos := place rowRefs rowRefs.length body s.cursorTarget ⟨s.connCursor, s.connScroll⟩
    (step T compare niceScale s (.redraw body)).1 = { s with
      connCursor := pos.cursor, connScroll := pos.scroll, rowRefs, cursorTarget := none
      redrawPending := false } := by
  have hshows := planConnections_shows T s.source.cachedHostname compare s.source.texts s.toTuiFrameState
    s.source.ifaceRows s.source.connAgg
  have hrefs := hshows.refs
  have hlength := congrArg List.length hshows.cells
  rw [List.map_map] at hrefs
  rw [List.length_map, List.length_map, List.length_map] at hlength
  intro rowRefs
  have hrefs' : (planConnections T s.source.cachedHostname compare s.source.texts s.toTuiFrameState
      s.source.connAgg s.columns (s.shownConnRows s.source.connAgg)).rowRefs = rowRefs := hrefs
  have hlength' : (planConnections T s.source.cachedHostname compare s.source.texts s.toTuiFrameState
      s.source.connAgg s.columns (s.shownConnRows s.source.connAgg)).plan.length = rowRefs.length := by
    rw [hlength]
    exact (List.length_map _).symm
  simp only [step, TuiKeyState.build, buildFrame, hview, finishFrame, TuiFrameState.setPosition,
    TuiFrameState.position]
  rw [hrefs', hlength']

/-- What the cursor would find at the rows of a frame with these groups folded. -/
def TuiKeyState.tableRefs (s : TuiKeyState F) (gs : List QString) : List RowRef :=
  refs T s.source.cachedHostname compare { s.toTuiApp with collapsedGroups := gs } s.connRows

/-- What a frame of grouped connections leaves. -/
structure Framed (s s' : TuiKeyState F) (body : Int) : Prop where
  normal : s.Normal → s'.Normal
  view : s'.view = .Connections
  groupBy : s'.groupBy = s.groupBy
  collapsedGroups : s'.collapsedGroups = s.collapsedGroups
  rowRefs : s'.rowRefs = s.tableRefs T compare s.collapsedGroups
  tableRefs : s'.tableRefs T compare = s.tableRefs T compare
  target : s'.cursorTarget = none
  cursor : s'.position.cursor = (place s'.rowRefs s'.rowRefs.length body s.cursorTarget s.position).cursor

theorem redraw_framed {s : TuiKeyState F} (hview : s.view = .Connections) (body : Int) :
    Framed T compare s (step T compare niceScale s (.redraw body)).1 body := by
  have hpos : s.position = ⟨s.connCursor, s.connScroll⟩ := by
    simp only [TuiFrameState.position, hview]
  rw [redraw_connections T compare niceScale hview]
  constructor
  case normal => exact fun h => ⟨h.overlay, h.filterEditing, h.exportPrompt⟩
  case view => exact hview
  case groupBy => rfl
  case collapsedGroups => rfl
  case rowRefs => rfl
  case tableRefs => rfl
  case target => rfl
  case cursor =>
    rw [hpos]
    simp only [TuiFrameState.position, hview]

omit [Double F] in
/-- What the cursor finds is at its position. -/
theorem refAtCursor_of_cursor {s : TuiKeyState F} {pre post : List RowRef} {ref : RowRef}
    (hcursor : s.position.cursor = pre.length) (hrefs : s.rowRefs = pre ++ ref :: post) :
    s.refAtCursor = some ref := by
  rw [TuiFrameState.refAtCursor, atCursor, hcursor, if_neg (by omega), Int.toNat_natCast, hrefs]
  simp

/-- The cursor goes to the header of the group that was folded. -/
theorem place_target {rowRefs pre post : List RowRef} (hrefs : Landable rowRefs) {group : QString}
    (hsplit : rowRefs = pre ++ ⟨true, true, [], group⟩ :: post) (hpre : ∀ r ∈ pre, r.groupKey ≠ group)
    (body : Int) (pos : Position) :
    (place rowRefs rowRefs.length body (some group) pos).cursor = pre.length := by
  have hnone : pre.findIdx? (fun ref => ref.header && ref.groupKey == group) = none := by
    rw [List.findIdx?_eq_none_iff]
    intro r hr
    simp [hpre r hr]
  have hfound : (rowRefs.findIdx? fun ref => ref.header && ref.groupKey == group) = some pre.length := by
    rw [hsplit, List.findIdx?_append, hnone, List.findIdx?_cons]
    simp
  have hlength : pre.length < rowRefs.length := by
    rw [hsplit, List.length_append, List.length_cons]
    omega
  unfold place snapToTarget
  simp only [hfound]
  rw [if_neg (by omega), hrefs.snapCursor, clamp_eq (by omega)]
  dsimp only
  omega

/-- A cursor on a row stays there. -/
theorem place_stays {rowRefs : List RowRef} (hrefs : Landable rowRefs) {n : ℕ} (hn : n < rowRefs.length)
    (body : Int) {pos : Position} (hpos : pos.cursor = n) :
    (place rowRefs rowRefs.length body none pos).cursor = n := by
  unfold place snapToTarget
  simp only [hpos]
  rw [if_neg (by omega), hrefs.snapCursor, clamp_eq (by omega)]
  dsimp only
  omega

omit [Double F] in
theorem landable_rowRefs (rows : List (Row F)) (frame : List (PlannedRow rows.length F)) :
    Landable (frame.map (rowRef rows)) := by
  intro ref href
  obtain ⟨row, -, rfl⟩ := List.mem_map.mp href
  cases row <;> rfl

/-! ### Folding and unfolding -/

omit [Double F] in
theorem groupedRef_eq {s : TuiKeyState F} (hview : s.view = .Connections) (hmode : s.groupBy ≠ .None) :
    s.groupedRef = s.refAtCursor := by
  simp only [TuiFrameState.groupedRef, TuiFrameState.refAtCursor, TuiFrameState.position, hview, hmode]
  simp

omit [Double F] in
theorem redrawn_redraw (f : TuiKeyState F → TuiKeyState F) (s : TuiKeyState F) :
    (requestRedraw (redrawn f s).1).1 = { f s with redrawPending := true } := by
  have htrue : ∀ s : TuiKeyState F, (requestRedraw s).1 = { s with redrawPending := true } := by
    intro s
    unfold requestRedraw
    split
    · next h => rw [← h]
    · rfl
  rw [htrue, redrawn, Act.andThen, htrue]
  rfl

/-- What a key does to the folded groups, and to the target of the cursor. -/
structure Refolded (s s' : TuiKeyState F) (gs : List QString) (target : Option QString) : Prop where
  normal : s'.Normal
  view : s'.view = .Connections
  groupBy : s'.groupBy = s.groupBy
  collapsedGroups : s'.collapsedGroups = gs
  target : s'.cursorTarget = target
  cursor : s'.position = s.position
  tableRefs : s'.tableRefs T compare = s.tableRefs T compare

theorem handleKey_fold {s : TuiKeyState F} (hs : s.Normal) (hview : s.view = .Connections)
    (hmode : s.groupBy ≠ .None) {ref : RowRef} (href : s.refAtCursor = some ref)
    (hnew : ref.groupKey ∉ s.collapsedGroups) (o : Outside) :
    Refolded T compare s (handleKey T o (.chr 'h') s).1 (ref.groupKey :: s.collapsedGroups)
      (some ref.groupKey) := by
  have hkey : handleKey T o (.chr 'h') s = (collapseAtCursor.andThen requestRedraw) s :=
    handleKey_normal T hs o (.chr 'h')
  have hstate : (handleKey T o (.chr 'h') s).1 = { s with
      toTuiFrameState := s.collapse ref.groupKey, redrawPending := true } := by
    rw [hkey, Act.andThen, collapseAtCursor, groupedRef_eq hview hmode, href]
    simp only [List.contains_eq_mem, hnew, decide_false, Bool.false_eq_true, if_false]
    exact redrawn_redraw _ s
  rw [hstate]
  exact ⟨⟨hs.overlay, hs.filterEditing, hs.exportPrompt⟩, hview, rfl, rfl, rfl, rfl, rfl⟩

theorem handleKey_unfold {s : TuiKeyState F} (hs : s.Normal) (hview : s.view = .Connections)
    (hmode : s.groupBy ≠ .None) {group : QString} (href : s.refAtCursor = some ⟨true, true, [], group⟩)
    (hmem : group ∈ s.collapsedGroups) (o : Outside) :
    Refolded T compare s (handleKey T o (.chr 'l') s).1 (s.collapsedGroups.filter (· ≠ group))
      s.cursorTarget := by
  have hkey : handleKey T o (.chr 'l') s =
      (Act.andThen (fun s => if s.cursorOnHeader then expandAtCursor s else openDetail s) requestRedraw) s :=
    handleKey_normal T hs o (.chr 'l')
  have hheader : s.cursorOnHeader = true := by
    rw [TuiFrameState.cursorOnHeader, href]
    rfl
  have hstate : (handleKey T o (.chr 'l') s).1 = { s with
      toTuiFrameState := s.expand group, redrawPending := true } := by
    rw [hkey, Act.andThen]
    simp only [hheader, if_true, expandAtCursor, groupedRef_eq hview hmode, href]
    simp only [List.contains_eq_mem, hmem, decide_true, Bool.not_true, Bool.false_eq_true, if_false, if_true]
    exact redrawn_redraw _ s
  rw [hstate]
  exact ⟨⟨hs.overlay, hs.filterEditing, hs.exportPrompt⟩, hview, rfl, rfl, rfl, rfl, rfl⟩

theorem landable_tableRefs (s : TuiKeyState F) (gs : List QString) : Landable (s.tableRefs T compare gs) :=
  landable_rowRefs _ _

/-- **Folding and unfolding**: after a frame of the groups, `h` and the next frame hide the rows of the group
at the cursor but its header, and all other rows stay, with the cursor on that header; `l` and the next frame
show the rows of the first frame again, with the cursor still there. -/
theorem fold_unfold {s : TuiKeyState F} (hs : s.Normal) (hview : s.view = .Connections)
    (hmode : s.groupBy ≠ .None) (body body' body'' : Int) (o o' : Outside) :
    let first := (step T compare niceScale s (.redraw body)).1
    let folded := (run (step T compare niceScale) first [.key (.chr 'h') o, .redraw body']).1
    let unfolded := (run (step T compare niceScale) folded [.key (.chr 'l') o', .redraw body'']).1
    ∀ ref, first.refAtCursor = some ref → ref.groupKey ∉ s.collapsedGroups →
      folded.rowRefs = first.rowRefs.filter (RowRef.kept [ref.groupKey]) ∧
      folded.refAtCursor = some ⟨true, true, [], ref.groupKey⟩ ∧
      unfolded.rowRefs = first.rowRefs ∧ unfolded.refAtCursor = some ⟨true, true, [], ref.groupKey⟩ ∧
      unfolded.collapsedGroups = s.collapsedGroups := by
  intro first folded unfolded ref href hnew
  have hfirst : Framed T compare s first body := redraw_framed T compare niceScale hview body
  obtain ⟨s₂, hs₂⟩ : ∃ s₂, (handleKey T o (.chr 'h') first).1 = s₂ := ⟨_, rfl⟩
  obtain ⟨s₄, hs₄⟩ : ∃ s₄, (handleKey T o' (.chr 'l') folded).1 = s₄ := ⟨_, rfl⟩
  have hstate₃ : folded = (step T compare niceScale s₂ (.redraw body')).1 := hs₂ ▸ rfl
  have hstate₅ : unfolded = (step T compare niceScale s₄ (.redraw body'')).1 := hs₄ ▸ rfl
  clear_value first folded unfolded
  have hmode' : first.groupBy ≠ .None := hfirst.groupBy ▸ hmode
  have hnew' : ref.groupKey ∉ first.collapsedGroups := hfirst.collapsedGroups ▸ hnew
  have htable : first.rowRefs = first.tableRefs T compare first.collapsedGroups := by
    rw [hfirst.rowRefs, hfirst.tableRefs, hfirst.collapsedGroups]
  have hmem : ref ∈ first.tableRefs T compare first.collapsedGroups := by
    rw [← htable]
    unfold TuiFrameState.refAtCursor atCursor at href
    split at href
    · cases href
    · exact List.mem_of_getElem? href
  obtain ⟨pre, under, post, hsplit, hpre, hunder, hpost⟩ :=
    refs_split T first.source.cachedHostname compare (show first.toTuiApp.groupBy ≠ .None from hmode')
      hmem
  -- folded, the table has the same rows but those under the header
  have hfold := handleKey_fold T compare (hfirst.normal hs) hfirst.view hmode' href hnew' o
  rw [hs₂] at hfold
  have hfolded := redraw_framed T compare niceScale hfold.view body'
  rw [← hstate₃] at hfolded
  have hfoldedRefs : folded.rowRefs = first.rowRefs.filter (RowRef.kept [ref.groupKey]) := by
    rw [hfolded.rowRefs, hfold.tableRefs, hfold.collapsedGroups, htable]
    exact refs_filter T first.source.cachedHostname compare
      (show first.toTuiApp.groupBy ≠ .None from hmode') first.connRows [ref.groupKey]
  have hfoldedSplit : folded.rowRefs = pre ++ ⟨true, true, [], ref.groupKey⟩ :: post := by
    rw [hfoldedRefs, htable, TuiKeyState.tableRefs, hsplit]
    exact filter_kept hpre hunder hpost
  have hlandable : Landable folded.rowRefs := hfolded.rowRefs ▸ landable_tableRefs T compare s₂ _
  have hfoldedCursor : folded.position.cursor = pre.length := by
    rw [hfolded.cursor, hfold.target]
    exact place_target hlandable hfoldedSplit hpre body' _
  have hfoldedRef := refAtCursor_of_cursor hfoldedCursor hfoldedSplit
  -- unfolded, it has the rows of the first frame
  have hgroups : folded.collapsedGroups = ref.groupKey :: first.collapsedGroups := by
    rw [hfolded.collapsedGroups, hfold.collapsedGroups]
  have hback : folded.collapsedGroups.filter (· ≠ ref.groupKey) = first.collapsedGroups := by
    rw [hgroups, List.filter_cons_of_neg (by simp), List.filter_eq_self]
    intro g hg
    simpa using fun heq : g = ref.groupKey => hnew' (heq ▸ hg)
  have hfoldedMode : folded.groupBy ≠ .None := by
    rw [hfolded.groupBy, hfold.groupBy]
    exact hmode'
  have hunfold := handleKey_unfold T compare (hfolded.normal hfold.normal) hfolded.view hfoldedMode
    hfoldedRef (hgroups ▸ List.mem_cons_self) o'
  rw [hs₄, hback] at hunfold
  have hunfolded := redraw_framed T compare niceScale hunfold.view body''
  rw [← hstate₅] at hunfolded
  have hunfoldedRefs : unfolded.rowRefs = first.rowRefs := by
    rw [hunfolded.rowRefs, hunfold.tableRefs, hunfold.collapsedGroups, hfolded.tableRefs, hfold.tableRefs,
      htable]
  have hunfoldedSplit : unfolded.rowRefs = pre ++ ⟨true, true, [], ref.groupKey⟩ :: (under ++ post) := by
    rw [hunfoldedRefs, htable]
    exact hsplit
  have hunfoldedCursor : unfolded.position.cursor = pre.length := by
    have hlength : pre.length < unfolded.rowRefs.length := by
      rw [hunfoldedSplit, List.length_append, List.length_cons]
      omega
    rw [hunfolded.cursor, hunfold.target, hfolded.target]
    refine place_stays (hunfolded.rowRefs ▸ landable_tableRefs T compare s₄ _) hlength body'' ?_
    rw [hunfold.cursor, hfoldedCursor]
  refine ⟨hfoldedRefs, hfoldedRef, hunfoldedRefs, refAtCursor_of_cursor hunfoldedCursor hunfoldedSplit, ?_⟩
  rw [hunfolded.collapsedGroups, hunfold.collapsedGroups, hfirst.collapsedGroups]

end

/-- The three flows by interface. -/
def groupedApp : TuiKeyState ℚ :=
  { threeFlowsApp with toTuiFrameState := { toTuiApp := byInterface } }

theorem groupedApp_unfolded :
    let first := (step .ascii (fun _ _ => 0) id groupedApp (.redraw 10)).1
    let folded := (run (step .ascii (fun _ _ => 0) id) first [.key (.chr 'h') {}, .redraw 10]).1
    let unfolded := (run (step .ascii (fun _ _ => 0) id) folded [.key (.chr 'l') {}, .redraw 10]).1
    unfolded.rowRefs = first.rowRefs := by
  obtain ⟨ref, href⟩ : ∃ ref, (step .ascii (fun _ _ => 0) id groupedApp (.redraw 10)).1.refAtCursor =
      some ref := Option.isSome_iff_exists.mp (by decide +kernel)
  have hnew : ref.groupKey ∉ groupedApp.collapsedGroups := List.not_mem_nil
  exact (fold_unfold .ascii (fun _ _ => 0) id (s := groupedApp) ⟨rfl, rfl, rfl⟩ rfl (by decide) 10 10 10
    {} {} ref href hnew).2.2.1

end Qiftop.Tui
